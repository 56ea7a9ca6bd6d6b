import Remo.Spec.Loop.CheckpointLog
import Remo.Spec.Message.CumulativeFold
import Remo.Spec.Message.ToolPairing

/-!
# Durable folding and the live list

In memory a summary replaces the head of the live list; in the log it is appended with a mark
that covers the messages up to the boundary. The effective view of the log is the live list,
whatever happened before.

Key results:
* `Agrees.swap`, `Agrees.push` a checkpoint after a swap, and after appended messages
* `effective_view_eq_live`     the view of the log after any run
-/

namespace Remo

/-! ## Marks on the delta -/

theorem compactionMark_markProducedBy (m : Message) (runId : String) (stepIndex : Option UInt32) :
    (m.markProducedBy runId stepIndex).compactionMark = m.compactionMark := by
  unfold Message.compactionMark Message.markProducedBy
  cases m.metadata <;> rfl

/-- A message that is not committed keeps its mark. -/
theorem compactionMark_attributed {ctx : AppendContext} {m : Message} {index : Nat}
    (h : ctx.committedEntry m = none) :
    (ctx.attributed m index).compactionMark = m.compactionMark := by
  have hcarried : ({ m with metadata := (none : Option MessageMetadata).or m.metadata } :
      Message).compactionMark = m.compactionMark := rfl
  unfold AppendContext.attributed
  rw [h]
  dsimp only
  split <;> split <;> simp only [compactionMark_markProducedBy, Option.bind_none,
    Option.filter_none, hcarried]

/-- What folding reads of a message. -/
def Message.folded (self : Message) : Message × Option CompactionMark :=
  (self.body, self.compactionMark)

theorem isCompactionSummary_body (contents : Contents) (m : Message) :
    isCompactionSummary contents m.body = isCompactionSummary contents m := rfl

/-- The text of a summary message is recognised. -/
theorem isCompactionSummary_summaryMessage (contents : Contents) (generated summary : String) :
    isCompactionSummary contents (summaryMessage contents generated summary) = true := by
  have htext : (summaryMessage contents generated summary).text contents =
      s!"<conversation-summary>\n{summary}\n</conversation-summary>" := contents.text_ofText _
  have hsplit : s!"<conversation-summary>\n{summary}\n</conversation-summary>" =
      "<conversation-summary>" ++ ("\n" ++ (summary ++ "\n</conversation-summary>")) := by
    rw [← String.append_assoc, ← String.append_assoc]
    rfl
  unfold isCompactionSummary
  rw [htext, hsplit, Str.contains_append]
  rfl

/-! ## One boundary -/

/-- The live list, the log and the compaction state of a thread. -/
structure CompactedThread where
  messages : List Message
  log : ThreadLog
  compaction : CompactionState

/-- The compaction events of a boundary, then its new messages. -/
def atBoundary (contents : Contents) (thread : CompactedThread) (events : List CompactionEvent)
    (new : List Message) : List Message × CompactionState :=
  let live := events.foldl (tryConsumeCompactionEvent contents)
    (thread.messages, thread.compaction)
  (live.1 ++ new, live.2)

/-- A summary that was swapped in: the boundary was in flight, and its message in the list. -/
structure Swapped (contents : Contents) (messages : List Message) (compaction : CompactionState)
    (generated boundary : String) (messages' : List Message) (compaction' : CompactionState) :
    Prop where
  inFlight : ∃ f ∈ compaction.inFlight, f.boundaryMessageId = boundary
  nonempty : boundary.isEmpty = false
  messages : ∃ summary index, messages.findIdx? (fun m => m.id == some boundary) = some index ∧
    messages' = summaryMessage contents generated summary :: messages.drop (index + 1)
  recorded : ∃ b, compaction'.boundaries.getLast? = some b ∧ b.boundaryMessageId = some boundary
  settled : compaction'.inFlight = none

theorem matchingInFlight_eq_some {prior : Option CompactionInFlight} {taskId : Option String}
    {boundary : String} {f : CompactionInFlight}
    (h : matchingInFlight prior taskId boundary = some f) :
    prior = some f ∧ (boundary.isEmpty = false → f.boundaryMessageId = boundary) := by
  unfold matchingInFlight at h
  obtain ⟨f', hprior, h⟩ := Option.bind_eq_some_iff.mp h
  by_cases htask : taskId ≠ some f'.taskId
  · simp [htask] at h
  · by_cases hboundary : (!boundary.isEmpty && decide (boundary ≠ f'.boundaryMessageId)) = true
    · simp only [htask, hboundary, if_true, if_false] at h
      cases h
    · simp only [htask, hboundary, if_false] at h
      cases h
      constructor
      · exact hprior
      · intro hne
        simp only [hne, Bool.not_false, Bool.true_and, decide_eq_true_eq, ne_eq,
          Decidable.not_not] at hboundary
        exact hboundary.symm

/-- The id a completion event gives to its summary. -/
def CompactionEvent.generated? : CompactionEvent → Option String
  | .completed _ _ _ _ generated _ => some generated
  | .failed _ _ _ _ => none
  | .skipped _ _ _ _ _ _ _ _ => none

/-- An event swaps in a summary, or leaves the list and at most clears the pass in flight. -/
theorem tryConsumeCompactionEvent_cases (contents : Contents) (live : List Message × CompactionState)
    (event : CompactionEvent) :
    (∃ generated ∈ event.generated?, ∃ boundary, Swapped contents live.1 live.2 generated boundary
      (tryConsumeCompactionEvent contents live event).1
      (tryConsumeCompactionEvent contents live event).2) ∨
    ((tryConsumeCompactionEvent contents live event).1 = live.1 ∧
      ((tryConsumeCompactionEvent contents live event).2.inFlight = live.2.inFlight ∨
        (tryConsumeCompactionEvent contents live event).2.inFlight = none)) := by
  cases event with
  | failed taskId boundary error now =>
    right
    unfold tryConsumeCompactionEvent consumeFailed
    dsimp only
    split
    next => exact ⟨rfl, .inl rfl⟩
    next => exact ⟨rfl, .inr rfl⟩
  | skipped taskId boundary reason preTokens postTokens savings minSavings now =>
    right
    unfold tryConsumeCompactionEvent consumeSkipped
    dsimp only
    split
    next => exact ⟨rfl, .inl rfl⟩
    next => exact ⟨rfl, .inr rfl⟩
  | completed taskId boundary summary preTokens generated now =>
    unfold tryConsumeCompactionEvent consumeCompleted
    dsimp only
    cases hmatch : matchingInFlight live.2.inFlight taskId boundary with
    | none =>
      right
      exact ⟨rfl, .inl rfl⟩
    | some f =>
      obtain ⟨hinFlight, hboundary⟩ := matchingInFlight_eq_some hmatch
      dsimp only
      by_cases hempty : (boundary.isEmpty || summary.isEmpty) = true
      · right
        rw [if_pos hempty]
        exact ⟨rfl, .inr rfl⟩
      · rw [if_neg hempty]
        rw [Bool.or_eq_true, not_or, Bool.not_eq_true] at hempty
        cases happly : applySummary contents live.1 boundary summary generated with
        | none =>
          right
          exact ⟨rfl, .inr rfl⟩
        | some applied =>
          left
          use generated
          constructor
          · rfl
          · use boundary
            constructor
            · exact ⟨f, hinFlight, hboundary hempty.1⟩
            · exact hempty.1
            · unfold applySummary at happly
              obtain ⟨index, hindex, happly⟩ := Option.bind_eq_some_iff.mp happly
              cases happly
              exact ⟨summary, index, hindex, rfl⟩
            · exact ⟨_, List.getLast?_concat .., rfl⟩
            · rfl

/-- With no pass in flight events change nothing in the list. -/
theorem foldl_tryConsume_settled (contents : Contents) (events : List CompactionEvent)
    (live : List Message × CompactionState) (h : live.2.inFlight = none) :
    events.foldl (tryConsumeCompactionEvent contents) live = live := by
  induction events with
  | nil => rfl
  | cons event events ih =>
    have hsame : tryConsumeCompactionEvent contents live event = live := by
      cases event with
      | failed taskId boundary error now =>
        unfold tryConsumeCompactionEvent consumeFailed matchingInFlight
        rw [h]
        rfl
      | skipped taskId boundary reason preTokens postTokens savings minSavings now =>
        unfold tryConsumeCompactionEvent consumeSkipped matchingInFlight
        rw [h]
        rfl
      | completed taskId boundary summary preTokens generated now =>
        unfold tryConsumeCompactionEvent consumeCompleted matchingInFlight
        rw [h]
        rfl
    rw [List.foldl_cons, hsame]
    exact ih

/-- Of the events of one boundary at most one swaps in a summary. -/
theorem foldl_tryConsume_cases (contents : Contents) (events : List CompactionEvent)
    (live : List Message × CompactionState) :
    (∃ event ∈ events, ∃ generated ∈ event.generated?, ∃ boundary, Swapped contents live.1 live.2
      generated boundary (events.foldl (tryConsumeCompactionEvent contents) live).1
      (events.foldl (tryConsumeCompactionEvent contents) live).2) ∨
    ((events.foldl (tryConsumeCompactionEvent contents) live).1 = live.1 ∧
      ((events.foldl (tryConsumeCompactionEvent contents) live).2.inFlight = live.2.inFlight ∨
        (events.foldl (tryConsumeCompactionEvent contents) live).2.inFlight = none)) := by
  induction events generalizing live with
  | nil =>
    right
    exact ⟨rfl, .inl rfl⟩
  | cons event events ih =>
    rw [List.foldl_cons]
    cases tryConsumeCompactionEvent_cases contents live event with
    | inl hswap =>
      obtain ⟨generated, hgenerated, boundary, hswapped⟩ := hswap
      rw [foldl_tryConsume_settled contents events _ hswapped.settled]
      left
      exact ⟨event, List.mem_cons_self, generated, hgenerated, boundary, hswapped⟩
    | inr hkeep =>
      obtain ⟨hlist, hflight⟩ := hkeep
      cases hflight with
      | inr hnone =>
        rw [foldl_tryConsume_settled contents events _ hnone]
        right
        exact ⟨hlist, .inr hnone⟩
      | inl hsame =>
        cases ih (tryConsumeCompactionEvent contents live event) with
        | inl hswap =>
          obtain ⟨event', hevent', generated, hgenerated, boundary, hswapped⟩ := hswap
          left
          refine ⟨event', List.mem_cons_of_mem _ hevent', generated, hgenerated, boundary, ?_⟩
          constructor
          · rw [← hsame]
            exact hswapped.inFlight
          · exact hswapped.nonempty
          · rw [← hlist]
            exact hswapped.messages
          · exact hswapped.recorded
          · exact hswapped.settled
        | inr hrest =>
          right
          rw [hrest.1, hlist]
          constructor
          · rfl
          · rw [← hsame]
            exact hrest.2

/-! ## The delta of a boundary -/

theorem folded_attributed {ctx : AppendContext} {m : Message} {index : Nat}
    (h : ctx.committedEntry m = none) : (ctx.attributed m index).folded = m.folded := by
  unfold Message.folded
  rw [body_attributed, compactionMark_attributed h]

theorem map_id_of_map_folded {delta new : List Message}
    (h : delta.map Message.folded = new.map Message.folded) :
    delta.map Message.id = new.map Message.id := by
  have hids : ∀ l : List Message, l.map Message.id =
      (l.map Message.folded).map fun entry => entry.1.id := by
    intro l
    rw [List.map_map]
    rfl
  rw [hids delta, hids new, h]

/-- What folding reads of the delta is what it reads of the appended messages. -/
theorem exists_of_map_folded {delta new : List Message}
    (h : delta.map Message.folded = new.map Message.folded) {m : Message} (hm : m ∈ delta) :
    ∃ n ∈ new, n.body = m.body ∧ n.compactionMark = m.compactionMark := by
  have hmem : m.folded ∈ new.map Message.folded := by
    rw [← h]
    exact List.mem_map_of_mem hm
  obtain ⟨n, hn, hsame⟩ := List.mem_map.mp hmem
  exact ⟨n, hn, congrArg Prod.fst hsame, congrArg Prod.snd hsame⟩

/-- Messages that are no summaries of compactions. -/
def NoSummaries (contents : Contents) (new : List Message) : Prop :=
  ∀ m ∈ new, m.compactionMark = none ∧ isCompactionSummary contents m = false

theorem NoSummaries.of_folded {contents : Contents} {delta new : List Message}
    (hnew : NoSummaries contents new) (h : delta.map Message.folded = new.map Message.folded) :
    NoSummaries contents delta := by
  intro m hm
  obtain ⟨n, hn, hbody, hmark⟩ := exists_of_map_folded h hm
  obtain ⟨hnone, hsummary⟩ := hnew n hn
  constructor
  · rw [← hmark, hnone]
  · rw [← isCompactionSummary_body, ← hbody, isCompactionSummary_body, hsummary]

/-- Without a summary in the delta nothing is stamped. -/
theorem stamp_noSummaries {contents : Contents} {delta : List Message}
    (h : NoSummaries contents delta) (committed : List Message)
    (compaction : Option CompactionState) :
    stampCompactionMarks contents delta committed compaction = delta := by
  unfold stampCompactionMarks
  rw [if_pos]
  rw [Bool.not_eq_true', List.any_eq_false]
  intro m hm
  rw [(h m hm).2]
  exact Bool.false_ne_true

/-- A summary in front of the delta is stamped with the position of the last boundary. -/
theorem stamp_summary {contents : Contents} {s : Message} {rest committed : List Message}
    {compaction : CompactionState} {b : CompactionBoundary} {boundary : String} {index : Nat}
    (hs : isCompactionSummary contents s = true) (hnone : s.compactionMark = none)
    (hrest : NoSummaries contents rest) (hlast : compaction.boundaries.getLast? = some b)
    (hb : b.boundaryMessageId = some boundary) (hne : boundary.isEmpty = false)
    (hindex : committed.findIdx? (fun m => m.id == some boundary) = some index) :
    ∃ s', s'.body = s.body ∧ s'.compactionMark = some ⟨1, index + 1⟩ ∧
      stampCompactionMarks contents (s :: rest) committed (some compaction) = s' :: rest := by
  use stampMessage contents (index + 1) s
  have hstamp : stampMessage contents (index + 1) s =
      { s with metadata := some { s.metadata.getD .default with
        compaction := some ⟨1, index + 1⟩ } } := by
    have hopen : (s.metadata.bind MessageMetadata.compaction).isNone = true := by
      rw [Option.isNone_iff_eq_none]
      exact hnone
    unfold stampMessage
    rw [hs, hopen]
    rfl
  constructor
  · exact body_stampMessage contents _ s
  · constructor
    · rw [hstamp]
      rfl
    · unfold stampCompactionMarks
      rw [if_neg (by simp [hs])]
      simp only [Option.bind_some, hlast, hb, Option.filter_some, hne, Bool.not_false, if_true,
        hindex]
      rw [List.map_cons]
      congr 1
      conv_rhs => rw [← List.map_id rest]
      apply List.map_congr_left
      intro m hm
      unfold stampMessage
      rw [(hrest m hm).2]
      rfl

/-- A checkpoint that meets no other writer. -/
theorem persistCheckpoint_alone {contents : Contents} {params : CheckpointPersist}
    {env : Nat → Attempt} {log : ThreadLog} (halone : ∀ n, (env n).others = [])
    (hok : (persistCheckpoint contents params env log).1 = .ok ()) :
    (persistCheckpoint contents params env log).2.committed = log.committed ++
      stampCompactionMarks contents (materializeCheckpointAppend params.messages log.committed
        (params.cached.or log.run) params.runIdentity.threadId params.runIdentity.runId
        params.lifecycle.stepCount params.inputMessageCount).1 log.committed
        params.compaction := by
  obtain ⟨added, hadded, hend⟩ := commitCheckpointAppending_cases
    (plan_version contents params (params.cached.or log.run))
    ((List.range maxAppendAttempts).map env) log
  have hflat : ((List.range maxAppendAttempts).map env).flatMap Attempt.others = [] := by
    rw [List.flatMap_map, List.flatMap_eq_nil_iff]
    intro n _
    exact halone n
  rw [hflat, List.prefix_nil] at hadded
  subst hadded
  have hpersist : persistCheckpoint contents params env log =
      ((commitCheckpointAppending (params.plan contents (params.cached.or log.run))
        ((List.range maxAppendAttempts).map env) log).1.mapError
          (mapCommitAppendError params.runIdentity.threadId),
      (commitCheckpointAppending (params.plan contents (params.cached.or log.run))
        ((List.range maxAppendAttempts).map env) log).2) := rfl
  rw [hpersist] at hok ⊢
  cases hend with
  | inl hdone =>
    obtain ⟨plan, rfl, hresult, -⟩ := hdone
    rw [hresult, List.append_nil]
    rfl
  | inr herror =>
    obtain ⟨e, hresult⟩ := herror
    rw [hresult] at hok
    cases hok

/-! ## The invariant -/

/-- The live list has the ids of the folded log; its first message is hidden when it is a
    summary, and no pass in flight ends at that summary. -/
structure Agrees (thread : CompactedThread) (head : List Message) (upTo : Nat) : Prop where
  ids : ∀ m ∈ thread.log.committed, m.id.isSome = true
  nodup : (thread.log.committed.map Message.id).Nodup
  marks : MarksFromStart thread.log.committed
  folds : FoldsTo thread.log.committed head upTo
  bounded : upTo ≤ thread.log.committed.length
  live : thread.messages.map Message.id =
    (head ++ rawAfter thread.log.committed upTo).map Message.id
  hidden : ∀ m ∈ thread.messages, m.id ∈ head.map Message.id → m.visibility = .internal
  ahead : ∀ f ∈ thread.compaction.inFlight, some f.boundaryMessageId ∉ head.map Message.id

/-- What stands behind the first message with an id. -/
theorem map_drop_findIdx {l : List Message} {xs ys : List (Option String)} {y : Option String}
    {index : Nat} (hmap : l.map Message.id = xs ++ y :: ys) (hnot : y ∉ xs)
    (hindex : l.findIdx? (fun m => m.id == y) = some index) :
    (l.drop (index + 1)).map Message.id = ys := by
  induction xs generalizing l index with
  | nil =>
    cases l with
    | nil => cases hmap
    | cons m l =>
      rw [List.map_cons, List.nil_append, List.cons.injEq] at hmap
      rw [List.findIdx?_cons, if_pos (by rw [hmap.1]; exact beq_self_eq_true y)] at hindex
      obtain rfl := Option.some.inj hindex
      exact hmap.2
  | cons x xs ih =>
    cases l with
    | nil => cases hmap
    | cons m l =>
      rw [List.map_cons, List.cons_append, List.cons.injEq] at hmap
      have hne : (m.id == y) = false := by
        rw [hmap.1, beq_eq_false_iff_ne]
        intro heq
        exact hnot (heq ▸ List.mem_cons_self)
      rw [List.findIdx?_cons, hne, if_neg Bool.false_ne_true] at hindex
      obtain ⟨i, hi, rfl⟩ := Option.map_eq_some_iff.mp hindex
      show (l.drop (i + 1)).map Message.id = ys
      exact ih hmap.2 (fun h => hnot (List.mem_cons_of_mem _ h)) hi

namespace Agrees

variable {thread : CompactedThread} {head : List Message} {upTo : Nat}
  {contents : Contents} {new delta : List Message} {compaction : CompactionState}
  {run : Option RunRecord}

/-- The live messages are committed. -/
theorem committed (h : Agrees thread head upTo) {m : Message} (hm : m ∈ thread.messages) :
    m.id ∈ thread.log.committed.map Message.id := by
  have hmem : m.id ∈ thread.messages.map Message.id := List.mem_map_of_mem hm
  rw [h.live, List.map_append, List.mem_append] at hmem
  cases hmem with
  | inl hhead =>
    obtain ⟨s, hs, hid⟩ := List.mem_map.mp hhead
    rw [← hid]
    exact List.mem_map_of_mem (h.folds.mem_head s hs).1
  | inr hraw =>
    obtain ⟨r, hr, hid⟩ := List.mem_map.mp hraw
    obtain ⟨index, -, hindex, -⟩ := mem_rawAfter.mp hr
    rw [← hid]
    exact List.mem_map_of_mem (List.mem_of_getElem? hindex)

theorem liveIds (h : Agrees thread head upTo) {m : Message} (hm : m ∈ thread.messages) :
    m.id.isSome = true := by
  obtain ⟨c, hc, hid⟩ := List.mem_map.mp (h.committed hm)
  rw [← hid]
  exact h.ids c hc

/-- A raw message has not the id of the summary in front. -/
theorem raw_apart (h : Agrees thread head upTo) {m : Message}
    (hm : m ∈ rawAfter thread.log.committed upTo) : m.id ∉ head.map Message.id := by
  intro hmem
  obtain ⟨s, hs, hid⟩ := List.mem_map.mp hmem
  obtain ⟨hcommitted, hsome⟩ := h.folds.mem_head s hs
  obtain ⟨index, -, hindex, hnone⟩ := mem_rawAfter.mp hm
  obtain rfl := List.inj_on_of_nodup_map h.nodup hcommitted (List.mem_of_getElem? hindex) hid
  rw [hnone] at hsome
  cases hsome

/-- Appended messages, with a pass in flight as before or none. -/
theorem push (h : Agrees thread head upTo) (hraw : NoSummaries contents new)
    (hfresh : FreshFor thread.messages thread.log.committed new)
    (hdelta : delta.map Message.folded = new.map Message.folded)
    (hflight : compaction.inFlight = thread.compaction.inFlight ∨ compaction.inFlight = none) :
    Agrees ⟨thread.messages ++ new, ⟨thread.log.committed ++ delta, run⟩, compaction⟩ head
      upTo := by
  have hids := map_id_of_map_folded hdelta
  have hmarks : ∀ m ∈ delta, m.compactionMark = none :=
    fun m hm => ((hraw.of_folded hdelta) m hm).1
  constructor
  case ids =>
    intro m hm
    cases List.mem_append.mp hm with
    | inl hold => exact h.ids m hold
    | inr hlast =>
      obtain ⟨n, hn, hbody, -⟩ := exists_of_map_folded hdelta hlast
      rw [← Message.body_id, ← hbody]
      exact hfresh.ids n hn
  case nodup =>
    show ((thread.log.committed ++ delta).map Message.id).Nodup
    rw [List.map_append, hids]
    exact List.nodup_append'.mpr ⟨h.nodup, hfresh.nodup, List.disjoint_comm.mp hfresh.log⟩
  case marks =>
    intro m hm mark hmark
    cases List.mem_append.mp hm with
    | inl hold => exact h.marks m hold mark hmark
    | inr hlast =>
      rw [hmarks m hlast] at hmark
      cases hmark
  case folds => exact h.folds.append_raw hmarks
  case bounded =>
    have := h.bounded
    show upTo ≤ (thread.log.committed ++ delta).length
    rw [List.length_append]
    omega
  case live =>
    show (thread.messages ++ new).map Message.id = _
    rw [rawAfter_append hmarks h.bounded, List.map_append, h.live, ← hids, ← List.append_assoc,
      ← List.map_append]
  case hidden =>
    intro m hm hhead
    cases List.mem_append.mp hm with
    | inl hold => exact h.hidden m hold hhead
    | inr hlast =>
      obtain ⟨s, hs, hid⟩ := List.mem_map.mp hhead
      exfalso
      apply hfresh.log (List.mem_map_of_mem hlast)
      rw [← hid]
      exact List.mem_map_of_mem (h.folds.mem_head s hs).1
  case ahead =>
    intro f hf
    cases hflight with
    | inl hsame =>
      apply h.ahead f
      rw [← hsame]
      exact hf
    | inr hnone =>
      change f ∈ compaction.inFlight at hf
      rw [hnone] at hf
      cases hf

/-- A swap: the summary goes in front of the list, and behind the log with its mark. -/
theorem swap (h : Agrees thread head upTo) {generated boundary summary : String}
    {index : Nat} (hflight : some boundary ∉ head.map Message.id)
    (hindex : thread.messages.findIdx? (fun m => m.id == some boundary) = some index)
    (hgenerated : some generated ∉ thread.log.committed.map Message.id) :
    ∃ position, thread.log.committed.findIdx? (fun m => m.id == some boundary) = some position ∧
      ∀ s : Message, s.body = (summaryMessage contents generated summary).body →
        s.compactionMark = some ⟨1, position + 1⟩ → compaction.inFlight = none →
        Agrees ⟨summaryMessage contents generated summary :: thread.messages.drop (index + 1),
          ⟨thread.log.committed ++ [s], run⟩, compaction⟩ [s] (position + 1) := by
  have hmem : some boundary ∈ thread.messages.map Message.id := by
    obtain ⟨hlt, hget, -⟩ := List.findIdx?_eq_some_iff_getElem.mp hindex
    rw [← beq_iff_eq.mp hget]
    exact List.mem_map_of_mem (List.getElem_mem hlt)
  -- the boundary is a raw message of the log
  rw [h.live, List.map_append, List.mem_append] at hmem
  obtain ⟨r, hr, hid⟩ := List.mem_map.mp (hmem.resolve_left hflight)
  obtain ⟨position, hle, hposition, hnone⟩ := mem_rawAfter.mp hr
  obtain ⟨hlt, hget⟩ := List.getElem?_eq_some_iff.mp hposition
  have hbefore : ∀ m ∈ thread.log.committed.take position, m.id ≠ some boundary := by
    intro m hm heq
    obtain ⟨i, hi⟩ := List.mem_iff_getElem?.mp hm
    rw [List.getElem?_take] at hi
    split at hi
    next hilt =>
      have hlog := List.pairwise_iff_getElem.mp (List.pairwise_map.mp h.nodup)
      obtain ⟨hi', hgeti⟩ := List.getElem?_eq_some_iff.mp hi
      apply hlog i position hi' hlt hilt
      rw [hgeti, hget, heq, hid]
    next => cases hi
  have hsplit := rawAfter_split hle hposition hnone
  have hrest : (thread.messages.drop (index + 1)).map Message.id =
      (rawAfter thread.log.committed (position + 1)).map Message.id := by
    have hdrop := fun h1 h2 => @map_drop_findIdx thread.messages
      (head.map Message.id ++ (((thread.log.committed.take position).drop upTo).filter fun m =>
        m.compactionMark.isNone).map Message.id)
      ((rawAfter thread.log.committed (position + 1)).map Message.id) (some boundary) index h1 h2
        hindex
    apply hdrop
    · rw [h.live, hsplit, List.map_append, List.map_append, List.map_cons, hid,
        List.append_assoc]
    · intro hbad
      cases List.mem_append.mp hbad with
      | inl hhead => exact hflight hhead
      | inr hfilter =>
        obtain ⟨m, hm, heq⟩ := List.mem_map.mp hfilter
        exact hbefore m (List.mem_of_mem_drop (List.mem_filter.mp hm).1) heq
  use position
  constructor
  · apply List.findIdx?_eq_some_iff_getElem.mpr
    use hlt
    constructor
    · rw [hget, hid]
      exact beq_self_eq_true _
    · intro j hj
      have hmem : thread.log.committed[j] ∈ thread.log.committed.take position := by
        apply List.mem_iff_getElem?.mpr
        use j
        rw [List.getElem?_take, if_pos hj, List.getElem?_eq_getElem]
      have := hbefore _ hmem
      simpa using this
  · intro s hs hmark hsettled
    have hsid : s.id = some generated := by
      rw [← Message.body_id, hs]
      rfl
    have hwide : ∀ m ∈ thread.log.committed, ∀ mark, m.compactionMark = some mark →
        mark.toSeq < position + 1 := by
      intro m hm mark hm'
      have := h.folds.marks_le m hm mark hm'
      omega
    constructor
    case ids =>
      intro m hm
      cases List.mem_append.mp hm with
      | inl hold => exact h.ids m hold
      | inr hlast =>
        rw [List.mem_singleton.mp hlast, hsid]
        rfl
    case nodup =>
      show ((thread.log.committed ++ [s]).map Message.id).Nodup
      rw [List.map_append]
      apply List.nodup_append'.mpr
      constructor
      · exact h.nodup
      · constructor
        · exact List.nodup_singleton _
        · intro id hold hlast
          rw [List.map_singleton, List.mem_singleton, hsid] at hlast
          rw [hlast] at hold
          exact hgenerated hold
    case marks =>
      intro m hm mark hm'
      cases List.mem_append.mp hm with
      | inl hold => exact h.marks m hold mark hm'
      | inr hlast =>
        rw [List.mem_singleton.mp hlast, hmark] at hm'
        cases hm'
        rfl
    case folds => exact FoldsTo.concat_summary hmark hwide
    case bounded =>
      show position + 1 ≤ (thread.log.committed ++ [s]).length
      rw [List.length_append, List.length_singleton]
      omega
    case live =>
      show (summaryMessage contents generated summary ::
        thread.messages.drop (index + 1)).map Message.id = _
      rw [rawAfter_concat_summary (by rw [hmark]; rfl), List.map_cons, hrest, List.map_append,
        List.map_singleton, hsid]
      rfl
    case hidden =>
      intro m hm hhead
      cases List.mem_cons.mp hm with
      | inl hfirst =>
        rw [hfirst]
        rfl
      | inr hold =>
        have hin := h.committed (List.mem_of_mem_drop hold)
        rw [List.map_singleton, List.mem_singleton, hsid] at hhead
        rw [hhead] at hin
        exact absurd hin hgenerated
    case ahead =>
      intro f hf
      change f ∈ compaction.inFlight at hf
      rw [hsettled] at hf
      cases hf

end Agrees

/-! ## Planning -/

/-- A planned boundary has a visible message at it or in front of it. -/
theorem planCompaction_visible {contents : Contents} {messages : List Message}
    {policy : ContextWindowPolicy} {plan : CompactionPlan}
    (h : planCompaction contents messages policy = some plan) :
    ∃ (k : Nat) (b m : Message), messages[k]? = some b ∧ b.id = some plan.boundaryMessageId ∧
      m ∈ messages.take (k + 1) ∧ m.visibility ≠ .internal := by
  unfold planCompaction at h
  dsimp only at h
  split at h
  next => cases h
  next =>
    split at h
    next => cases h
    next =>
      obtain ⟨k, -, h⟩ := Option.bind_eq_some_iff.mp h
      obtain ⟨boundaryId, hboundary, h⟩ := Option.bind_eq_some_iff.mp h
      obtain ⟨b, hb, hid⟩ := Option.bind_eq_some_iff.mp hboundary
      split at h
      next => cases h
      next =>
        split at h
        next => cases h
        next htranscript =>
          cases h
          use k, b
          by_contra hnone
          apply htranscript
          -- without a visible message the transcript is empty
          have hfilter : (messages.take (k + 1)).filter (fun m => m.visibility != .internal) =
              [] := by
            apply List.filter_eq_nil_iff.mpr
            intro m hm hvisible
            apply hnone
            exact ⟨m, hb, hid, hm, by simpa using hvisible⟩
          unfold renderTranscript
          rw [hfilter]
          rfl

/-- A pass that is queued ends behind the summary in front. -/
theorem Agrees.spawn {thread : CompactedThread} {head : List Message} {upTo : Nat}
    (h : Agrees thread head upTo) (contents : Contents) (policy : ContextWindowPolicy)
    (taskId : String) (now : UInt64) :
    Agrees ⟨thread.messages, thread.log,
      maybeSpawnCompaction contents thread.messages policy taskId now thread.compaction⟩ head
      upTo := by
  constructor
  case ids => exact h.ids
  case nodup => exact h.nodup
  case marks => exact h.marks
  case folds => exact h.folds
  case bounded => exact h.bounded
  case live => exact h.live
  case hidden => exact h.hidden
  case ahead =>
    intro f hf
    change f ∈ (maybeSpawnCompaction contents thread.messages policy taskId now
      thread.compaction).inFlight at hf
    unfold maybeSpawnCompaction reserveCompactionInFlight at hf
    cases hplan : planCompaction contents thread.messages policy with
    | none =>
      rw [hplan] at hf
      exact h.ahead f hf
    | some plan =>
      rw [hplan] at hf
      dsimp only at hf
      split at hf
      next => exact h.ahead f hf
      next =>
        obtain rfl := Option.some.inj hf
        obtain ⟨k, b, m, hb, hid, hm, hvisible⟩ := planCompaction_visible hplan
        intro hhead
        dsimp only at hhead
        rw [← hid] at hhead
        have hzero : k = 0 := by
          have hk : (thread.messages.map Message.id)[k]? = some b.id := by
            rw [List.getElem?_map, hb]
            rfl
          rw [h.live, List.map_append] at hk
          by_contra hpos
          have hlength := h.folds.length_head
          rw [List.getElem?_append_right (by rw [List.length_map]; omega)] at hk
          obtain ⟨r, hr, hrid⟩ := List.mem_map.mp (List.mem_of_getElem? hk)
          rw [← hrid] at hhead
          exact h.raw_apart hr hhead
        subst hzero
        apply hvisible
        obtain ⟨i, hi⟩ := List.mem_iff_getElem?.mp hm
        rw [List.getElem?_take] at hi
        split at hi
        next hlt =>
          obtain rfl : i = 0 := by omega
          rw [hb] at hi
          obtain rfl := Option.some.inj hi
          exact h.hidden b (List.mem_of_getElem? hb) hhead
        next => cases hi

/-! ## Runs -/

/-- A run resumes a thread: the live list is the effective view of its log. The marks of the
    log were stamped on hidden summaries, and a pass in flight does not end at one. -/
structure CompactedThread.Resumed (thread : CompactedThread) : Prop where
  ids : ∀ m ∈ thread.log.committed, m.id.isSome = true
  nodup : (thread.log.committed.map Message.id).Nodup
  marks : ∀ (index : Nat) (m : Message), thread.log.committed[index]? = some m →
    ∀ mark, m.compactionMark = some mark →
      mark.fromSeq = 1 ∧ mark.toSeq ≤ index ∧ m.visibility = .internal
  messages : ∃ threadId generated, thread.messages =
    effectiveMessages (committedRecords threadId thread.log.committed generated)
  ahead : ∀ f ∈ thread.compaction.inFlight, ∀ m ∈ thread.log.committed,
    m.compactionMark.isSome = true → m.id ≠ some f.boundaryMessageId

/-- What happens on a thread: compaction passes are queued or fail to be, and at a boundary
    compaction events are handled, messages appended, and a checkpoint is persisted. -/
inductive ThreadReaches (contents : Contents) (start : CompactedThread) : CompactedThread → Prop
  | start : ThreadReaches contents start start
  | spawn {thread : CompactedThread} (policy : ContextWindowPolicy) (taskId : String)
      (now : UInt64) : ThreadReaches contents start thread →
      ThreadReaches contents start ⟨thread.messages, thread.log,
        maybeSpawnCompaction contents thread.messages policy taskId now thread.compaction⟩
  | spawnFailed {thread : CompactedThread} (taskId : String) :
      ThreadReaches contents start thread →
      ThreadReaches contents start
        ⟨thread.messages, thread.log, clearInFlightAfterSpawnFailure thread.compaction taskId⟩
  | boundary {thread : CompactedThread} {events : List CompactionEvent} {new : List Message}
      {params : CheckpointPersist} {env : Nat → Attempt} :
      ThreadReaches contents start thread →
      FreshFor thread.messages thread.log.committed new → NoSummaries contents new →
      (∀ event ∈ events, ∀ generated ∈ event.generated?,
        some generated ∉ thread.log.committed.map Message.id ∧
          some generated ∉ new.map Message.id) →
      params.messages = (atBoundary contents thread events new).1 →
      params.compaction = some (atBoundary contents thread events new).2 →
      (∀ n, (env n).others = []) →
      (persistCheckpoint contents params env thread.log).1 = .ok () →
      ThreadReaches contents start ⟨(atBoundary contents thread events new).1,
        (persistCheckpoint contents params env thread.log).2,
        (atBoundary contents thread events new).2⟩

theorem CompactedThread.Resumed.agrees {thread : CompactedThread} (h : thread.Resumed) :
    ∃ head upTo, Agrees thread head upTo := by
  have hmarks : MarksFromStart thread.log.committed := by
    intro m hm mark hmark
    obtain ⟨index, hindex⟩ := List.mem_iff_getElem?.mp hm
    exact (h.marks index m hindex mark hmark).1
  obtain ⟨head, upTo, hfolds⟩ := exists_foldsTo hmarks
  obtain ⟨threadId, generated, hmessages⟩ := h.messages
  rw [effectiveMessages_foldsTo h.ids hmarks hfolds] at hmessages
  use head, upTo
  constructor
  case ids => exact h.ids
  case nodup => exact h.nodup
  case marks => exact hmarks
  case folds => exact hfolds
  case bounded =>
    cases hfolds with
    | raw _ => exact Nat.zero_le _
    | @summary s index _ hindex hmark _ _ =>
      obtain ⟨hlt, -⟩ := List.getElem?_eq_some_iff.mp hindex
      have hle := (h.marks index s hindex _ hmark).2.1
      dsimp only at hle
      omega
  case live => rw [hmessages]
  case hidden =>
    intro m hm hhead
    obtain ⟨s, hs, hid⟩ := List.mem_map.mp hhead
    obtain ⟨hcommitted, hsome⟩ := hfolds.mem_head s hs
    have hin : m ∈ thread.log.committed := by
      rw [hmessages, List.mem_append] at hm
      cases hm with
      | inl hfirst => exact (hfolds.mem_head m hfirst).1
      | inr hraw =>
        obtain ⟨index, -, hindex, -⟩ := mem_rawAfter.mp hraw
        exact List.mem_of_getElem? hindex
    obtain rfl := List.inj_on_of_nodup_map h.nodup hcommitted hin hid
    obtain ⟨mark, hmark⟩ := Option.isSome_iff_exists.mp hsome
    obtain ⟨index, hindex⟩ := List.mem_iff_getElem?.mp hin
    exact (h.marks index s hindex mark hmark).2.2
  case ahead =>
    intro f hf hmem
    obtain ⟨s, hs, hid⟩ := List.mem_map.mp hmem
    obtain ⟨hcommitted, hsome⟩ := hfolds.mem_head s hs
    exact h.ahead f hf s hcommitted hsome hid

/-- The delta of a checkpoint, as far as folding reads it. -/
theorem delta_folded {messages committed : List Message} {previous : Option RunRecord}
    {threadId runId : String} {stepCount : UInt32} {inputMessageCount : Nat}
    (hids : ∀ m ∈ messages, m.id.isSome = true) :
    (materializeCheckpointAppend messages committed previous threadId runId stepCount
      inputMessageCount).1.map Message.folded =
      (messages.filter fun m => decide (m.id ∉ committed.map Message.id)).map Message.folded :=
  materialize_map Message.folded (fun _ _ _ h => folded_attributed h) hids

/-- The messages of a boundary that are not committed. -/
theorem filter_open {old new committed : List Message}
    (hold : ∀ m ∈ old, m.id ∈ committed.map Message.id)
    (hnew : (new.map Message.id).Disjoint (committed.map Message.id)) :
    (old ++ new).filter (fun m => decide (m.id ∉ committed.map Message.id)) = new := by
  rw [List.filter_append]
  have hnone : old.filter (fun m => decide (m.id ∉ committed.map Message.id)) = [] := by
    apply List.filter_eq_nil_iff.mpr
    intro m hm
    simpa using hold m hm
  have hall : new.filter (fun m => decide (m.id ∉ committed.map Message.id)) = new := by
    apply List.filter_eq_self.mpr
    intro m hm
    simpa using hnew (List.mem_map_of_mem hm)
  rw [hnone, hall, List.nil_append]

/-- A boundary keeps the agreement. -/
theorem Agrees.boundary {contents : Contents} {thread : CompactedThread} {head : List Message}
    {upTo : Nat} (h : Agrees thread head upTo) {events : List CompactionEvent}
    {new : List Message} {params : CheckpointPersist} {env : Nat → Attempt}
    (hfresh : FreshFor thread.messages thread.log.committed new)
    (hraw : NoSummaries contents new)
    (hgenerated : ∀ event ∈ events, ∀ generated ∈ event.generated?,
      some generated ∉ thread.log.committed.map Message.id ∧
        some generated ∉ new.map Message.id)
    (hmessages : params.messages = (atBoundary contents thread events new).1)
    (hcompaction : params.compaction = some (atBoundary contents thread events new).2)
    (halone : ∀ n, (env n).others = [])
    (hok : (persistCheckpoint contents params env thread.log).1 = .ok ()) :
    ∃ head' upTo', Agrees ⟨(atBoundary contents thread events new).1,
      (persistCheckpoint contents params env thread.log).2,
      (atBoundary contents thread events new).2⟩ head' upTo' := by
  have hlog := persistCheckpoint_alone halone hok
  rw [hmessages, hcompaction] at hlog
  generalize (persistCheckpoint contents params env thread.log).2 = log' at hlog ⊢
  obtain ⟨committed', run'⟩ := log'
  dsimp only at hlog
  subst hlog
  unfold atBoundary
  dsimp only
  have hends := foldl_tryConsume_cases contents events (thread.messages, thread.compaction)
  generalize events.foldl (tryConsumeCompactionEvent contents)
    (thread.messages, thread.compaction) = live at hends ⊢
  obtain ⟨messages', compaction'⟩ := live
  dsimp only at hends ⊢
  cases hends with
  | inr hkeep =>
    obtain ⟨rfl, hflight⟩ := hkeep
    use head, upTo
    have hids : ∀ m ∈ thread.messages ++ new, m.id.isSome = true := by
      intro m hm
      cases List.mem_append.mp hm with
      | inl hold => exact h.liveIds hold
      | inr hlast => exact hfresh.ids m hlast
    have hdelta := @delta_folded _ thread.log.committed (params.cached.or thread.log.run)
      params.runIdentity.threadId params.runIdentity.runId params.lifecycle.stepCount
      params.inputMessageCount hids
    rw [filter_open (fun m hm => h.committed hm) hfresh.log] at hdelta
    rw [stamp_noSummaries (hraw.of_folded hdelta)]
    exact h.push hraw hfresh hdelta hflight
  | inl hswap =>
    obtain ⟨event, hevent, generated, hgen, boundary, hswapped⟩ := hswap
    obtain ⟨f, hf, rfl⟩ := hswapped.inFlight
    obtain ⟨summary, index, hindex, rfl⟩ := hswapped.messages
    obtain ⟨b, hlast, hboundary⟩ := hswapped.recorded
    obtain ⟨hfreshId, hnotNew⟩ := hgenerated event hevent generated hgen
    obtain ⟨position, hposition, hagrees⟩ :=
      @Agrees.swap thread head upTo contents compaction' run' h generated f.boundaryMessageId
        summary index (h.ahead f hf) hindex hfreshId
    have hids : ∀ m ∈ summaryMessage contents generated summary ::
        thread.messages.drop (index + 1) ++ new, m.id.isSome = true := by
      intro m hm
      cases List.mem_append.mp hm with
      | inl hold =>
        cases List.mem_cons.mp hold with
        | inl hfirst =>
          rw [hfirst]
          rfl
        | inr hrest => exact h.liveIds (List.mem_of_mem_drop hrest)
      | inr hlast => exact hfresh.ids m hlast
    have hdelta := @delta_folded _ thread.log.committed (params.cached.or thread.log.run)
      params.runIdentity.threadId params.runIdentity.runId params.lifecycle.stepCount
      params.inputMessageCount hids
    have hopen : decide ((summaryMessage contents generated summary).id ∉
        thread.log.committed.map Message.id) = true := decide_eq_true hfreshId
    rw [List.cons_append, List.filter_cons_of_pos (p := fun m : Message => decide (m.id ∉
        thread.log.committed.map Message.id)) hopen, filter_open (fun m hm => h.committed (List.mem_of_mem_drop hm)) hfresh.log,
      List.map_cons] at hdelta
    obtain ⟨s, rest, hsplit, hs, hrest⟩ := List.map_eq_cons_iff.mp hdelta
    have hsbody : s.body = (summaryMessage contents generated summary).body :=
      congrArg Prod.fst hs
    have hsmark : s.compactionMark = none := congrArg Prod.snd hs
    have hssummary : isCompactionSummary contents s = true := by
      rw [← isCompactionSummary_body, hsbody, isCompactionSummary_body,
        isCompactionSummary_summaryMessage]
    obtain ⟨s', hs'body, hs'mark, hstamp⟩ := stamp_summary hssummary hsmark
      (hraw.of_folded hrest) hlast hboundary hswapped.nonempty hposition
    use [s'], position + 1
    rw [List.cons_append, hsplit, hstamp]
    have hswappedLog := hagrees s' (hs'body.trans hsbody) hs'mark
      hswapped.settled
    have hs'id : s'.id = some generated := by
      rw [← Message.body_id, hs'body, hsbody]
      rfl
    have hfresh' : FreshFor (summaryMessage contents generated summary ::
        thread.messages.drop (index + 1)) (thread.log.committed ++ [s']) new := by
      constructor
      · exact hfresh.ids
      · exact hfresh.nodup
      · intro id hid hmem
        rw [List.map_cons] at hmem
        cases List.mem_cons.mp hmem with
        | inl hfirst =>
          rw [hfirst] at hid
          exact hnotNew hid
        | inr hold =>
          exact hfresh.items hid (((List.drop_sublist _ _).map Message.id).subset hold)
      · intro id hid hmem
        rw [List.map_append, List.mem_append, List.map_singleton, List.mem_singleton, hs'id]
          at hmem
        cases hmem with
        | inl hold => exact hfresh.log hid hold
        | inr hfirst =>
          rw [hfirst] at hid
          exact hnotNew hid
    have hpushed := @Agrees.push _ [s'] (position + 1) contents new rest compaction' run'
      hswappedLog hraw hfresh' hrest (.inl rfl)
    rw [List.append_assoc] at hpushed
    exact hpushed

/-- In every state of a run the log folds to the live list. -/
theorem ThreadReaches.agrees {contents : Contents} {start thread : CompactedThread}
    (hstart : start.Resumed) (h : ThreadReaches contents start thread) :
    ∃ head upTo, Agrees thread head upTo := by
  induction h with
  | start => exact hstart.agrees
  | spawn policy taskId now _ ih =>
    obtain ⟨head, upTo, hagrees⟩ := ih
    exact ⟨head, upTo, hagrees.spawn contents policy taskId now⟩
  | @spawnFailed thread taskId _ ih =>
    obtain ⟨head, upTo, hagrees⟩ := ih
    use head, upTo
    have hahead : ∀ f ∈ (clearInFlightAfterSpawnFailure thread.compaction taskId).inFlight,
        some f.boundaryMessageId ∉ head.map Message.id := by
      intro f hf
      unfold clearInFlightAfterSpawnFailure at hf
      split at hf
      next => exact hagrees.ahead f hf
      next =>
        split at hf
        next => exact hagrees.ahead f hf
        next => cases hf
    exact ⟨hagrees.ids, hagrees.nodup, hagrees.marks, hagrees.folds, hagrees.bounded,
      hagrees.live, hagrees.hidden, hahead⟩
  | boundary _ hfresh hraw hgenerated hmessages hcompaction halone hok ih =>
    obtain ⟨head, upTo, hagrees⟩ := ih
    exact hagrees.boundary hfresh hraw hgenerated hmessages hcompaction halone hok

/-- The ids of a view without markers are those before tool calls are paired. -/
theorem map_id_strip {view : List Message}
    (h : ∀ m ∈ view, m.role = .tool → m.visibility = .all) :
    (stripUnpairedToolCallsFromView view).map Message.id = view.map Message.id := by
  have hretracted : toolCallIdsAt .internal view = [] := by
    unfold toolCallIdsAt
    rw [List.filterMap_eq_nil_iff]
    intro m hm
    rw [if_neg]
    intro hmarker
    have hall := h m hm hmarker.1
    rw [hmarker.2] at hall
    cases hall
  unfold stripUnpairedToolCallsFromView
  dsimp only
  rw [hretracted, List.filter_map, List.map_map]
  have hkept : view.filter (keepsInView [] ∘ retainAnswered (toolCallIdsAt .all view) []) =
      view := by
    apply List.filter_eq_self.mpr
    intro m hm
    show keepsInView [] (retainAnswered (toolCallIdsAt .all view) [] m) = true
    unfold keepsInView
    rw [retainAnswered_role, retainAnswered_toolCallId, retainAnswered_visibility]
    by_cases hrole : m.role = .tool
    · rw [if_neg (by simp [hrole]), h m hm hrole]
      cases m.toolCallId <;> rfl
    · rw [if_pos hrole]
  rw [hkept]
  apply List.map_congr_left
  intro m _
  exact retainAnswered_id ..

/-- Durable folding agrees with the live list: after any run the effective view of the log has
    the ids of the live list, in order, and so has the view a run resumes from when the log has
    no retracted tool results. -/
theorem effective_view_eq_live (contents : Contents) {start thread : CompactedThread}
    (hstart : start.Resumed) (h : ThreadReaches contents start thread) (threadId : String)
    (generated : Nat → Uuid) :
    (effectiveMessages (committedRecords threadId thread.log.committed generated)).map
        Message.id = thread.messages.map Message.id ∧
      ((∀ m ∈ thread.log.committed, m.role = .tool → m.visibility ≠ .internal) →
        (effectiveCommittedView thread.log.committed threadId generated).map Message.id =
          thread.messages.map Message.id) := by
  obtain ⟨head, upTo, hagrees⟩ := h.agrees hstart
  have hview := @effectiveMessages_foldsTo _ _ _ threadId generated hagrees.ids hagrees.marks
    hagrees.folds
  have hsame : (effectiveMessages (committedRecords threadId thread.log.committed generated)).map
      Message.id = thread.messages.map Message.id := by
    rw [hview, hagrees.live]
  constructor
  · exact hsame
  · intro hmarkers
    unfold effectiveCommittedView
    rw [map_id_strip, hsame]
    intro m hm hrole
    have hcommitted : m ∈ thread.log.committed := by
      rw [hview, List.mem_append] at hm
      cases hm with
      | inl hhead => exact (hagrees.folds.mem_head m hhead).1
      | inr hraw =>
        obtain ⟨index, -, hindex, -⟩ := mem_rawAfter.mp hraw
        exact List.mem_of_getElem? hindex
    have hvisible := hmarkers m hcommitted hrole
    cases hvisibility : m.visibility with
    | all => rfl
    | internal => exact absurd hvisibility hvisible

/-- Three committed messages, with a pass in flight that ends at the second. -/
def compactingThread : CompactedThread where
  messages := [.user "one" "u-1", .assistant "first" "a-1", .user "two" "u-2"]
  log := ⟨[.user "one" "u-1", .assistant "first" "a-1", .user "two" "u-2"], none⟩
  compaction := { CompactionState.default with inFlight := some ⟨"task-1", "a-1", 0⟩ }

/-- The pass lands. -/
def landed : CompactionEvent := .completed (some "task-1") "a-1" "so far" 0 "s-1" 0

/-- The checkpoint behind it. -/
def landedCheckpoint : CheckpointPersist :=
  { checkpointOf (atBoundary .plain compactingThread [landed] []).1 3 with
    compaction := some (atBoundary .plain compactingThread [landed] []).2 }

theorem compactingThread_resumed : compactingThread.Resumed := by
  have hnone : ∀ m ∈ compactingThread.log.committed, m.compactionMark = none := by decide
  constructor
  case ids => decide
  case nodup => decide
  case marks =>
    intro index m hm mark hmark
    rw [hnone m (List.mem_of_getElem? hm)] at hmark
    cases hmark
  case messages => exact ⟨"t", fun _ => .generated, by decide⟩
  case ahead =>
    intro f _ m hm hsome
    rw [hnone m hm] at hsome
    cases hsome

/-- The log of four messages folds to the summary and the last message. -/
theorem effective_view_eq_live_landed :
    (effectiveMessages (committedRecords "t" (persistCheckpoint .plain landedCheckpoint
      (fun _ => ⟨none, [], none⟩) compactingThread.log).2.committed fun _ => .generated)).map
        Message.id = [some "s-1", some "u-2"] := by
  have hreaches : ThreadReaches .plain compactingThread
      ⟨(atBoundary .plain compactingThread [landed] []).1,
        (persistCheckpoint .plain landedCheckpoint (fun _ => ⟨none, [], none⟩)
          compactingThread.log).2, (atBoundary .plain compactingThread [landed] []).2⟩ := by
    apply ThreadReaches.boundary .start
    · constructor
      · simp
      · exact List.nodup_nil
      · exact List.disjoint_nil_left _
      · exact List.disjoint_nil_left _
    · intro m hm
      cases hm
    · decide
    · rfl
    · rfl
    · intro n
      rfl
    · decide +kernel
  exact (effective_view_eq_live .plain compactingThread_resumed hreaches "t" _).1

end Remo
