import Remo.Spec.Loop.CheckpointLog

/-!
# Run output under compaction

The loop recognises its output by the position in the live list, counted from the length of
the input. A compaction swap shortens the list in front of that output.

Key results:
* `Layout.push`, `Layout.swap` where the pushed messages stand in the live list
* `recordsAt_iff`        a checkpoint records output exactly when it stands behind the input
* `responds_iff`         the same for the response of the run
* `compactedOutput_law`  when the output of a run is recorded and its response found
-/

namespace Remo

/-- What stays the same during a run. -/
structure RunConfig where
  contents : Contents
  runId : String
  inputMessageCount : Nat
  cached : Option RunRecord

/-- The live list and the durable state of a run, with the messages the loop pushed so far
    and the number of places by which swaps shortened the list. -/
structure CompactedRun where
  messages : List Message
  log : ThreadLog
  pushed : List Message
  shrunk : Nat

inductive LoopEvent where
  | push (message : Message)
  | swap (boundaryMessageId summaryText generated : String)
  | persist (params : CheckpointPersist) (env : Nat → Attempt)

namespace CompactedRun

variable (cfg : RunConfig)

/-- The parameters of a checkpoint in this state. -/
def params (state : CompactedRun) (params : CheckpointPersist) : CheckpointPersist :=
  { params with
    messages := state.messages
    inputMessageCount := cfg.inputMessageCount
    runIdentity := { params.runIdentity with runId := cfg.runId }
    cached := cfg.cached }

/-- A checkpoint in this state. -/
def persist (state : CompactedRun) (params : CheckpointPersist) (env : Nat → Attempt) :
    Except String Unit × ThreadLog :=
  persistCheckpoint cfg.contents (state.params cfg params) env state.log

def step (state : CompactedRun) : LoopEvent → CompactedRun
  | .push message =>
    { state with
      messages := state.messages ++ [message]
      pushed := state.pushed ++ [message] }
  | .swap boundaryMessageId summaryText generated =>
    match applySummary cfg.contents state.messages boundaryMessageId summaryText generated with
    | none => state
    | some (messages, applied) =>
      { state with
        messages := messages
        shrunk := state.shrunk + applied.boundaryIndex }
  | .persist params env => { state with log := (state.persist cfg params env).2 }

/-- The ids in use. -/
def knownIds (state : CompactedRun) : List (Option String) :=
  state.messages.map Message.id ++ state.pushed.map Message.id ++
    state.log.committed.map Message.id ++
      (outputIds (cfg.cached.bind RunRecord.output) ++
        outputIds (state.log.run.bind RunRecord.output)).map some

/-- Pushed messages and summaries have new ids and the loop names no producer; other writers
    append new messages. -/
def Admissible (state : CompactedRun) : LoopEvent → Prop
  | .push message => message.id.isSome = true ∧ message.id ∉ state.knownIds cfg ∧
      message.producedByRunId = none
  | .swap _ _ generated => some generated ∉ state.knownIds cfg
  | .persist _ env => FreshFor (state.messages ++ state.pushed) state.log.committed
      ((List.range maxAppendAttempts).flatMap fun n => (env n).others)

/-- Every event is admissible where it happens. -/
def AdmissibleRun : CompactedRun → List LoopEvent → Prop
  | _, [] => True
  | state, event :: events =>
    state.Admissible cfg event ∧ AdmissibleRun (state.step cfg event) events

/-- The message is output of the run in the durable state: its id is recorded, and it names
    the run as its producer. -/
def RecordedIn (runId : String) (log : ThreadLog) (message : Message) : Prop :=
  (∃ id ∈ message.id, id ∈ outputIds (log.run.bind RunRecord.output)) ∧
    ∃ committed ∈ log.committed, committed.body = message.body ∧
      committed.producedByRunId = some runId

/-- A checkpoint that is written records the output pushed since the last one. -/
def RecordsAt (state : CompactedRun) (params : CheckpointPersist) (env : Nat → Attempt) : Prop :=
  (state.persist cfg params env).1 = .ok () →
    ∀ message ∈ state.pushed, message.isRunOutputMessage = true →
      message.id ∉ state.log.committed.map Message.id →
      RecordedIn cfg.runId (state.persist cfg params env).2 message

/-- The last assistant message that was pushed, at its index. -/
def LastAssistant (pushed : List Message) (k : Nat) (message : Message) : Prop :=
  pushed[k]? = some message ∧ message.role = .assistant ∧
    ∀ later ∈ pushed.drop (k + 1), later.role ≠ .assistant

/-- The response of the run is the text of its last assistant message. -/
def Responds (state : CompactedRun) : Prop :=
  ∀ k message, LastAssistant state.pushed k message →
    latestRunResponse cfg.contents state.messages cfg.inputMessageCount =
      message.text cfg.contents

/-- All checkpoints of a run record its output, and its response is found at its end. -/
def KeepsOutput : CompactedRun → List LoopEvent → Prop
  | state, [] => state.Responds cfg
  | state, .push message :: events => KeepsOutput (state.step cfg (.push message)) events
  | state, .swap boundary summary generated :: events =>
    KeepsOutput (state.step cfg (.swap boundary summary generated)) events
  | state, .persist params env :: events =>
    state.RecordsAt cfg params env ∧ KeepsOutput (state.step cfg (.persist params env)) events

/-! ## The condition -/

/-- The message pushed as the `k`-th is still in the list, and the swaps so far shortened the
    list by no more places than messages were pushed before it. -/
def InPlace (state : CompactedRun) (k : Nat) (message : Message) : Prop :=
  message ∈ state.messages ∧ state.shrunk ≤ k

/-- At a checkpoint that is written, the output pushed since the last one is in place. -/
def InPlaceAt (state : CompactedRun) (params : CheckpointPersist) (env : Nat → Attempt) : Prop :=
  (state.persist cfg params env).1 = .ok () →
    ∀ k message, state.pushed[k]? = some message → message.isRunOutputMessage = true →
      message.id ∉ state.log.committed.map Message.id → state.InPlace k message

/-- At the end the last assistant message is in place, or it is empty. -/
def InPlaceAtEnd (state : CompactedRun) : Prop :=
  ∀ k message, LastAssistant state.pushed k message →
    state.InPlace k message ∨ message.text cfg.contents = ""

/-- Output is in place at all checkpoints of a run and at its end. -/
def KeepsPlace : CompactedRun → List LoopEvent → Prop
  | state, [] => state.InPlaceAtEnd cfg
  | state, .push message :: events => KeepsPlace (state.step cfg (.push message)) events
  | state, .swap boundary summary generated :: events =>
    KeepsPlace (state.step cfg (.swap boundary summary generated)) events
  | state, .persist params env :: events =>
    state.InPlaceAt cfg params env ∧ KeepsPlace (state.step cfg (.persist params env)) events

/-! ## Where pushed messages stand -/

/-- The live list is what is left of the input, or a summary, and a rear part of the pushed
    messages. -/
structure Layout (state : CompactedRun) (head : List Message) (gone : Nat) : Prop where
  messages : state.messages = head ++ state.pushed.drop gone
  gone_le : gone ≤ state.pushed.length
  count : head.length + state.shrunk = cfg.inputMessageCount + gone
  summary : 0 < gone → ∃ summary, head = [summary] ∧ summary.role = .system
  apart : (head.map Message.id).Disjoint (state.pushed.map Message.id)
  ids : ∀ m ∈ state.messages, m.id.isSome = true
  nodup : (state.messages.map Message.id).Nodup

/-- What holds in every state of a run. -/
structure Valid (state : CompactedRun) : Prop where
  layout : ∃ head gone, state.Layout cfg head gone
  pushedIds : ∀ m ∈ state.pushed, m.id.isSome = true
  pushedNodup : (state.pushed.map Message.id).Nodup
  producer : ∀ m ∈ state.pushed, m.producedByRunId = none
  distinct : DistinctIds state.log.committed
  unrecorded : ∀ m ∈ state.pushed, m.id ∉ state.log.committed.map Message.id →
    ∀ id ∈ m.id, id ∉ outputIds (cfg.cached.bind RunRecord.output) ∧
      id ∉ outputIds (state.log.run.bind RunRecord.output)

variable {cfg} {state : CompactedRun} {head : List Message} {gone : Nat}

/-- A pushed message that is not gone stands at an index behind the input, exactly when the
    swaps have not shortened the list too far. -/
theorem Layout.getElem? (h : state.Layout cfg head gone) {k : Nat} {message : Message}
    (hk : state.pushed[k]? = some message) (hgone : gone ≤ k) :
    state.messages[head.length + (k - gone)]? = some message ∧
      (cfg.inputMessageCount ≤ head.length + (k - gone) ↔ state.shrunk ≤ k) := by
  have hcount := h.count
  constructor
  · rw [h.messages, List.getElem?_append_right (by omega), List.getElem?_drop]
    rw [show gone + (head.length + (k - gone) - head.length) = k by omega]
    exact hk
  · omega

/-- A pushed message is in the list exactly when it is not gone. -/
theorem Layout.mem_iff (h : state.Layout cfg head gone)
    (hnodup : (state.pushed.map Message.id).Nodup) {k : Nat} {message : Message}
    (hk : state.pushed[k]? = some message) : message ∈ state.messages ↔ gone ≤ k := by
  constructor
  · intro hmem
    rw [h.messages, List.mem_append] at hmem
    cases hmem with
    | inl hhead =>
      exact absurd (List.mem_map_of_mem (List.mem_of_getElem? hk))
        (h.apart (List.mem_map_of_mem hhead))
    | inr hdrop =>
      obtain ⟨j, hj⟩ := List.mem_iff_getElem?.mp hdrop
      rw [List.getElem?_drop] at hj
      -- distinct ids, so the message was pushed once
      have hpushed : state.pushed.Nodup := List.Nodup.of_map Message.id hnodup
      obtain ⟨hlt, hget⟩ := List.getElem?_eq_some_iff.mp hk
      obtain ⟨hlt', hget'⟩ := List.getElem?_eq_some_iff.mp hj
      have hsame := (hpushed.getElem_inj_iff).mp (hget.trans hget'.symm)
      omega
  · intro hgone
    exact List.mem_of_getElem? (h.getElem? hk hgone).1

/-! ## Steps -/

theorem applySummary_eq_some {contents : Contents} {messages messages' : List Message}
    {boundary summaryText generated : String} {applied : AppliedCompaction}
    (h : applySummary contents messages boundary summaryText generated =
      some (messages', applied)) :
    applied.boundaryIndex < messages.length ∧
      messages' = summaryMessage contents generated summaryText ::
        messages.drop (applied.boundaryIndex + 1) := by
  unfold applySummary at h
  obtain ⟨idx, hidx, h⟩ := Option.bind_eq_some_iff.mp h
  cases h
  constructor
  · exact (List.findIdx?_eq_some_iff_findIdx_eq.mp hidx).1
  · rfl

theorem mem_knownIds {x : Option String} : x ∈ state.knownIds cfg ↔
    x ∈ state.messages.map Message.id ∨ x ∈ state.pushed.map Message.id ∨
      x ∈ state.log.committed.map Message.id ∨
      (∃ id ∈ outputIds (cfg.cached.bind RunRecord.output), some id = x) ∨
      ∃ id ∈ outputIds (state.log.run.bind RunRecord.output), some id = x := by
  unfold knownIds
  simp only [List.mem_append, List.mem_map, List.map_append, or_assoc]

theorem Layout.push (h : state.Layout cfg head gone) {message : Message}
    (hid : message.id.isSome = true) (hnew : message.id ∉ state.knownIds cfg) :
    (state.step cfg (.push message)).Layout cfg head gone where
  messages := by
    show state.messages ++ [message] = head ++ (state.pushed ++ [message]).drop gone
    rw [List.drop_append_of_le_length h.gone_le, ← List.append_assoc, ← h.messages]
  gone_le := by
    have := h.gone_le
    show gone ≤ (state.pushed ++ [message]).length
    rw [List.length_append]
    omega
  count := h.count
  summary := h.summary
  apart := by
    show List.Disjoint _ ((state.pushed ++ [message]).map Message.id)
    rw [List.map_append]
    intro id hhead hmem
    cases List.mem_append.mp hmem with
    | inl hold => exact h.apart hhead hold
    | inr hlast =>
      obtain rfl := List.mem_singleton.mp hlast
      apply hnew
      apply mem_knownIds.mpr
      left
      rw [h.messages, List.map_append]
      exact List.mem_append_left _ hhead
  ids m hm := by
    cases List.mem_append.mp hm with
    | inl hold => exact h.ids m hold
    | inr hlast =>
      obtain rfl := List.mem_singleton.mp hlast
      exact hid
  nodup := by
    show ((state.messages ++ [message]).map Message.id).Nodup
    rw [List.map_append]
    apply List.nodup_append'.mpr
    constructor
    · exact h.nodup
    · constructor
      · exact List.nodup_singleton _
      · intro id hold hlast
        obtain rfl := List.mem_singleton.mp hlast
        exact hnew (mem_knownIds.mpr (.inl hold))

theorem Layout.swap (h : state.Layout cfg head gone) {boundary summaryText generated : String}
    (hnew : some generated ∉ state.knownIds cfg) :
    ∃ head' gone', (state.step cfg (.swap boundary summaryText generated)).Layout cfg head'
      gone' := by
  cases happly : applySummary cfg.contents state.messages boundary summaryText generated with
  | none =>
    use head, gone
    have hsame : state.step cfg (.swap boundary summaryText generated) = state := by
      unfold step
      dsimp only
      rw [happly]
    rw [hsame]
    exact h
  | some result =>
    obtain ⟨messages, applied⟩ := result
    obtain ⟨hlt, rfl⟩ := applySummary_eq_some happly
    have hstep : state.step cfg (.swap boundary summaryText generated) =
        { state with
          messages := summaryMessage cfg.contents generated summaryText ::
            state.messages.drop (applied.boundaryIndex + 1)
          shrunk := state.shrunk + applied.boundaryIndex } := by
      unfold step
      dsimp only
      rw [happly]
    rw [hstep]
    generalize applied.boundaryIndex = idx at *
    have hcount := h.count
    have hgone := h.gone_le
    have hlength : state.messages.length = head.length + (state.pushed.length - gone) := by
      rw [h.messages, List.length_append, List.length_drop]
    have hsummary : (summaryMessage cfg.contents generated summaryText).id ∉
        state.knownIds cfg := hnew
    have hrest : state.messages.drop (idx + 1) = head.drop (idx + 1) ++
        state.pushed.drop (gone + (idx + 1 - head.length)) := by
      rw [h.messages, List.drop_append, List.drop_drop]
    have hids : ∀ m ∈ summaryMessage cfg.contents generated summaryText ::
        state.messages.drop (idx + 1), m.id.isSome = true := by
      intro m hm
      cases List.mem_cons.mp hm with
      | inl hfirst => rw [hfirst]; rfl
      | inr hrest => exact h.ids m (List.mem_of_mem_drop hrest)
    have hnodup : ((summaryMessage cfg.contents generated summaryText ::
        state.messages.drop (idx + 1)).map Message.id).Nodup := by
      rw [List.map_cons, List.nodup_cons]
      constructor
      · intro hmem
        apply hsummary
        apply mem_knownIds.mpr
        left
        exact ((List.drop_sublist _ _).map Message.id).subset hmem
      · exact ((List.drop_sublist _ _).map Message.id).nodup h.nodup
    have hapart : ((summaryMessage cfg.contents generated summaryText ::
        head.drop (idx + 1)).map Message.id).Disjoint (state.pushed.map Message.id) := by
      intro id hmem hpushed
      rw [List.map_cons] at hmem
      cases List.mem_cons.mp hmem with
      | inl hfirst =>
        subst hfirst
        exact hsummary (mem_knownIds.mpr (.inr (.inl hpushed)))
      | inr hrest => exact h.apart (((List.drop_sublist _ _).map Message.id).subset hrest) hpushed
    refine ⟨summaryMessage cfg.contents generated summaryText :: head.drop (idx + 1),
      gone + (idx + 1 - head.length), ?_, ?_, ?_, ?_, hapart, hids, hnodup⟩
    · show _ :: _ = _
      rw [hrest]
      rfl
    · show gone + (idx + 1 - head.length) ≤ state.pushed.length
      omega
    · show _ + (state.shrunk + idx) = _
      rw [List.length_cons, List.length_drop]
      omega
    · intro hpos
      use summaryMessage cfg.contents generated summaryText
      constructor
      · have hempty : head.drop (idx + 1) = [] := by
          apply List.drop_eq_nil_of_le
          by_cases hzero : 0 < gone
          · obtain ⟨summary, hhead, -⟩ := h.summary hzero
            rw [hhead, List.length_singleton]
            omega
          · omega
        rw [hempty]
      · rfl

/-! ## Checkpoints -/

/-- What the append loop makes of this state on a log. -/
def materialized (cfg : RunConfig) (state : CompactedRun) (params : CheckpointPersist)
    (committed : List Message) : List Message × Option RunMessageOutput :=
  materializeCheckpointAppend state.messages committed (cfg.cached.or state.log.run)
    params.runIdentity.threadId cfg.runId params.lifecycle.stepCount cfg.inputMessageCount

/-- How a checkpoint ends. -/
theorem persist_cases (cfg : RunConfig) (state : CompactedRun) (params : CheckpointPersist)
    (env : Nat → Attempt) :
    ∃ added, added <+: ((List.range maxAppendAttempts).flatMap fun n => (env n).others) ∧
      ((∃ mark : Message → Message,
          (∀ m, (mark m).body = m.body ∧ (mark m).producedByRunId = m.producedByRunId) ∧
          (state.persist cfg params env).1 = .ok () ∧
          (state.persist cfg params env).2.committed = state.log.committed ++ added ++
            (state.materialized cfg params (state.log.committed ++ added)).1.map mark ∧
          (state.persist cfg params env).2.run.bind RunRecord.output =
            (state.materialized cfg params (state.log.committed ++ added)).2) ∨
        ((state.persist cfg params env).1 ≠ .ok () ∧
          (state.persist cfg params env).2 =
            { state.log with committed := state.log.committed ++ added })) := by
  obtain ⟨added, hadded, hend⟩ := commitCheckpointAppending_cases
    (plan_version cfg.contents (state.params cfg params) (cfg.cached.or state.log.run))
    ((List.range maxAppendAttempts).map env) state.log
  rw [List.flatMap_map] at hadded
  have hpersist : state.persist cfg params env =
      ((commitCheckpointAppending ((state.params cfg params).plan cfg.contents
        (cfg.cached.or state.log.run)) ((List.range maxAppendAttempts).map env)
        state.log).1.mapError (mapCommitAppendError params.runIdentity.threadId),
      (commitCheckpointAppending ((state.params cfg params).plan cfg.contents
        (cfg.cached.or state.log.run)) ((List.range maxAppendAttempts).map env)
        state.log).2) := rfl
  use added
  constructor
  · exact hadded
  · cases hend with
    | inl hok =>
      obtain ⟨plan, rfl, hresult, -⟩ := hok
      left
      obtain ⟨mark, hmark, hsame⟩ := stampCompactionMarks_eq_map cfg.contents
        (state.materialized cfg params (state.log.committed ++ added)).1
        (state.log.committed ++ added) params.compaction
      use mark
      constructor
      · exact hsame
      · rw [hpersist, hresult]
        refine ⟨rfl, ?_, rfl⟩
        show _ ++ stampCompactionMarks _ _ _ _ = _
        rw [← hmark]
        rfl
    | inr herror =>
      obtain ⟨e, hresult⟩ := herror
      right
      rw [hpersist, hresult]
      constructor
      · intro hok
        cases hok
      · rfl

/-- Other writers do not append what the loop pushed. -/
theorem not_mem_added {added new : List Message} {message : Message}
    (hfresh : FreshFor (state.messages ++ state.pushed) state.log.committed new)
    (hadded : added <+: new) (hmem : message ∈ state.pushed)
    (hopen : message.id ∉ state.log.committed.map Message.id) :
    message.id ∉ (state.log.committed ++ added).map Message.id := by
  rw [List.map_append, List.mem_append]
  intro hor
  cases hor with
  | inl hold => exact hopen hold
  | inr hnew =>
    apply (hfresh.of_prefix hadded).items hnew
    rw [List.map_append]
    exact List.mem_append_right _ (List.mem_map_of_mem hmem)

/-- The ids of the delta are those that the log lacks. -/
theorem delta_ids (h : state.Layout cfg head gone) {mark : Message → Message}
    (hsame : ∀ m, (mark m).body = m.body ∧ (mark m).producedByRunId = m.producedByRunId)
    (params : CheckpointPersist) (committed : List Message) :
    ((state.materialized cfg params committed).1.map mark).map Message.id =
      (missing Message.id (committed.map Message.body) (state.messages.map Message.body)).map
        Message.id := by
  have hdelta : (state.materialized cfg params committed).1.map Message.body =
      missing Message.id (committed.map Message.body) (state.messages.map Message.body) :=
    materialize_delta h.ids
  rw [← hdelta, map_id_map_body, List.map_map]
  apply List.map_congr_left
  intro m _
  show (mark m).id = m.id
  rw [← Message.body_id (mark m), (hsame m).1, Message.body_id]

/-- Distinct ids stay distinct under a checkpoint. -/
theorem distinct_persist (h : state.Valid cfg) {params : CheckpointPersist} {env : Nat → Attempt}
    (hfresh : state.Admissible cfg (.persist params env)) :
    DistinctIds (state.persist cfg params env).2.committed := by
  obtain ⟨head, gone, hlayout⟩ := h.layout
  obtain ⟨added, hadded, hend⟩ := persist_cases cfg state params env
  have hfirst := hfresh.of_prefix hadded
  have hgrown := h.distinct.concat hfirst.nodup hfirst.log
  cases hend with
  | inl hok =>
    obtain ⟨mark, hsame, -, hcommitted, -⟩ := hok
    have hids := delta_ids hlayout hsame params (state.log.committed ++ added)
    rw [hcommitted]
    apply hgrown.concat
    · rw [hids]
      exact (List.filter_sublist.map Message.id).nodup (by
        rw [map_id_map_body]
        exact hlayout.nodup)
    · rw [hids]
      intro id hid hlog
      obtain ⟨m, hm, rfl⟩ := List.mem_map.mp hid
      apply (mem_missing.mp hm).2
      rw [map_id_map_body]
      exact hlog
  | inr herror =>
    rw [herror.2]
    exact hgrown

/-- What a checkpoint leaves open was not recorded either. -/
theorem unrecorded_persist (h : state.Valid cfg) (params : CheckpointPersist)
    (env : Nat → Attempt) {message : Message} {id : String} (hmem : message ∈ state.pushed)
    (hid : message.id = some id)
    (hopen : message.id ∉ (state.persist cfg params env).2.committed.map Message.id) :
    id ∉ outputIds (cfg.cached.bind RunRecord.output) ∧
      id ∉ outputIds ((state.persist cfg params env).2.run.bind RunRecord.output) := by
  obtain ⟨head, gone, hlayout⟩ := h.layout
  obtain ⟨added, -, hend⟩ := persist_cases cfg state params env
  cases hend with
  | inl hok =>
    obtain ⟨mark, hsame, -, hcommitted, houtput⟩ := hok
    rw [hcommitted, List.map_append, List.mem_append, not_or] at hopen
    rw [houtput]
    have hbefore : message.id ∉ state.log.committed.map Message.id := by
      rw [List.map_append, List.mem_append, not_or] at hopen
      exact hopen.1.1
    obtain ⟨hcached, hrun⟩ := h.unrecorded message hmem hbefore id hid
    constructor
    · exact hcached
    · intro hrecorded
      cases mem_materialize_output hrecorded with
      | inl hprevious =>
        cases hc : cfg.cached with
        | none =>
          rw [hc] at hprevious
          exact hrun hprevious
        | some record =>
          rw [hc] at hprevious hcached
          exact hcached hprevious
      | inr hlisted =>
        -- a message of the list that the log lacks would be in the delta
        obtain ⟨m, index, hindex, hmid, -⟩ := hlisted
        apply hopen.2
        rw [delta_ids hlayout hsame, hid, ← hmid]
        have hbody : m.body ∈ state.messages.map Message.body :=
          List.mem_map_of_mem (List.mem_of_getElem? hindex)
        have hmissing : m.body ∈ missing Message.id
            ((state.log.committed ++ added).map Message.body)
              (state.messages.map Message.body) := by
          apply mem_missing.mpr
          constructor
          · exact hbody
          · rw [map_id_map_body, Message.body_id, hmid, ← hid]
            exact hopen.1
        exact (List.mem_map_of_mem hmissing : m.body.id ∈ _)
  | inr herror =>
    rw [herror.2] at hopen ⊢
    apply h.unrecorded message hmem _ id hid
    intro hold
    apply hopen
    rw [List.map_append]
    exact List.mem_append_left _ hold

theorem Valid.push (h : state.Valid cfg) {message : Message}
    (hok : state.Admissible cfg (.push message)) : (state.step cfg (.push message)).Valid cfg where
  layout := by
    obtain ⟨head, gone, hlayout⟩ := h.layout
    exact ⟨head, gone, hlayout.push hok.1 hok.2.1⟩
  pushedIds m hm := by
    cases List.mem_append.mp hm with
    | inl hold => exact h.pushedIds m hold
    | inr hlast =>
      obtain rfl := List.mem_singleton.mp hlast
      exact hok.1
  pushedNodup := by
    show ((state.pushed ++ [message]).map Message.id).Nodup
    rw [List.map_append]
    apply List.nodup_append'.mpr
    constructor
    · exact h.pushedNodup
    · constructor
      · exact List.nodup_singleton _
      · intro id hold hlast
        obtain rfl := List.mem_singleton.mp hlast
        exact hok.2.1 (mem_knownIds.mpr (.inr (.inl hold)))
  producer m hm := by
    cases List.mem_append.mp hm with
    | inl hold => exact h.producer m hold
    | inr hlast =>
      obtain rfl := List.mem_singleton.mp hlast
      exact hok.2.2
  distinct := h.distinct
  unrecorded m hm hopen id hid := by
    cases List.mem_append.mp hm with
    | inl hold => exact h.unrecorded m hold hopen id hid
    | inr hlast =>
      obtain rfl := List.mem_singleton.mp hlast
      have hnew := hok.2.1
      rw [mem_knownIds, Option.mem_def.mp hid] at hnew
      constructor
      · intro hcached
        exact hnew (.inr (.inr (.inr (.inl ⟨id, hcached, rfl⟩))))
      · intro hrun
        exact hnew (.inr (.inr (.inr (.inr ⟨id, hrun, rfl⟩))))

/-- A swap concerns the live list only. -/
theorem step_swap (cfg : RunConfig) (state : CompactedRun)
    (boundary summaryText generated : String) :
    (state.step cfg (.swap boundary summaryText generated)).pushed = state.pushed ∧
      (state.step cfg (.swap boundary summaryText generated)).log = state.log := by
  unfold step
  dsimp only
  cases applySummary cfg.contents state.messages boundary summaryText generated with
  | none => exact ⟨rfl, rfl⟩
  | some result => exact ⟨rfl, rfl⟩

theorem Valid.swap (h : state.Valid cfg) {boundary summaryText generated : String}
    (hok : state.Admissible cfg (.swap boundary summaryText generated)) :
    (state.step cfg (.swap boundary summaryText generated)).Valid cfg := by
  obtain ⟨hpushed, hlog⟩ := step_swap cfg state boundary summaryText generated
  obtain ⟨head, gone, hlayout⟩ := h.layout
  constructor
  · exact hlayout.swap hok
  · rw [hpushed]
    exact h.pushedIds
  · rw [hpushed]
    exact h.pushedNodup
  · rw [hpushed]
    exact h.producer
  · rw [hlog]
    exact h.distinct
  · rw [hpushed, hlog]
    exact h.unrecorded

theorem Valid.persist (h : state.Valid cfg) {params : CheckpointPersist} {env : Nat → Attempt}
    (hok : state.Admissible cfg (.persist params env)) :
    (state.step cfg (.persist params env)).Valid cfg where
  layout := by
    obtain ⟨head, gone, hlayout⟩ := h.layout
    use head, gone
    exact ⟨hlayout.messages, hlayout.gone_le, hlayout.count, hlayout.summary, hlayout.apart,
      hlayout.ids, hlayout.nodup⟩
  pushedIds := h.pushedIds
  pushedNodup := h.pushedNodup
  producer := h.producer
  distinct := distinct_persist h hok
  unrecorded _ hm hopen _ hid := unrecorded_persist h params env hm hid hopen

theorem Valid.step (h : state.Valid cfg) {event : LoopEvent}
    (hok : state.Admissible cfg event) : (state.step cfg event).Valid cfg := by
  cases event with
  | push message => exact h.push hok
  | swap boundary summaryText generated => exact h.swap hok
  | persist params env => exact h.persist hok

/-! ## What a checkpoint records -/

/-- Output in place is recorded and marked. -/
theorem recordedIn_of_inPlace (h : state.Valid cfg) {params : CheckpointPersist}
    {env : Nat → Attempt} (hok : state.Admissible cfg (.persist params env))
    (hwritten : (state.persist cfg params env).1 = .ok ()) {k : Nat} {message : Message}
    (hk : state.pushed[k]? = some message) (hrole : message.isRunOutputMessage = true)
    (hopen : message.id ∉ state.log.committed.map Message.id)
    (hplace : state.InPlace k message) :
    RecordedIn cfg.runId (state.persist cfg params env).2 message := by
  obtain ⟨head, gone, hlayout⟩ := h.layout
  have hmem := List.mem_of_getElem? hk
  have hgone := (hlayout.mem_iff h.pushedNodup hk).mp hplace.1
  obtain ⟨hindex, hbehind⟩ := hlayout.getElem? hk hgone
  obtain ⟨id, hid⟩ := Option.isSome_iff_exists.mp (h.pushedIds message hmem)
  obtain ⟨added, hadded, hend⟩ := persist_cases cfg state params env
  have hopen' := not_mem_added hok hadded hmem hopen
  cases hend with
  | inl hdone =>
    obtain ⟨mark, hsame, -, hcommitted, houtput⟩ := hdone
    constructor
    · use id
      constructor
      · exact hid
      · rw [houtput]
        have hseen : ∃ output, (state.materialized cfg params (state.log.committed ++ added)).2 =
            some output ∧ id ∈ output.messageIds :=
          materialize_recorded hindex hid hopen' (hbehind.mpr hplace.2) hrole
        obtain ⟨output, hsome, hrecorded⟩ := hseen
        rw [hsome]
        exact hrecorded
    · obtain ⟨appended, happended, hbody, hproducer⟩ := materialize_produced
        hindex hid hopen' (hbehind.mpr hplace.2) hrole (.inl (h.producer message hmem))
      use mark appended
      constructor
      · rw [hcommitted]
        exact List.mem_append_right _ (List.mem_map_of_mem happended)
      · rw [(hsame appended).1, (hsame appended).2]
        exact ⟨hbody, hproducer⟩
  | inr herror => exact absurd hwritten herror.1

/-- Output that is recorded is in place. -/
theorem inPlace_of_recordedIn (h : state.Valid cfg) {params : CheckpointPersist}
    {env : Nat → Attempt} (hok : state.Admissible cfg (.persist params env))
    (hwritten : (state.persist cfg params env).1 = .ok ()) {k : Nat} {message : Message}
    (hk : state.pushed[k]? = some message)
    (hopen : message.id ∉ state.log.committed.map Message.id)
    (hrecorded : RecordedIn cfg.runId (state.persist cfg params env).2 message) :
    state.InPlace k message := by
  obtain ⟨head, gone, hlayout⟩ := h.layout
  have hmem := List.mem_of_getElem? hk
  obtain ⟨⟨id, hid, hin⟩, -⟩ := hrecorded
  obtain ⟨added, hadded, hend⟩ := persist_cases cfg state params env
  have hopen' := not_mem_added hok hadded hmem hopen
  obtain ⟨hcached, hrun⟩ := h.unrecorded message hmem hopen id hid
  have hprevious : id ∉ outputIds ((cfg.cached.or state.log.run).bind RunRecord.output) := by
    cases hc : cfg.cached with
    | none => exact hrun
    | some record =>
      rw [hc] at hcached
      exact hcached
  cases hend with
  | inl hdone =>
    obtain ⟨mark, -, -, -, houtput⟩ := hdone
    rw [houtput] at hin
    cases mem_materialize_output hin with
    | inl hold => exact absurd hold hprevious
    | inr hlisted =>
      obtain ⟨m, index, hindex, hmid, hout⟩ := hlisted
      -- the ids of the list and of the pushed messages are distinct
      have hsame : m = message := by
        have hlist := List.mem_of_getElem? hindex
        rw [hlayout.messages, List.mem_append] at hlist
        cases hlist with
        | inl hhead =>
          apply absurd (List.mem_map_of_mem (f := Message.id) hmem)
          rw [Option.mem_def.mp hid, ← hmid]
          exact hlayout.apart (List.mem_map_of_mem hhead)
        | inr hdrop =>
          exact List.inj_on_of_nodup_map h.pushedNodup (List.mem_of_mem_drop hdrop) hmem
            (hmid.trans (Option.mem_def.mp hid).symm)
      subst hsame
      have hlive := List.mem_of_getElem? hindex
      have hgone := (hlayout.mem_iff h.pushedNodup hk).mp hlive
      obtain ⟨hplace, hbehind⟩ := hlayout.getElem? hk hgone
      constructor
      · exact hlive
      · apply hbehind.mp
        have hnodup : state.messages.Nodup := List.Nodup.of_map Message.id hlayout.nodup
        obtain ⟨hlt, hget⟩ := List.getElem?_eq_some_iff.mp hplace
        obtain ⟨hlt', hget'⟩ := List.getElem?_eq_some_iff.mp hindex
        have hindices := hnodup.getElem_inj_iff.mp (hget.trans hget'.symm)
        have hnone : (appendContext (state.log.committed ++ added) (cfg.cached.or state.log.run)
            cfg.runId params.lifecycle.stepCount cfg.inputMessageCount).committedEntry m = none :=
          (committedEntry_eq_none hid).mpr hopen'
        have hfirst : (appendContext (state.log.committed ++ added)
            (cfg.cached.or state.log.run) cfg.runId params.lifecycle.stepCount
              cfg.inputMessageCount).alreadyRecordedOutput m = false := by
          unfold AppendContext.alreadyRecordedOutput
          rw [hnone, h.producer m hmem, Option.mem_def.mp hid]
          simpa [appendContext, outputIds] using hprevious
        rw [hfirst, Bool.false_or] at hout
        simp only [AppendContext.newOutput, Bool.and_eq_true, decide_eq_true_eq] at hout
        rw [hindices]
        exact hout.1.2
  | inr herror => exact absurd hwritten herror.1

/-- A checkpoint records the output exactly when it is in place. -/
theorem recordsAt_iff (h : state.Valid cfg) {params : CheckpointPersist} {env : Nat → Attempt}
    (hok : state.Admissible cfg (.persist params env)) :
    state.RecordsAt cfg params env ↔ state.InPlaceAt cfg params env := by
  constructor
  · intro hrecords hwritten k message hk hrole hopen
    exact inPlace_of_recordedIn h hok hwritten hk hopen
      (hrecords hwritten message (List.mem_of_getElem? hk) hrole hopen)
  · intro hplace hwritten message hmem hrole hopen
    obtain ⟨k, hk⟩ := List.mem_iff_getElem?.mp hmem
    exact recordedIn_of_inPlace h hok hwritten hk hrole hopen
      (hplace hwritten k message hk hrole hopen)

/-! ## The response -/

theorem latestRunResponse_last {contents : Contents} {messages before after : List Message}
    {message : Message} {count : Nat} (hdrop : messages.drop count = before ++ message :: after)
    (hrole : message.role = .assistant) (hafter : ∀ m ∈ after, m.role ≠ .assistant) :
    latestRunResponse contents messages count = message.text contents := by
  unfold latestRunResponse
  have hnone : after.reverse.find? (fun m => m.role == .assistant) = none := by
    apply List.find?_eq_none.mpr
    intro m hm
    simpa using hafter m (List.mem_reverse.mp hm)
  rw [hdrop, List.reverse_append, List.reverse_cons, List.append_assoc, List.find?_append, hnone]
  simp [hrole]

theorem latestRunResponse_none {contents : Contents} {messages : List Message} {count : Nat}
    (hdrop : ∀ m ∈ messages.drop count, m.role ≠ .assistant) :
    latestRunResponse contents messages count = "" := by
  unfold latestRunResponse
  have hnone : (messages.drop count).reverse.find? (fun m => m.role == .assistant) = none := by
    apply List.find?_eq_none.mpr
    intro m hm
    simpa using hdrop m (List.mem_reverse.mp hm)
  rw [hnone]

/-- Behind the input stand a summary at most, and pushed messages that are in place. -/
theorem Layout.mem_drop (h : state.Layout cfg head gone) {m : Message}
    (hm : m ∈ state.messages.drop cfg.inputMessageCount) :
    m.role = .system ∨ m ∈ state.pushed.drop (max gone state.shrunk) := by
  have hcount := h.count
  rw [h.messages, List.drop_append, List.mem_append] at hm
  cases hm with
  | inl hhead =>
    left
    have hlt : cfg.inputMessageCount < head.length := by
      have hpos := List.length_pos_of_mem hhead
      rw [List.length_drop] at hpos
      omega
    obtain ⟨summary, hone, hsystem⟩ := h.summary (by omega)
    have hmem := List.mem_of_mem_drop hhead
    rw [hone] at hmem
    rw [List.mem_singleton.mp hmem]
    exact hsystem
  | inr hrear =>
    right
    rw [List.drop_drop] at hrear
    have hsame : gone + (cfg.inputMessageCount - head.length) = max gone state.shrunk := by omega
    rw [← hsame]
    exact hrear

/-- The response is found when the last assistant message is in place, otherwise it is empty. -/
theorem latestRunResponse_eq (h : state.Valid cfg) {k : Nat} {message : Message}
    (hlast : LastAssistant state.pushed k message) :
    (state.InPlace k message → latestRunResponse cfg.contents state.messages
      cfg.inputMessageCount = message.text cfg.contents) ∧
    (¬ state.InPlace k message → latestRunResponse cfg.contents state.messages
      cfg.inputMessageCount = "") := by
  obtain ⟨head, gone, hlayout⟩ := h.layout
  obtain ⟨hk, hrole, hlater⟩ := hlast
  have hmem := hlayout.mem_iff h.pushedNodup hk
  constructor
  · intro hplace
    have hgone := hmem.mp hplace.1
    obtain ⟨hindex, hbehind⟩ := hlayout.getElem? hk hgone
    have hcount := hbehind.mpr hplace.2
    obtain ⟨hlt, hget⟩ := List.getElem?_eq_some_iff.mp hk
    have hrear : state.pushed.drop k = message :: state.pushed.drop (k + 1) := by
      rw [List.drop_eq_getElem_cons hlt, hget]
    have hsplit : state.messages.drop cfg.inputMessageCount =
        (state.messages.drop cfg.inputMessageCount).take
            (head.length + (k - gone) - cfg.inputMessageCount) ++
          message :: state.pushed.drop (k + 1) := by
      rw [← hrear]
      conv_lhs => rw [← List.take_append_drop
        (head.length + (k - gone) - cfg.inputMessageCount)
        (state.messages.drop cfg.inputMessageCount)]
      rw [List.drop_drop, Nat.add_sub_cancel' hcount]
      have htail : state.messages.drop (head.length + (k - gone)) = state.pushed.drop k := by
        rw [hlayout.messages, List.drop_append, List.drop_eq_nil_of_le (by omega),
          List.nil_append, List.drop_drop]
        rw [show gone + (head.length + (k - gone) - head.length) = k by omega]
      rw [htail]
    exact latestRunResponse_last hsplit hrole hlater
  · intro hnot
    apply latestRunResponse_none
    intro m hm
    cases hlayout.mem_drop hm with
    | inl hsystem =>
      rw [hsystem]
      intro h
      cases h
    | inr hrear =>
      apply hlater
      have hle : k + 1 ≤ max gone state.shrunk := by
        by_contra hlt
        apply hnot
        constructor
        · exact hmem.mpr (by omega)
        · omega
      rw [show max gone state.shrunk = (k + 1) + (max gone state.shrunk - (k + 1)) by omega,
        ← List.drop_drop] at hrear
      exact List.mem_of_mem_drop hrear

theorem responds_iff (h : state.Valid cfg) : state.Responds cfg ↔ state.InPlaceAtEnd cfg := by
  constructor
  · intro hresponds k message hlast
    by_cases hplace : state.InPlace k message
    · exact .inl hplace
    · right
      rw [← hresponds k message hlast]
      exact (latestRunResponse_eq h hlast).2 hplace
  · intro hplace k message hlast
    by_cases hin : state.InPlace k message
    · exact (latestRunResponse_eq h hlast).1 hin
    · rw [(latestRunResponse_eq h hlast).2 hin]
      cases hplace k message hlast with
      | inl h => exact absurd h hin
      | inr hempty => exact hempty.symm

/-! ## Runs -/

/-- The state a run starts in. -/
def start (messages : List Message) (log : ThreadLog) : CompactedRun := ⟨messages, log, [], 0⟩

theorem valid_start {messages : List Message} {log : ThreadLog}
    (hcount : messages.length = cfg.inputMessageCount)
    (hids : ∀ m ∈ messages, m.id.isSome = true) (hnodup : (messages.map Message.id).Nodup)
    (hdistinct : DistinctIds log.committed) : (start messages log).Valid cfg where
  layout := by
    use messages, 0
    constructor
    · show messages = messages ++ []
      rw [List.append_nil]
    · exact Nat.le_refl 0
    · show messages.length + 0 = _ + 0
      rw [hcount]
    · intro h
      cases h
    · exact List.disjoint_nil_right _
    · exact hids
    · exact hnodup
  pushedIds _ h := by cases h
  pushedNodup := List.nodup_nil
  producer _ h := by cases h
  distinct := hdistinct
  unrecorded _ h := by cases h

theorem Valid.keepsOutput_iff (h : state.Valid cfg) {events : List LoopEvent}
    (hrun : AdmissibleRun cfg state events) :
    KeepsOutput cfg state events ↔ KeepsPlace cfg state events := by
  induction events generalizing state with
  | nil => exact responds_iff h
  | cons event events ih =>
    have hrest := ih (h.step hrun.1) hrun.2
    cases event with
    | push message => exact hrest
    | swap boundary summaryText generated => exact hrest
    | persist params env => exact and_congr (recordsAt_iff h hrun.1) hrest

end CompactedRun

open CompactedRun in
/-- A run records its output and finds its response exactly when, at every checkpoint, the
    output since the last one still stands in the live list and the swaps so far shortened the
    list by no more places than messages were pushed before that output, and when that holds of
    the last assistant message at the end or its text is empty. -/
theorem compactedOutput_law (cfg : RunConfig) {messages : List Message} {log : ThreadLog}
    {events : List LoopEvent} (hcount : messages.length = cfg.inputMessageCount)
    (hids : ∀ m ∈ messages, m.id.isSome = true) (hnodup : (messages.map Message.id).Nodup)
    (hdistinct : DistinctIds log.committed)
    (hrun : AdmissibleRun cfg (CompactedRun.start messages log) events) :
    KeepsOutput cfg (CompactedRun.start messages log) events ↔
      KeepsPlace cfg (CompactedRun.start messages log) events :=
  (valid_start hcount hids hnodup hdistinct).keepsOutput_iff hrun

/-- The input of the example runs: two turns, and the message that starts the third. -/
def thirdTurn : List Message :=
  [.user "one" "u-1", .assistant "first" "a-1", .user "two" "u-2", .assistant "second" "a-2",
    .user "three" "u-3"]

def thirdTurnConfig : RunConfig := ⟨.plain, "r-1", thirdTurn.length, none⟩

/-- No other writer comes first. -/
def uncontended (_ : Nat) : Attempt := ⟨none, [], none⟩

/-- A first step, a swap up to the boundary, and a second step. -/
def swapBetweenSteps (boundary : String) : List LoopEvent :=
  [.push (.assistant "third" "a-3"), .persist (checkpointOf [] 0) uncontended,
    .swap boundary "so far" "s-1",
    .push (.assistant "fourth" "a-4"), .persist (checkpointOf [] 0) uncontended]

open CompactedRun in
theorem admissible_swapBetweenSteps {boundary : String}
    (h : boundary = "a-1" ∨ boundary = "a-2") :
    AdmissibleRun thirdTurnConfig (start thirdTurn ⟨thirdTurn, none⟩)
      (swapBetweenSteps boundary) := by
  have hfresh : ∀ items log : List Message, FreshFor items log
      ((List.range maxAppendAttempts).flatMap fun n => (uncontended n).others) := by
    intro items log
    have hnone : ((List.range maxAppendAttempts).flatMap fun n => (uncontended n).others) = [] :=
      rfl
    rw [hnone]
    constructor
    · simp
    · exact List.nodup_nil
    · exact List.disjoint_nil_left _
    · exact List.disjoint_nil_left _
  cases h with
  | inl h =>
    subst h
    refine ⟨⟨rfl, ?_, rfl⟩, hfresh _ _, ?_, ⟨rfl, ?_, rfl⟩, hfresh _ _, trivial⟩
    · decide +kernel
    · show some "s-1" ∉ _
      decide +kernel
    · decide +kernel
  | inr h =>
    subst h
    refine ⟨⟨rfl, ?_, rfl⟩, hfresh _ _, ?_, ⟨rfl, ?_, rfl⟩, hfresh _ _, trivial⟩
    · decide +kernel
    · show some "s-1" ∉ _
      decide +kernel
    · decide +kernel

open CompactedRun in
/-- A swap up to `a-1` shortens the list by one, and one message was pushed before `a-4`. -/
theorem compactedOutput_law_one : KeepsOutput thirdTurnConfig
    (CompactedRun.start thirdTurn ⟨thirdTurn, none⟩) (swapBetweenSteps "a-1") := by
  have hdistinct : DistinctIds thirdTurn := by
    unfold DistinctIds
    decide
  apply (compactedOutput_law thirdTurnConfig rfl (by decide) (by decide) hdistinct
    (admissible_swapBetweenSteps (.inl rfl))).mpr
  refine ⟨?_, ?_, ?_⟩
  · intro _ k message hk _ _
    cases k with
    | zero =>
      obtain rfl := Option.some.inj hk
      constructor
      · decide +kernel
      · decide +kernel
    | succ k => cases hk
  · intro _ k message hk _ hopen
    cases k with
    | zero =>
      -- recorded by the first checkpoint
      obtain rfl := Option.some.inj hk
      exfalso
      apply hopen
      decide +kernel
    | succ k =>
      cases k with
      | zero =>
        obtain rfl := Option.some.inj hk
        constructor
        · decide +kernel
        · decide +kernel
      | succ k => cases hk
  · intro k message hlast
    obtain ⟨hk, -, hlater⟩ := hlast
    cases k with
    | zero => exact absurd rfl (hlater (.assistant "fourth" "a-4") (by decide +kernel))
    | succ k =>
      cases k with
      | zero =>
        obtain rfl := Option.some.inj hk
        left
        constructor
        · decide +kernel
        · decide +kernel
      | succ k => cases hk

open CompactedRun in
/-- A swap up to `a-2` shortens the list by three: `a-4` is neither recorded as output, nor
    found as the response. -/
theorem compactedOutput_three : ¬ ∀ (cfg : RunConfig) (messages : List Message) (log : ThreadLog)
    (events : List LoopEvent), messages.length = cfg.inputMessageCount →
    (∀ m ∈ messages, m.id.isSome = true) → (messages.map Message.id).Nodup →
    DistinctIds log.committed → AdmissibleRun cfg (CompactedRun.start messages log) events →
    KeepsOutput cfg (CompactedRun.start messages log) events := by
  intro h
  have hdistinct : DistinctIds thirdTurn := by
    unfold DistinctIds
    decide
  have hrun := h thirdTurnConfig thirdTurn ⟨thirdTurn, none⟩ (swapBetweenSteps "a-2") rfl
    (by decide) (by decide) hdistinct (admissible_swapBetweenSteps (.inr rfl))
  obtain ⟨-, -, hresponds⟩ := hrun
  have hresponse := hresponds 1 (.assistant "fourth" "a-4") ⟨rfl, rfl, by decide +kernel⟩
  revert hresponse
  decide +kernel

end Remo
