import Mathlib.Data.List.Infix
import Remo.ForStd.Inserted
import Remo.Native.Context.Compaction

/-!
# What a compaction cuts off

Calls that are open at a message, and the results that lose their calls when a plan cuts there.

## Key results

- `isOpen_concat`: what one more message opens and closes
- `exists_answer_of_allAnswered`: a call that has been answered has a result
- `findCompactionBoundary_eq_some_iff`: the boundary is the last cut
- `compactionKeeps_iff`: when a compaction leaves all results with their calls
-/

/-! ## Tool calls and their results

A call is made by an assistant message and answered by tool messages behind it. A call is open
while no result has followed it.
-/

namespace Remo

/-- The message makes the tool call. -/
def Message.calls (m : Message) (callId : String) : Prop :=
  callId ∈ (m.toolCalls.getD []).map ToolCall.id

/-- The message is a result of the tool call. -/
def Message.answers (m : Message) (callId : String) : Prop :=
  m.role = .tool ∧ m.toolCallId = some callId

/-- Every tool message has an earlier assistant message with its call. -/
def ResultsFollow (messages : List Message) : Prop :=
  ∀ before m after, messages = before ++ m :: after → m.role = .tool →
    ∃ callId, m.toolCallId = some callId ∧ ∃ a ∈ before, a.role = .assistant ∧ a.calls callId

/-- The call has been made, and no result has followed. -/
def IsOpen (messages : List Message) (callId : String) : Prop :=
  ∃ before m after, messages = before ++ m :: after ∧ m.calls callId ∧
    ∀ r ∈ m :: after, ¬ r.answers callId

/-- No call is open. -/
def AllAnswered (messages : List Message) : Prop := ∀ callId, ¬ IsOpen messages callId

variable {messages : List Message} {m : Message} {callId : String}

/-- One more message is no result, or its call has been made. -/
theorem resultsFollow_concat (h : ResultsFollow messages)
    (hm : m.role = .tool → ∃ callId, m.toolCallId = some callId ∧
      ∃ a ∈ messages, a.role = .assistant ∧ a.calls callId) :
    ResultsFollow (messages ++ [m]) := by
  intro before r after heq htool
  cases after using List.reverseRecOn with
  | nil =>
    obtain ⟨rfl, hlast⟩ := List.append_inj' heq rfl
    obtain rfl := (List.cons.inj hlast).1
    exact hm htool
  | append_singleton after last =>
    have hsplit : messages ++ [m] = (before ++ r :: after) ++ [last] := by
      rw [heq]
      simp
    obtain ⟨hmessages, -⟩ := List.append_inj' hsplit rfl
    exact h before r after hmessages htool

/-- Rewritten messages pair like the messages, whose roles and calls they have. -/
theorem resultsFollow_map_iff {f : Message → Message} (hrole : ∀ m, (f m).role = m.role)
    (hcalls : ∀ m, (f m).toolCalls = m.toolCalls)
    (hid : ∀ m, (f m).toolCallId = m.toolCallId) :
    ResultsFollow (messages.map f) ↔ ResultsFollow messages := by
  constructor
  · intro h before m after heq htool
    obtain ⟨callId, hcall, a, ha, hassistant, hmakes⟩ :=
      h (before.map f) (f m) (after.map f) (by rw [heq]; simp) (by rw [hrole, htool])
    obtain ⟨a', ha', rfl⟩ := List.mem_map.mp ha
    refine ⟨callId, by rw [← hid, hcall], a', ha', by rw [← hrole, hassistant], ?_⟩
    unfold Message.calls
    rw [← hcalls]
    exact hmakes
  · intro h before m after heq htool
    obtain ⟨before', rest, rfl, rfl, hrest⟩ := List.map_eq_append_iff.mp heq
    obtain ⟨m', after', rfl, rfl, -⟩ := List.map_eq_cons_iff.mp hrest
    rw [hrole] at htool
    obtain ⟨callId, hcall, a, ha, hassistant, hmakes⟩ := h before' m' after' rfl htool
    refine ⟨callId, by rw [hid, hcall], f a, List.mem_map_of_mem ha, by rw [hrole, hassistant], ?_⟩
    unfold Message.calls
    rw [hcalls]
    exact hmakes

/-- Results for calls in front of them can be put in. -/
theorem resultsFollow_splice {xs block ys : List Message} (h : ResultsFollow (xs ++ ys))
    (hblock : ∀ m ∈ block, ∃ callId, m.toolCallId = some callId ∧
      ∃ a ∈ xs, a.role = .assistant ∧ a.calls callId) :
    ResultsFollow (xs ++ block ++ ys) := by
  intro before m after heq htool
  cases append_eq_append_cons heq with
  | inl hback =>
    -- the result stands behind the block
    obtain ⟨mid, rfl, hys⟩ := hback
    obtain ⟨callId, hcall, a, ha, hrest⟩ := h (xs ++ mid) m after (by rw [hys]; simp) htool
    refine ⟨callId, hcall, a, ?_, hrest⟩
    cases List.mem_append.mp ha with
    | inl hxs => exact List.mem_append_left _ (List.mem_append_left _ hxs)
    | inr hmid => exact List.mem_append_right _ hmid
  | inr hfront =>
    obtain ⟨mid, hfront, -⟩ := hfront
    cases append_eq_append_cons hfront with
    | inl hin =>
      obtain ⟨gap, rfl, hgap⟩ := hin
      obtain ⟨callId, hcall, a, ha, hrest⟩ := hblock m (by rw [hgap]; simp)
      exact ⟨callId, hcall, a, List.mem_append_left _ ha, hrest⟩
    | inr hin =>
      obtain ⟨gap, hxs, -⟩ := hin
      exact h before m (gap ++ ys) (by rw [hxs]; simp) htool

/-- Without the messages that were put in, the results still have their calls. -/
theorem resultsFollow_of_inserted {p : Message → Prop} {result : List Message}
    (hp : ∀ m, p m → m.role ≠ .assistant) (hins : Inserted p messages result)
    (h : ResultsFollow result) : ResultsFollow messages := by
  intro before m after heq htool
  obtain ⟨before', after', hresult, hbefore⟩ := hins.split heq
  obtain ⟨callId, hcall, a, ha, hassistant, hcalls⟩ := h before' m after' hresult htool
  refine ⟨callId, hcall, a, ?_, hassistant, hcalls⟩
  cases hbefore.mem ha with
  | inl hmem => exact hmem
  | inr hpa => exact absurd hassistant (hp a hpa)

/-- Messages without results need no calls. -/
theorem resultsFollow_of_not_tool (h : ∀ m ∈ messages, m.role ≠ .tool) :
    ResultsFollow messages := by
  intro before m after heq htool
  have hmem : m ∈ messages := by
    rw [heq]
    exact List.mem_append_right _ List.mem_cons_self
  exact absurd htool (h m hmem)

theorem not_isOpen_nil : ¬ IsOpen [] callId := by
  intro h
  obtain ⟨before, m, after, heq, -⟩ := h
  have := congrArg List.length heq
  simp at this

/-- What one more message opens and closes. -/
theorem isOpen_concat :
    IsOpen (messages ++ [m]) callId ↔
      (IsOpen messages callId ∨ m.calls callId) ∧ ¬ m.answers callId := by
  constructor
  · intro h
    obtain ⟨before, c, after, heq, hcalls, hopen⟩ := h
    cases after using List.reverseRecOn with
    | nil =>
      -- the last message makes the call
      obtain ⟨-, hlast⟩ := List.append_inj' heq rfl
      rw [List.cons.inj hlast |>.1]
      exact ⟨Or.inr hcalls, hopen c List.mem_cons_self⟩
    | append_singleton after last =>
      have hsplit : messages ++ [m] = (before ++ c :: after) ++ [last] := by
        rw [heq]
        simp
      obtain ⟨hmessages, hlast⟩ := List.append_inj' hsplit rfl
      obtain rfl : m = last := (List.cons.inj hlast).1
      constructor
      · apply Or.inl
        refine ⟨before, c, after, hmessages, hcalls, ?_⟩
        intro r hr
        apply hopen r
        cases List.mem_cons.mp hr with
        | inl heq => exact List.mem_cons.mpr (Or.inl heq)
        | inr hmem => exact List.mem_cons_of_mem _ (List.mem_append_left _ hmem)
      · apply hopen m
        exact List.mem_cons_of_mem _ (List.mem_append_right _ List.mem_cons_self)
  · intro h
    obtain ⟨hcall, hanswer⟩ := h
    cases hcall with
    | inl hopen =>
      obtain ⟨before, c, after, heq, hcalls, hopen⟩ := hopen
      refine ⟨before, c, after ++ [m], by rw [heq]; simp, hcalls, ?_⟩
      intro r hr
      rw [← List.cons_append] at hr
      cases List.mem_append.mp hr with
      | inl hold => exact hopen r hold
      | inr hlast =>
        rw [List.mem_singleton.mp hlast]
        exact hanswer
    | inr hcalls =>
      refine ⟨messages, m, [], rfl, hcalls, ?_⟩
      intro r hr
      rw [List.mem_singleton.mp hr]
      exact hanswer

/-- A call that has been answered has a result. -/
theorem exists_answer_of_allAnswered (h : AllAnswered messages) (hmem : m ∈ messages)
    (hcalls : m.calls callId) : ∃ r ∈ messages, r.answers callId := by
  by_contra hnone
  obtain ⟨before, after, heq⟩ := List.append_of_mem hmem
  apply h callId
  refine ⟨before, m, after, heq, hcalls, ?_⟩
  intro r hr hanswers
  apply hnone
  refine ⟨r, ?_, hanswers⟩
  rw [heq]
  exact List.mem_append_right _ hr

end Remo

/-! ## What a compaction cuts off

The plan cuts at the last message, in front of the kept suffix, at which no call is open and
behind which no tool message stands. A call that is answered again behind the cut has lost its
assistant message.
-/

namespace Remo

/-! ## Cuts -/

/-- No call is open at the message, and no tool message is next. -/
def CutsAt (messages : List Message) (b : Nat) : Prop :=
  AllAnswered (messages.take (b + 1)) ∧ ∀ next, messages[b + 1]? = some next → next.role ≠ .tool

/-- The last cut among the messages from `start` up to `stop`. -/
structure LastCutFrom (messages : List Message) (start stop b : Nat) : Prop where
  start_le : start ≤ b
  lt_stop : b < stop
  lt_length : b < messages.length
  cuts : CutsAt messages b
  last : ∀ i, b < i → i < stop → i < messages.length → ¬ CutsAt messages i

/-- There is no cut among these messages. -/
def NoCutFrom (messages : List Message) (start stop : Nat) : Prop :=
  ∀ i, start ≤ i → i < stop → i < messages.length → ¬ CutsAt messages i

/-- The last cut among the first messages. -/
def LastCut (messages : List Message) (stop b : Nat) : Prop := LastCutFrom messages 0 stop b

variable {messages : List Message} {start stop b : Nat}

/-- The last cut from a cut on is behind it, or it is this one. -/
theorem lastCutFrom_of_cut (h : CutsAt messages start) (hstop : start < stop)
    (hlength : start < messages.length) :
    LastCutFrom messages start stop b ↔
      LastCutFrom messages (start + 1) stop b ∨
        NoCutFrom messages (start + 1) stop ∧ b = start := by
  constructor
  · intro hlast
    by_cases heq : b = start
    · apply Or.inr
      refine ⟨?_, heq⟩
      intro i hi hlt hlen
      exact hlast.last i (by omega) hlt hlen
    · have hle := hlast.start_le
      exact Or.inl ⟨by omega, hlast.lt_stop, hlast.lt_length, hlast.cuts, hlast.last⟩
  · intro hcase
    cases hcase with
    | inl hlast =>
      have hle := hlast.start_le
      exact ⟨by omega, hlast.lt_stop, hlast.lt_length, hlast.cuts, hlast.last⟩
    | inr hnone =>
      obtain ⟨hnone, rfl⟩ := hnone
      exact ⟨le_refl _, hstop, hlength, h, fun i hi => hnone i hi⟩

theorem lastCutFrom_of_not_cut (h : ¬ CutsAt messages start) :
    LastCutFrom messages (start + 1) stop b ↔ LastCutFrom messages start stop b := by
  constructor
  · intro hlast
    have hle := hlast.start_le
    exact ⟨by omega, hlast.lt_stop, hlast.lt_length, hlast.cuts, hlast.last⟩
  · intro hlast
    have hle := hlast.start_le
    have hne : b ≠ start := by
      intro heq
      rw [heq] at hlast
      exact h hlast.cuts
    exact ⟨by omega, hlast.lt_stop, hlast.lt_length, hlast.cuts, hlast.last⟩

theorem noCutFrom_of_not_cut (h : ¬ CutsAt messages start) :
    NoCutFrom messages (start + 1) stop ↔ NoCutFrom messages start stop := by
  constructor
  · intro hnone i hi hlt hlength
    by_cases heq : i = start
    · rw [heq]
      exact h
    · exact hnone i (by omega) hlt hlength
  · intro hnone i hi
    exact hnone i (by omega)

/-! ## The search -/

variable {message : Message} {openCalls : List String}

/-- The calls that are open behind a message, from those open in front of it. -/
def openAfter (openCalls : List String) (message : Message) : List String :=
  match message.role, message.toolCallId with
  | .tool, some callId =>
    (openCalls ++ (message.toolCalls.getD []).map ToolCall.id).filter (· ≠ callId)
  | _, _ => openCalls ++ (message.toolCalls.getD []).map ToolCall.id

theorem mem_openAfter {callId : String} :
    callId ∈ openAfter openCalls message ↔
      (callId ∈ openCalls ∨ message.calls callId) ∧ ¬ message.answers callId := by
  have hcalls : callId ∈ openCalls ++ (message.toolCalls.getD []).map ToolCall.id ↔
      callId ∈ openCalls ∨ message.calls callId := List.mem_append
  by_cases htool : message.role = .tool
  · cases hid : message.toolCallId with
    | some id =>
      have hopen : openAfter openCalls message =
          (openCalls ++ (message.toolCalls.getD []).map ToolCall.id).filter (· ≠ id) := by
        simp only [openAfter, htool, hid]
      have hanswers : message.answers callId ↔ callId = id := by
        simp only [Message.answers, htool, hid, true_and, Option.some.injEq]
        exact eq_comm
      rw [hopen, List.mem_filter, hcalls, hanswers, decide_eq_true_iff]
    | none =>
      have hopen : openAfter openCalls message =
          openCalls ++ (message.toolCalls.getD []).map ToolCall.id := by
        simp only [openAfter, htool, hid]
      rw [hopen, hcalls]
      simp [Message.answers, hid]
  · have hopen : openAfter openCalls message =
        openCalls ++ (message.toolCalls.getD []).map ToolCall.id := by
      unfold openAfter
      split
      · rename_i hrole _
        exact absurd hrole htool
      · rfl
    rw [hopen, hcalls]
    simp [Message.answers, htool]

theorem boundaryFrom_cons (index : Nat) (openCalls : List String) (best : Option Nat)
    (count : Nat) (message : Message) (rest : List Message) :
    boundaryFrom index openCalls best (count + 1) (message :: rest) =
      boundaryFrom (index + 1) (openAfter openCalls message)
        (if (openAfter openCalls message).isEmpty && !(rest.head?.any fun next =>
          next.role == .tool) then some index else best) count rest := by
  rfl

/-- What the search looks at is the cut at the message. -/
theorem cutsAt_iff {done rest : List Message}
    (hopen : ∀ callId, callId ∈ openCalls ↔ IsOpen (done ++ [message]) callId) :
    (openCalls.isEmpty && !(rest.head?.any fun next => next.role == .tool)) = true ↔
      CutsAt (done ++ message :: rest) done.length := by
  have htake : (done ++ message :: rest).take (done.length + 1) = done ++ [message] := by
    rw [List.take_append, List.take_of_length_le (by omega), Nat.add_sub_cancel_left]
    rfl
  have hnext : (done ++ message :: rest)[done.length + 1]? = rest.head? := by
    rw [List.getElem?_append_right (by omega), Nat.add_sub_cancel_left, List.getElem?_cons_succ,
      List.head?_eq_getElem?]
  unfold CutsAt
  rw [htake, hnext, Bool.and_eq_true, List.isEmpty_iff, List.eq_nil_iff_forall_not_mem]
  have hanswered : (∀ callId, callId ∉ openCalls) ↔ AllAnswered (done ++ [message]) := by
    unfold AllAnswered
    simp only [hopen]
  rw [hanswered]
  cases rest.head? with
  | none => simp
  | some next => simp

/-- The search finds the last cut it passes, or else keeps what it had. -/
theorem boundaryFrom_eq_some_iff {done rest : List Message} {best : Option Nat} {count : Nat}
    (hopen : ∀ callId, callId ∈ openCalls ↔ IsOpen done callId) :
    boundaryFrom done.length openCalls best count rest = some b ↔
      LastCutFrom (done ++ rest) done.length (done.length + count) b ∨
        NoCutFrom (done ++ rest) done.length (done.length + count) ∧ best = some b := by
  induction count generalizing done rest openCalls best with
  | zero =>
    have hnone : NoCutFrom (done ++ rest) done.length (done.length + 0) := by
      intro i hle hlt
      omega
    have hnot : ¬ LastCutFrom (done ++ rest) done.length (done.length + 0) b := by
      intro h
      have := h.start_le
      have := h.lt_stop
      omega
    have hstop : boundaryFrom done.length openCalls best 0 rest = best := by
      cases rest <;> rfl
    rw [hstop]
    exact ⟨fun h => Or.inr ⟨hnone, h⟩, fun h => h.elim (fun h => absurd h hnot) And.right⟩
  | succ count ih =>
    cases rest with
    | nil =>
      have hnone : NoCutFrom (done ++ []) done.length (done.length + (count + 1)) := by
        intro i hle _ hlt
        simp only [List.append_nil] at hlt
        omega
      have hnot : ¬ LastCutFrom (done ++ []) done.length (done.length + (count + 1)) b := by
        intro h
        have hle := h.start_le
        have hlt := h.lt_length
        simp only [List.append_nil] at hlt
        omega
      have hstop : boundaryFrom done.length openCalls best (count + 1) [] = best := rfl
      rw [hstop]
      exact ⟨fun h => Or.inr ⟨hnone, h⟩, fun h => h.elim (fun h => absurd h hnot) And.right⟩
    | cons message rest =>
      have hafter : ∀ callId, callId ∈ openAfter openCalls message ↔
          IsOpen (done ++ [message]) callId := by
        intro callId
        rw [mem_openAfter, hopen, isOpen_concat]
      have hcut := @cutsAt_iff message _ done rest hafter
      have hlist : (done ++ [message]) ++ rest = done ++ message :: rest := by simp
      have hlength : (done ++ [message]).length = done.length + 1 := by simp
      have hstep := @ih _ (done ++ [message]) rest
        (if (openAfter openCalls message).isEmpty && !(rest.head?.any fun next =>
          next.role == .tool) then some done.length else best) hafter
      rw [hlist, hlength] at hstep
      rw [boundaryFrom_cons, hstep]
      have hstop : done.length + 1 + count = done.length + (count + 1) := by omega
      have hlt : done.length < (done ++ message :: rest).length := by simp
      rw [hstop]
      by_cases hcuts : CutsAt (done ++ message :: rest) done.length
      · rw [if_pos (hcut.mpr hcuts), lastCutFrom_of_cut hcuts (by omega) hlt]
        have hsome : ¬ NoCutFrom (done ++ message :: rest) done.length
            (done.length + (count + 1)) := by
          intro hnone
          exact hnone done.length (le_refl _) (by omega) hlt hcuts
        simp only [hsome, false_and, or_false, Option.some.injEq, eq_comm]
      · rw [if_neg (fun h => hcuts (hcut.mp h)), lastCutFrom_of_not_cut hcuts,
          noCutFrom_of_not_cut hcuts]

/-- The boundary is the last cut. -/
theorem findCompactionBoundary_eq_some_iff :
    findCompactionBoundary messages 0 stop = some b ↔ LastCut messages stop b := by
  have hopen : ∀ callId, callId ∈ ([] : List String) ↔ IsOpen [] callId := by
    intro callId
    constructor
    · intro hmem
      cases hmem
    · intro hopen
      exact absurd hopen not_isOpen_nil
  have h := @boundaryFrom_eq_some_iff b _ [] messages none stop hopen
  simp only [List.nil_append, List.length_nil, Nat.zero_add] at h
  unfold findCompactionBoundary LastCut
  rw [List.drop_zero, Nat.sub_zero, h]
  simp

/-! ## The condition -/

/-- A user message that is not internal. -/
def Message.isVisibleUser (m : Message) : Bool := m.role == .user && m.visibility != .internal

/-- How many messages stand in front of the kept suffix. -/
def searchEnd (messages : List Message) (policy : ContextWindowPolicy) : Nat :=
  messages.length - compactionKeepSuffix messages policy

/-- No message in front of the cut has its id, and no call that is answered up to the cut is
    answered again behind it without having been made again there. -/
structure CutIsClean (messages appended : List Message) (b : Nat) : Prop where
  ids : ∀ i m m', i < b → messages[i]? = some m → messages[b]? = some m' → m.id ≠ m'.id
  answers : ∀ before m after callId,
    (messages ++ appended).drop (b + 1) = before ++ m :: after → m.answers callId →
      (∃ r ∈ messages.take (b + 1), r.answers callId) →
        ∃ a ∈ before, a.role = .assistant ∧ a.calls callId

/-- Where a pass is planned, its cut is clean. -/
def PlansCleanly (contents : Contents) (messages appended : List Message)
    (policy : ContextWindowPolicy) : Prop :=
  (planCompaction contents messages policy).isSome = true →
    ∀ b, LastCut messages (searchEnd messages policy) b → CutIsClean messages appended b

/-- What a planned pass leaves when its summary lands behind more messages: results with their
    calls, the latest user message with all that follows, and exactly the messages behind the
    cut. -/
structure CompactionKeeps (contents : Contents) (messages appended : List Message)
    (policy : ContextWindowPolicy) (summaryText generated : String) : Prop where
  results : ∀ plan result applied, planCompaction contents messages policy = some plan →
    applySummary contents (messages ++ appended) plan.boundaryMessageId summaryText generated =
      some (result, applied) → ResultsFollow result
  latestUser : ∀ plan result applied, planCompaction contents messages policy = some plan →
    applySummary contents (messages ++ appended) plan.boundaryMessageId summaryText generated =
      some (result, applied) → ∀ before user after,
        messages ++ appended = before ++ user :: after → user.isVisibleUser = true →
          (∀ m ∈ after, m.isVisibleUser = false) → (user :: after) <:+ result
  rest : ∀ plan result applied, planCompaction contents messages policy = some plan →
    applySummary contents (messages ++ appended) plan.boundaryMessageId summaryText generated =
      some (result, applied) → ∀ b, LastCut messages (searchEnd messages policy) b →
        result = summaryMessage contents generated summaryText ::
          (messages ++ appended).drop (b + 1)

variable {contents : Contents} {policy : ContextWindowPolicy} {plan : CompactionPlan}

/-! ## The plan -/

/-- A plan is made at the last cut. -/
theorem planCompaction_cut (h : planCompaction contents messages policy = some plan) :
    ∃ b m, LastCut messages (searchEnd messages policy) b ∧ messages[b]? = some m ∧
      m.id = some plan.boundaryMessageId := by
  unfold planCompaction at h
  dsimp only at h
  split at h
  · cases h
  · split at h
    · cases h
    · obtain ⟨b, hb, h⟩ := Option.bind_eq_some_iff.mp h
      obtain ⟨boundaryId, hboundary, h⟩ := Option.bind_eq_some_iff.mp h
      obtain ⟨m, hm, hid⟩ := Option.bind_eq_some_iff.mp hboundary
      split at h
      · cases h
      · split at h
        · cases h
        · cases h
          exact ⟨b, m, findCompactionBoundary_eq_some_iff.mp hb, hm, hid⟩

/-- The last cut is one. -/
theorem LastCut.unique {b' : Nat} (h : LastCut messages stop b) (h' : LastCut messages stop b') :
    b = b' := by
  by_contra hne
  cases Nat.lt_or_gt_of_ne hne with
  | inl hlt => exact h.last b' hlt h'.lt_stop h'.lt_length h'.cuts
  | inr hgt => exact h'.last b hgt h.lt_stop h.lt_length h.cuts

/-- The suffix that is kept reaches to the latest user message. -/
theorem searchEnd_le_latestUser {before after : List Message} {user : Message}
    (h : messages = before ++ user :: after) (huser : user.isVisibleUser = true)
    (hafter : ∀ m ∈ after, m.isVisibleUser = false) :
    searchEnd messages policy ≤ before.length := by
  have hfind : messages.reverse.findIdx? (fun message =>
      message.role == .user && message.visibility != .internal) = some after.length := by
    have hnone : after.reverse.findIdx? (fun message =>
        message.role == .user && message.visibility != .internal) = none := by
      rw [List.findIdx?_eq_none_iff]
      intro m hm
      exact hafter m (List.mem_reverse.mp hm)
    have hhere : (user.role == .user && user.visibility != .internal) = true := huser
    rw [h, List.reverse_append, List.reverse_cons, List.append_assoc, List.findIdx?_append, hnone,
      List.cons_append, List.nil_append, List.findIdx?_cons, if_pos hhere]
    simp
  unfold searchEnd compactionKeepSuffix
  dsimp only
  rw [hfind]
  have hlength : messages.length = before.length + (after.length + 1) := by
    rw [h]
    simp
  simp only [Option.map_some, Option.getD_some]
  omega

/-! ## The swap -/

variable {appended result : List Message} {applied : AppliedCompaction}
variable {summaryText generated : String}

/-- The summary lands at the first message with the id of the boundary. -/
theorem applySummary_at (appended : List Message) (summaryText generated : String)
    (hplan : planCompaction contents messages policy = some plan)
    (hcut : LastCut messages (searchEnd messages policy) b) :
    ∃ i applied, i ≤ b ∧
      applySummary contents (messages ++ appended) plan.boundaryMessageId summaryText generated =
        some (summaryMessage contents generated summaryText ::
          (messages ++ appended).drop (i + 1), applied) ∧
      (i = b ↔ ∀ j m m', j < b → messages[j]? = some m → messages[b]? = some m' →
        m.id ≠ m'.id) := by
  obtain ⟨b', m, hcut', hm, hid⟩ := planCompaction_cut hplan
  obtain rfl : b' = b := hcut'.unique hcut
  have hbound : b' < messages.length := hcut.lt_length
  have hhas : (messages ++ appended)[b']? = some m := by
    rw [List.getElem?_append_left hbound, hm]
  have hsome : ((messages ++ appended).findIdx? fun m =>
      m.id == some plan.boundaryMessageId).isSome = true := by
    rw [List.findIdx?_isSome, List.any_eq_true]
    exact ⟨m, List.mem_of_getElem? hhas, by simp [hid]⟩
  obtain ⟨i, hi⟩ := Option.isSome_iff_exists.mp hsome
  have hfirst := List.findIdx?_eq_some_iff_getElem.mp hi
  obtain ⟨hilt, hiid, hbefore⟩ := hfirst
  have hle : i ≤ b' := by
    by_contra hlt
    apply hbefore b' (by omega)
    have hget := (List.getElem?_eq_some_iff.mp hhas).2
    rw [hget, hid]
    exact beq_self_eq_true _
  refine ⟨i, _, hle, by simp only [applySummary, hi]; rfl, ?_⟩
  constructor
  · intro heq j mj m' hj hmj hm' hsame
    rw [hm] at hm'
    cases hm'
    apply hbefore j (by omega)
    have hget : (messages ++ appended)[j]? = some mj := by
      rw [List.getElem?_append_left (by omega), hmj]
    rw [(List.getElem?_eq_some_iff.mp hget).2, hsame, hid]
    exact beq_self_eq_true _
  · intro hids
    by_contra hne
    have hlt : i < b' := by omega
    have hget : messages[i]? = some (messages ++ appended)[i] := by
      rw [← @List.getElem?_append_left _ messages appended i (by omega),
        List.getElem?_eq_getElem hilt]
    apply hids i _ m hlt hget hm
    rw [hid]
    exact beq_iff_eq.mp hiid

theorem take_boundary (h : b < messages.length) :
    (messages ++ appended).take (b + 1) = messages.take (b + 1) :=
  List.take_append_of_le_length (by omega)

/-- Behind a clean cut every result has its call. -/
theorem resultsFollow_of_clean (hfollow : ResultsFollow (messages ++ appended))
    (hcut : LastCut messages stop b) (hclean : CutIsClean messages appended b) :
    ResultsFollow (summaryMessage contents generated summaryText ::
      (messages ++ appended).drop (b + 1)) := by
  intro before m after heq htool
  cases before with
  | nil =>
    have hsummary := (List.cons.inj heq).1
    rw [← hsummary] at htool
    cases htool
  | cons summary before =>
    obtain ⟨-, hrest⟩ := List.cons.inj heq
    have hwhole : messages ++ appended =
        (messages.take (b + 1) ++ before) ++ m :: after := by
      rw [← take_boundary hcut.lt_length, List.append_assoc]
      exact (List.take_append_drop (b + 1) _).symm.trans (congrArg _ hrest)
    obtain ⟨callId, hid, a, ha, hassistant, hcalls⟩ := hfollow _ m after hwhole htool
    refine ⟨callId, hid, ?_⟩
    cases List.mem_append.mp ha with
    | inr hbehind => exact ⟨a, List.mem_cons_of_mem _ hbehind, hassistant, hcalls⟩
    | inl hhead =>
      -- the call was answered up to the cut
      obtain ⟨r, hr, hanswers⟩ := exists_answer_of_allAnswered hcut.cuts.1 hhead hcalls
      obtain ⟨a', ha', hrole, hagain⟩ :=
        hclean.answers before m after callId hrest ⟨htool, hid⟩ ⟨r, hr, hanswers⟩
      exact ⟨a', List.mem_cons_of_mem _ ha', hrole, hagain⟩

/-- A cut that leaves every result with its call is clean. -/
theorem answers_of_resultsFollow
    (h : ResultsFollow (summaryMessage contents generated summaryText ::
      (messages ++ appended).drop (b + 1))) :
    ∀ before m after callId,
      (messages ++ appended).drop (b + 1) = before ++ m :: after → m.answers callId →
        ∃ a ∈ before, a.role = .assistant ∧ a.calls callId := by
  intro before m after callId heq hanswers
  have hsplit : summaryMessage contents generated summaryText ::
      (messages ++ appended).drop (b + 1) =
        (summaryMessage contents generated summaryText :: before) ++ m :: after := by
    rw [heq]
    rfl
  obtain ⟨callId', hid, a, ha, hassistant, hcalls⟩ := h _ m after hsplit hanswers.1
  rw [hanswers.2] at hid
  cases hid
  cases List.mem_cons.mp ha with
  | inl hsummary =>
    rw [hsummary] at hassistant
    cases hassistant
  | inr hmem => exact ⟨a, hmem, hassistant, hcalls⟩

/-- The latest user message stands behind every cut. -/
theorem boundary_lt_latestUser (hcut : LastCut messages (searchEnd messages policy) b)
    {before after : List Message} {user : Message}
    (h : messages ++ appended = before ++ user :: after) (huser : user.isVisibleUser = true)
    (hafter : ∀ m ∈ after, m.isVisibleUser = false) : b < before.length := by
  by_cases hlen : messages.length ≤ before.length
  · have := hcut.lt_length
    omega
  · -- the latest user message was there when the pass was planned
    have hlt : before.length < messages.length := by omega
    rcases List.append_eq_append_iff.mp h with ⟨mid, hmid, -⟩ | ⟨mid, hmid, htail⟩
    · rw [hmid] at hlt
      simp only [List.length_append] at hlt
      omega
    · cases mid with
      | nil =>
        rw [hmid] at hlt
        simp only [List.append_nil] at hlt
        omega
      | cons first mid =>
        rw [List.cons_append] at htail
        obtain ⟨rfl, hrest⟩ := List.cons.inj htail
        have hle : searchEnd messages policy ≤ before.length := by
          apply searchEnd_le_latestUser hmid huser
          intro m hm
          apply hafter
          rw [hrest]
          exact List.mem_append_left _ hm
        have := hcut.lt_stop
        omega

/-- When a compaction leaves all results with their calls. -/
theorem compactionKeeps_iff (contents : Contents) (messages appended : List Message)
    (policy : ContextWindowPolicy) (summaryText generated : String)
    (hfollow : ResultsFollow (messages ++ appended)) :
    CompactionKeeps contents messages appended policy summaryText generated ↔
      PlansCleanly contents messages appended policy := by
  constructor
  · intro h hplanned b hcut
    obtain ⟨plan, hplan⟩ := Option.isSome_iff_exists.mp hplanned
    obtain ⟨i, applied, hle, happly, hids⟩ :=
      applySummary_at appended summaryText generated hplan hcut
    have hrest := h.rest plan _ _ hplan happly b hcut
    have heq : i = b := by
      have hlength := congrArg List.length hrest
      have hlt := hcut.lt_length
      simp only [List.length_cons, List.length_drop, List.length_append] at hlength
      omega
    have hkept := h.results plan _ _ hplan happly
    rw [hrest] at hkept
    constructor
    · exact hids.mp heq
    · intro before m after callId hsplit hanswers _
      exact answers_of_resultsFollow hkept before m after callId hsplit hanswers
  · intro h
    have hland : ∀ plan result applied, planCompaction contents messages policy = some plan →
        applySummary contents (messages ++ appended) plan.boundaryMessageId summaryText generated =
          some (result, applied) → ∀ b, LastCut messages (searchEnd messages policy) b →
            result = summaryMessage contents generated summaryText ::
              (messages ++ appended).drop (b + 1) := by
      intro plan result applied hplan happly b hcut
      obtain ⟨i, applied', hle, happly', hids⟩ :=
        applySummary_at appended summaryText generated hplan hcut
      have hclean := h (by rw [hplan]; rfl) b hcut
      rw [happly'] at happly
      cases happly
      rw [hids.mpr hclean.ids]
    constructor
    · intro plan result applied hplan happly
      obtain ⟨b, m, hcut, -, -⟩ := planCompaction_cut hplan
      rw [hland plan result applied hplan happly b hcut]
      exact resultsFollow_of_clean hfollow hcut (h (by rw [hplan]; rfl) b hcut)
    · intro plan result applied hplan happly before user after heq huser hafter
      obtain ⟨b, m, hcut, -, -⟩ := planCompaction_cut hplan
      have hlt := boundary_lt_latestUser hcut heq huser hafter
      rw [hland plan result applied hplan happly b hcut, heq,
        List.drop_append_of_le_length (by omega)]
      exact ⟨_ :: before.drop (b + 1), rfl⟩
    · exact hland

/-! ## A resumed call -/

/-- Older messages, and a call that was answered when it was suspended. -/
def suspendedThread : List Message :=
  List.replicate 20 (.user (String.ofList (List.replicate 200 'a')) "m0") ++
    [{ Message.assistant "" "m1" with toolCalls := some [⟨"call", "bash", ⟨"{}"⟩⟩] }] ++
    [{ Message.user "waiting" "m2" with role := .tool, toolCallId := some "call" }] ++
    [.assistant "stopped" "m3"] ++ [.user "go on" "m4"]

/-- The result of the call when it has been resumed. -/
def resumedResult : Message :=
  { Message.user "done" "m5" with role := .tool, toolCallId := some "call" }

theorem resultsFollow_suspendedThread : ResultsFollow suspendedThread := by
  have hold : ResultsFollow (List.replicate 20
      (Message.user (String.ofList (List.replicate 200 'a')) "m0")) := by
    apply resultsFollow_of_not_tool
    intro m hm
    rw [List.eq_of_mem_replicate hm]
    show Role.user ≠ .tool
    decide
  apply resultsFollow_concat
  · apply resultsFollow_concat
    · apply resultsFollow_concat
      · apply resultsFollow_concat hold
        intro htool
        cases htool
      · intro _
        exact ⟨"call", rfl, _, List.mem_append_right _ List.mem_cons_self, rfl,
          List.mem_cons_self⟩
    · intro htool
      cases htool
  · intro htool
    cases htool

theorem resultsFollow_resumed : ResultsFollow (suspendedThread ++ [resumedResult]) := by
  apply resultsFollow_concat resultsFollow_suspendedThread
  intro _
  refine ⟨"call", rfl, { Message.assistant "" "m1" with
    toolCalls := some [⟨"call", "bash", ⟨"{}"⟩⟩] }, ?_, rfl, List.mem_cons_self⟩
  unfold suspendedThread
  simp only [List.mem_append, List.mem_singleton, true_or, or_true]

/-- A pass over a thread whose suspended call is resumed before the summary lands. -/
theorem compactionKeeps_iff_resumed :
    CompactionKeeps .plain suspendedThread [resumedResult] ⟨.keepRecentRawSuffix, 0, 0⟩
        "summary" "m6" ↔
      PlansCleanly .plain suspendedThread [resumedResult] ⟨.keepRecentRawSuffix, 0, 0⟩ :=
  compactionKeeps_iff .plain suspendedThread [resumedResult] ⟨.keepRecentRawSuffix, 0, 0⟩
    "summary" "m6" resultsFollow_resumed

/-- The pass ends behind the first result of the call, so the second one loses the call. -/
theorem compaction_orphansResumed :
    ResultsFollow (suspendedThread ++ [resumedResult]) ∧
      ¬ CompactionKeeps .plain suspendedThread [resumedResult] ⟨.keepRecentRawSuffix, 0, 0⟩
        "summary" "m6" := by
  constructor
  · exact resultsFollow_resumed
  · intro h
    have hplan : (planCompaction .plain suspendedThread ⟨.keepRecentRawSuffix, 0, 0⟩).map
        CompactionPlan.boundaryMessageId = some "m3" := by
      decide +kernel
    obtain ⟨plan, hplan, hboundary⟩ := Option.map_eq_some_iff.mp hplan
    have happly : (applySummary .plain (suspendedThread ++ [resumedResult]) "m3" "summary"
        "m6").map Prod.fst =
          some [summaryMessage .plain "m6" "summary", .user "go on" "m4", resumedResult] := by
      decide +kernel
    obtain ⟨applied, happly, hresult⟩ := Option.map_eq_some_iff.mp happly
    obtain ⟨result, applied⟩ := applied
    rw [← hboundary] at happly
    have hfollow := h.results plan result applied hplan happly
    rw [show result = _ from hresult] at hfollow
    obtain ⟨callId, -, a, ha, hassistant, -⟩ := hfollow
      [summaryMessage .plain "m6" "summary", .user "go on" "m4"] resumedResult [] rfl rfl
    cases List.mem_cons.mp ha with
    | inl hsummary =>
      rw [hsummary] at hassistant
      cases hassistant
    | inr hrest =>
      rw [List.mem_singleton.mp hrest] at hassistant
      cases hassistant

end Remo
