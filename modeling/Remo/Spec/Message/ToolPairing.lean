import Remo.ForStd.Except
import Remo.Native.Message.Append
import Remo.Spec.Message.EffectiveView

/-!
# Committed logs and their views

The logs that are built from accepted deltas, and the pairs of calls and results in the view of
one.

## Key results

- `validateAppendOnlyDelta_iff`: a delta is accepted when the log with it is well formed
- `acceptedLog_iff`: the logs built from accepted deltas are the well-formed ones
- `strip_idempotent`: filtering a view again changes nothing
- `effectiveCommittedView_paired_iff`: the view pairs calls and results exactly when
  every kept and unretracted result answers a kept call
-/

/-! ## Committed logs

`validateAppendOnlyDelta` looks at a delta only, with the ids and the length of the
log in front of it. What it says about the whole log is `WellFormedLog`: every
message passes its check under its own position and no id occurs twice.
-/

namespace Remo

/-- The compaction mark a message carries. -/
def Message.mark (m : Message) : Option CompactionMark :=
  m.metadata.bind MessageMetadata.compaction

/-! ## The shape of a message -/

/-- What the shape check asks for. -/
structure WellShaped (m : Message) : Prop where
  id : ∃ id, m.id = some id ∧ Str.isBlank id = false
  tool : m.role = .tool → ∃ callId, m.toolCallId = some callId ∧ Str.isBlank callId = false
  nonTool : m.role ≠ .tool → m.toolCallId = none
  toolCalls : m.role ≠ .assistant → m.toolCalls = none
  calls : ∀ call ∈ m.toolCalls.getD [], Str.isBlank call.id = false ∧ Str.isBlank call.name = false
  callIds : ((m.toolCalls.getD []).map ToolCall.id).Nodup

theorem validateToolCalls_iff {messageId : String} {ids : List String} {calls : List ToolCall} :
    validateToolCalls messageId ids calls = .ok () ↔
      (∀ call ∈ calls, Str.isBlank call.id = false ∧ Str.isBlank call.name = false) ∧
        (calls.map ToolCall.id).Nodup ∧ ∀ id ∈ calls.map ToolCall.id, id ∉ ids := by
  induction calls generalizing ids with
  | nil => simp [validateToolCalls]
  | cons call calls ih =>
    rw [validateToolCalls]
    simp only [throw_or_ok, ih, Bool.not_eq_true, List.map_cons, List.nodup_cons,
      List.forall_mem_cons]
    simp only [List.mem_cons, not_or]
    constructor
    · rintro ⟨hid, hname, hnew, hcalls, hnodup, hfresh⟩
      have hnot : call.id ∉ calls.map ToolCall.id := fun hmem => (hfresh call.id hmem).1 rfl
      exact ⟨⟨⟨hid, hname⟩, hcalls⟩, ⟨hnot, hnodup⟩, hnew, fun id hmem => (hfresh id hmem).2⟩
    · rintro ⟨⟨⟨hid, hname⟩, hcalls⟩, ⟨hnot, hnodup⟩, hnew, hfresh⟩
      refine ⟨hid, hname, hnew, hcalls, hnodup, fun id hmem => ⟨?_, hfresh id hmem⟩⟩
      intro heq
      exact hnot (heq ▸ hmem)

/-- The shape check behind the one on the id of the tool call. -/
theorem validateCalls_iff {m : Message} {messageId : String} {e : StorageError} :
    (if m.role ≠ .assistant ∧ m.toolCalls.isSome then do
        throw e
        validateToolCalls messageId [] (m.toolCalls.getD [])
      else validateToolCalls messageId [] (m.toolCalls.getD [])) = .ok () ↔
      (m.role ≠ .assistant → m.toolCalls = none) ∧
        (∀ call ∈ m.toolCalls.getD [],
          Str.isBlank call.id = false ∧ Str.isBlank call.name = false) ∧
        ((m.toolCalls.getD []).map ToolCall.id).Nodup := by
  rw [throw_or_ok, validateToolCalls_iff, not_and, Bool.not_eq_true, Option.isSome_eq_false_iff,
    Option.isNone_iff_eq_none]
  simp

theorem validateMessageShape_iff {m : Message} {context : String} :
    validateMessageShape m context = .ok () ↔ WellShaped m := by
  unfold validateMessageShape
  cases hid : m.id with
  | none =>
    constructor
    · intro h
      cases h
    · rintro ⟨⟨id, hsome, -⟩, -⟩
      rw [hid] at hsome
      cases hsome
  | some id =>
    simp only [throw_or_ok, Bool.not_eq_true]
    have hid' : (∃ id', m.id = some id' ∧ Str.isBlank id' = false) ↔ Str.isBlank id = false := by
      simp [hid]
    cases hrole : m.role <;> cases hcall : m.toolCallId
    case tool.none =>
      constructor
      · rintro ⟨-, h⟩
        cases h
      · intro h
        obtain ⟨callId, hsome, -⟩ := h.tool hrole
        rw [hcall] at hsome
        cases hsome
    case tool.some callId =>
      dsimp only
      rw [throw_or_ok, Bool.not_eq_true, ← hrole, validateCalls_iff]
      constructor
      · rintro ⟨hblank, hblank', hnone, hcalls, hnodup⟩
        exact ⟨hid'.mpr hblank, fun _ => ⟨callId, hcall, hblank'⟩, fun h => absurd hrole h, hnone,
          hcalls, hnodup⟩
      · intro h
        obtain ⟨callId', hsome, hblank'⟩ := h.tool hrole
        obtain rfl := Option.some.inj (hcall.symm.trans hsome)
        exact ⟨hid'.mp h.id, hblank', h.toolCalls, h.calls, h.callIds⟩
    case system.some | user.some | assistant.some =>
      constructor
      · rintro ⟨-, h⟩
        cases h
      · intro h
        have hnone := h.nonTool (by simp [hrole])
        rw [hcall] at hnone
        cases hnone
    case system.none | user.none | assistant.none =>
      have hrest := fun e => @validateCalls_iff m id e
      simp only [hrole] at hrest
      dsimp only
      rw [hrest]
      constructor
      · rintro ⟨hblank, hnone, hcalls, hnodup⟩
        exact ⟨hid'.mpr hblank, fun h => by simp [hrole] at h, fun _ => hcall,
          fun h => hnone (hrole ▸ h), hcalls, hnodup⟩
      · intro h
        exact ⟨hid'.mp h.id, fun hne => h.toolCalls (hrole ▸ hne), h.calls, h.callIds⟩

/-- The mark of a summary under the position lies in front of it. -/
def MarkFits (m : Message) (seq : Nat) : Prop :=
  ∀ mark, m.mark = some mark → 1 ≤ mark.fromSeq ∧ mark.fromSeq ≤ mark.toSeq ∧ mark.toSeq < seq

/-- What the check on an appended message asks for. -/
theorem validateMessageForAppend_iff {m : Message} {seq : Nat} :
    validateMessageForAppend m seq = .ok () ↔ WellShaped m ∧ MarkFits m seq := by
  unfold validateMessageForAppend
  rw [bind_ok, validateMessageShape_iff]
  apply and_congr_right
  intro _
  unfold MarkFits Message.mark
  cases m.metadata.bind MessageMetadata.compaction with
  | none => simp [pure, Except.pure]
  | some mark =>
    simp only [validateCompactionMark, throw_or_ok, throw_unless_ok, Option.some.injEq,
      forall_eq']
    omega

theorem validateMessageForAppend_ok {m : Message} {seq : Nat}
    (h : validateMessageForAppend m seq = .ok ()) : WellShaped m ∧ MarkFits m seq :=
  validateMessageForAppend_iff.mp h

/-! ## Deltas -/

/-- Every message passes its check under the position that follows `start`. -/
def ValidFrom (start : Nat) (delta : List Message) : Prop :=
  ∀ i m, delta[i]? = some m → validateMessageForAppend m (start + i) = .ok ()

theorem validFrom_cons {start : Nat} {m : Message} {delta : List Message} :
    ValidFrom start (m :: delta) ↔
      validateMessageForAppend m start = .ok () ∧ ValidFrom (start + 1) delta := by
  constructor
  · intro h
    refine ⟨h 0 m rfl, fun i m' hm' => ?_⟩
    have hshift := h (i + 1) m' (by simpa using hm')
    rwa [show start + 1 + i = start + (i + 1) by omega]
  · rintro ⟨hm, hdelta⟩ i m' hm'
    cases i with
    | zero =>
      cases hm'
      exact hm
    | succ i =>
      have hshift := hdelta i m' (by simpa using hm')
      rwa [show start + (i + 1) = start + 1 + i by omega]

theorem validFrom_append {start : Nat} {log delta : List Message} :
    ValidFrom start (log ++ delta) ↔ ValidFrom start log ∧ ValidFrom (start + log.length) delta := by
  induction log generalizing start with
  | nil => simp [ValidFrom]
  | cons m log ih =>
    rw [List.cons_append, validFrom_cons, validFrom_cons, ih, List.length_cons, and_assoc,
      show start + 1 + log.length = start + (log.length + 1) by omega]

/-- The ids of a log. -/
def logIds (log : List Message) : List String := log.filterMap Message.id

theorem logIds_append (log delta : List Message) :
    logIds (log ++ delta) = logIds log ++ logIds delta := List.filterMap_append

/-- The loop accepts the messages that are valid where they stand and whose ids are
    new to the log, to the part of the delta gone through and to each other. -/
theorem validateDeltaFrom_iff {existingIds deltaIds : List String} {start : Nat}
    {delta : List Message} :
    validateDeltaFrom existingIds start deltaIds delta = .ok () ↔
      ValidFrom start delta ∧ (logIds delta).Nodup ∧
        ∀ id ∈ logIds delta, id ∉ existingIds ∧ id ∉ deltaIds := by
  induction delta generalizing start deltaIds with
  | nil => simp [validateDeltaFrom, ValidFrom, logIds]
  | cons m delta ih =>
    rw [validateDeltaFrom, bind_ok, validFrom_cons]
    simp only [throw_or_ok, ih]
    constructor
    · rintro ⟨hm, hexisting, hdelta, hvalid, hnodup, hfresh⟩
      obtain ⟨id, hid, -⟩ := (validateMessageForAppend_ok hm).1.id
      simp only [hid, Option.getD_some] at hexisting hdelta hfresh
      have hids : logIds (m :: delta) = id :: logIds delta := by simp [logIds, hid]
      rw [hids, List.nodup_cons]
      refine ⟨⟨hm, hvalid⟩, ⟨fun hmem => (hfresh id hmem).2 List.mem_cons_self, hnodup⟩, ?_⟩
      intro id' hid'
      cases List.mem_cons.mp hid' with
      | inl heq => exact heq ▸ ⟨hexisting, hdelta⟩
      | inr hmem =>
        have hnew := hfresh id' hmem
        exact ⟨hnew.1, fun hin => hnew.2 (List.mem_cons_of_mem _ hin)⟩
    · rintro ⟨⟨hm, hvalid⟩, hnodup, hfresh⟩
      obtain ⟨id, hid, -⟩ := (validateMessageForAppend_ok hm).1.id
      have hids : logIds (m :: delta) = id :: logIds delta := by simp [logIds, hid]
      rw [hids, List.nodup_cons] at hnodup
      rw [hids] at hfresh
      have hnew := hfresh id List.mem_cons_self
      simp only [hid, Option.getD_some]
      refine ⟨hm, hnew.1, hnew.2, hvalid, hnodup.2, ?_⟩
      intro id' hid'
      have hnew' := hfresh id' (List.mem_cons_of_mem _ hid')
      refine ⟨hnew'.1, fun hin => ?_⟩
      cases List.mem_cons.mp hin with
      | inl heq => exact hnodup.1 (heq ▸ hid')
      | inr hin => exact hnew'.2 hin

/-! ## Whole logs -/

/-- Every message passes its check where it stands, and no id occurs twice. -/
structure WellFormedLog (log : List Message) : Prop where
  valid : ValidFrom 1 log
  nodup : (logIds log).Nodup

theorem wellFormedLog_nil : WellFormedLog [] where
  valid := by simp [ValidFrom]
  nodup := List.nodup_nil

/-- A delta is accepted behind a well-formed log when the log stays well formed. -/
theorem validateAppendOnlyDelta_iff {log delta : List Message} (h : WellFormedLog log) :
    validateAppendOnlyDelta log delta = .ok () ↔ WellFormedLog (log ++ delta) := by
  unfold validateAppendOnlyDelta
  rw [validateDeltaFrom_iff]
  constructor
  · rintro ⟨hvalid, hnodup, hfresh⟩
    constructor
    · rw [validFrom_append]
      exact ⟨h.valid, by rwa [Nat.add_comm]⟩
    · rw [logIds_append, List.nodup_append']
      exact ⟨h.nodup, hnodup, fun id hlog hdelta => (hfresh id hdelta).1 hlog⟩
  · rintro ⟨hvalid, hnodup⟩
    rw [validFrom_append] at hvalid
    rw [logIds_append, List.nodup_append'] at hnodup
    refine ⟨by rw [Nat.add_comm]; exact hvalid.2, hnodup.2.1, fun id hdelta => ?_⟩
    exact ⟨fun hlog => hnodup.2.2 hlog hdelta, List.not_mem_nil⟩

/-- The logs that come about by appending accepted deltas. -/
inductive AcceptedLog : List Message → Prop where
  | nil : AcceptedLog []
  | append {log delta : List Message} : AcceptedLog log →
      validateAppendOnlyDelta log delta = .ok () → AcceptedLog (log ++ delta)

theorem acceptedLog_iff {log : List Message} : AcceptedLog log ↔ WellFormedLog log := by
  constructor
  · intro h
    induction h with
    | nil => exact wellFormedLog_nil
    | append _ hdelta ih => exact (validateAppendOnlyDelta_iff ih).mp hdelta
  · intro h
    exact AcceptedLog.append .nil ((validateAppendOnlyDelta_iff wellFormedLog_nil).mpr h)

theorem WellFormedLog.validate {log : List Message} (h : WellFormedLog log) {m : Message}
    (hm : m ∈ log) : ∃ seq, validateMessageForAppend m seq = .ok () := by
  obtain ⟨i, hi⟩ := List.mem_iff_getElem?.mp hm
  exact ⟨1 + i, h.valid i m hi⟩

theorem WellFormedLog.wellShaped {log : List Message} (h : WellFormedLog log) {m : Message}
    (hm : m ∈ log) : WellShaped m := by
  obtain ⟨seq, hseq⟩ := h.validate hm
  exact (validateMessageForAppend_ok hseq).1

end Remo

/-! ## Tool calls and results in the committed view

Providers take a tool result only behind the call it answers. The view filter drops
calls without a result and results that are retracted, but keeps a visible result
whose call is not in the view.
-/

namespace Remo

/-- The ids of the tool calls of a message. -/
def Message.callIds (m : Message) : List String := (m.toolCalls.getD []).map ToolCall.id

/-- A tool message of the visibility names the call. -/
def Marked (view : List Message) (visibility : Visibility) (callId : String) : Prop :=
  ∃ r ∈ view, r.role = .tool ∧ r.visibility = visibility ∧ r.toolCallId = some callId

/-- A message of the assistant makes the call. -/
def Called (view : List Message) (callId : String) : Prop :=
  ∃ a ∈ view, a.role = .assistant ∧ callId ∈ a.callIds

/-- Calls and visible results belong together, and nothing internal is left. -/
structure Paired (view : List Message) : Prop where
  answered : ∀ callId, Called view callId → Marked view .all callId
  called : ∀ r ∈ view, r.role = .tool → ∃ callId, r.toolCallId = some callId ∧ Called view callId
  visible : ∀ r ∈ view, r.role = .tool → r.visibility = .all

/-! ## The filter -/

@[simp] theorem retainAnswered_id (answered retracted : List String) (m : Message) :
    (retainAnswered answered retracted m).id = m.id := by
  unfold retainAnswered
  repeat' split <;> try rfl

theorem mem_toolCallIdsAt {visibility : Visibility} {messages : List Message} {callId : String} :
    callId ∈ toolCallIdsAt visibility messages ↔ Marked messages visibility callId := by
  unfold toolCallIdsAt Marked
  rw [List.mem_filterMap]
  constructor
  · rintro ⟨m, hm, hsome⟩
    split at hsome
    · rename_i h
      exact ⟨m, hm, h.1, h.2, hsome⟩
    · cases hsome
  · rintro ⟨m, hm, hrole, hvisibility, hcall⟩
    exact ⟨m, hm, by simp [hrole, hvisibility, hcall]⟩

section Retain

variable (answered retracted : List String) (m : Message)

@[simp] theorem retainAnswered_role : (retainAnswered answered retracted m).role = m.role := by
  unfold retainAnswered
  repeat' split <;> try rfl

@[simp] theorem retainAnswered_visibility :
    (retainAnswered answered retracted m).visibility = m.visibility := by
  unfold retainAnswered
  repeat' split <;> try rfl

@[simp] theorem retainAnswered_toolCallId :
    (retainAnswered answered retracted m).toolCallId = m.toolCallId := by
  unfold retainAnswered
  repeat' split <;> try rfl

theorem retainAnswered_of_ne (h : m.role ≠ .assistant) :
    retainAnswered answered retracted m = m := by
  unfold retainAnswered
  rw [if_pos h]

/-- The calls left are the answered ones that are not retracted. -/
theorem toolCalls_retainAnswered (h : m.role = .assistant) :
    (retainAnswered answered retracted m).toolCalls.getD [] =
      (m.toolCalls.getD []).filter fun call => call.id ∈ answered ∧ call.id ∉ retracted := by
  unfold retainAnswered
  rw [if_neg (by simp [h])]
  cases hcalls : m.toolCalls with
  | none => simp [hcalls]
  | some calls =>
    show (if _ then none else some _ : Option (List ToolCall)).getD [] = _
    split
    · rename_i hempty
      exact (List.isEmpty_iff.mp hempty).symm
    · rfl

/-- No list of calls is left empty. -/
theorem toolCalls_retainAnswered_ne_nil (h : m.role = .assistant) :
    (retainAnswered answered retracted m).toolCalls ≠ some [] := by
  unfold retainAnswered
  rw [if_neg (by simp [h])]
  cases hcalls : m.toolCalls with
  | none => simp [hcalls]
  | some calls =>
    show (if _ then none else some _ : Option (List ToolCall)) ≠ some []
    split
    · simp
    · rename_i hempty
      intro heq
      exact hempty (List.isEmpty_iff.mpr (Option.some.inj heq))

theorem mem_callIds_retainAnswered (h : m.role = .assistant) {callId : String} :
    callId ∈ (retainAnswered answered retracted m).callIds ↔
      callId ∈ m.callIds ∧ callId ∈ answered ∧ callId ∉ retracted := by
  unfold Message.callIds
  rw [toolCalls_retainAnswered answered retracted m h]
  simp only [List.mem_map, List.mem_filter, decide_eq_true_eq]
  constructor
  · rintro ⟨call, ⟨hmem, hkept⟩, rfl⟩
    exact ⟨⟨call, hmem, rfl⟩, hkept⟩
  · rintro ⟨⟨call, hmem, rfl⟩, hkept⟩
    exact ⟨call, ⟨hmem, hkept⟩, rfl⟩

/-- Calls that are all answered and not retracted are kept as they are. -/
theorem retainAnswered_eq_self (hne : m.role = .assistant → m.toolCalls ≠ some [])
    (h : m.role = .assistant → ∀ callId ∈ m.callIds, callId ∈ answered ∧ callId ∉ retracted) :
    retainAnswered answered retracted m = m := by
  by_cases hrole : m.role = .assistant
  · unfold retainAnswered
    rw [if_neg (by simp [hrole])]
    cases hcalls : m.toolCalls with
    | none => rfl
    | some calls =>
      have hfilter : (calls.filter fun call => call.id ∈ answered ∧ call.id ∉ retracted) = calls := by
        apply List.filter_eq_self.mpr
        intro call hcall
        have hkept := h hrole call.id (by simp [Message.callIds, hcalls]; exact ⟨call, hcall, rfl⟩)
        simp [hkept]
      have hsome : calls ≠ [] := by
        intro hnil
        exact hne hrole (hnil ▸ hcalls)
      simp only [hfilter]
      rw [if_neg (by simpa using hsome), ← hcalls]
  · exact retainAnswered_of_ne answered retracted m hrole

end Retain

/-- What is in the filtered view. -/
theorem mem_strip {messages : List Message} {x : Message} :
    x ∈ stripUnpairedToolCallsFromView messages ↔
      ∃ m ∈ messages, x = retainAnswered (toolCallIdsAt .all messages)
          (toolCallIdsAt .internal messages) m ∧
        (m.role = .tool → ∀ callId, m.toolCallId = some callId →
          m.visibility = .all ∧ ¬Marked messages .internal callId) := by
  unfold stripUnpairedToolCallsFromView
  rw [List.mem_filter, List.mem_map]
  constructor
  · rintro ⟨⟨m, hm, rfl⟩, hkeeps⟩
    refine ⟨m, hm, rfl, fun hrole callId hcall => ?_⟩
    simpa [keepsInView, hrole, hcall, mem_toolCallIdsAt] using hkeeps
  · rintro ⟨m, hm, rfl, hkeeps⟩
    refine ⟨⟨m, hm, rfl⟩, ?_⟩
    cases hcall : m.toolCallId with
    | none => simp [keepsInView, hcall]
    | some callId =>
      by_cases hrole : m.role = .tool
      · simpa [keepsInView, hrole, hcall, mem_toolCallIdsAt] using hkeeps hrole callId hcall
      · simp [keepsInView, hrole]

/-- The results of the filtered view are the visible ones that are not retracted. -/
theorem marked_strip {messages : List Message} {callId : String} {visibility : Visibility} :
    Marked (stripUnpairedToolCallsFromView messages) visibility callId ↔
      visibility = .all ∧ Marked messages .all callId ∧ ¬Marked messages .internal callId := by
  constructor
  · rintro ⟨r, hr, hrole, hvisibility, hcall⟩
    obtain ⟨m, hm, rfl, hkeeps⟩ := mem_strip.mp hr
    simp only [retainAnswered_role, retainAnswered_visibility, retainAnswered_toolCallId]
      at hrole hvisibility hcall
    obtain ⟨hall, hretracted⟩ := hkeeps hrole callId hcall
    exact ⟨hvisibility ▸ hall, ⟨m, hm, hrole, hall, hcall⟩, hretracted⟩
  · rintro ⟨rfl, ⟨m, hm, hrole, hall, hcall⟩, hretracted⟩
    refine ⟨m, mem_strip.mpr ⟨m, hm, ?_, ?_⟩, hrole, hall, hcall⟩
    · exact (retainAnswered_of_ne _ _ _ (by simp [hrole])).symm
    · intro _ callId' hcall'
      obtain rfl := Option.some.inj (hcall.symm.trans hcall')
      exact ⟨hall, hretracted⟩

/-- The calls of the filtered view have a result that is not retracted. -/
theorem called_strip {messages : List Message} {callId : String} :
    Called (stripUnpairedToolCallsFromView messages) callId ↔
      Called messages callId ∧ Marked messages .all callId ∧ ¬Marked messages .internal callId := by
  constructor
  · rintro ⟨a, ha, hrole, hcall⟩
    obtain ⟨m, hm, rfl, -⟩ := mem_strip.mp ha
    rw [retainAnswered_role] at hrole
    rw [mem_callIds_retainAnswered _ _ _ hrole, mem_toolCallIdsAt, mem_toolCallIdsAt] at hcall
    exact ⟨⟨m, hm, hrole, hcall.1⟩, hcall.2⟩
  · rintro ⟨⟨m, hm, hrole, hcall⟩, hkept⟩
    refine ⟨_, mem_strip.mpr ⟨m, hm, rfl, by simp [hrole]⟩, by simpa using hrole, ?_⟩
    rw [mem_callIds_retainAnswered _ _ _ hrole, mem_toolCallIdsAt, mem_toolCallIdsAt]
    exact ⟨hcall, hkept⟩

/-- The filter keeps a view in which calls are answered and nothing is retracted. -/
theorem strip_eq_self {view : List Message}
    (hne : ∀ m ∈ view, m.role = .assistant → m.toolCalls ≠ some [])
    (hanswered : ∀ callId, Called view callId → Marked view .all callId)
    (hvisible : ∀ callId, ¬Marked view .internal callId) :
    stripUnpairedToolCallsFromView view = view := by
  have hretain : view.map (retainAnswered (toolCallIdsAt .all view)
      (toolCallIdsAt .internal view)) = view := by
    conv_rhs => rw [← List.map_id view]
    apply List.map_congr_left
    intro m hm
    apply retainAnswered_eq_self
    · exact hne m hm
    · intro hrole callId hcall
      rw [mem_toolCallIdsAt, mem_toolCallIdsAt]
      exact ⟨hanswered callId ⟨m, hm, hrole, hcall⟩, hvisible callId⟩
  show (view.map _).filter _ = view
  rw [hretain, List.filter_eq_self]
  intro m hm
  unfold keepsInView
  split
  · rfl
  · rename_i hrole
    cases hcall : m.toolCallId with
    | none => rfl
    | some callId =>
      cases hvisibility : m.visibility with
      | all => simp [mem_toolCallIdsAt, hvisible callId]
      | internal =>
        exact absurd ⟨m, hm, not_not.mp hrole, hvisibility, hcall⟩ (hvisible callId)

/-- Filtering a filtered view changes nothing. -/
theorem strip_idempotent (messages : List Message) :
    stripUnpairedToolCallsFromView (stripUnpairedToolCallsFromView messages) =
      stripUnpairedToolCallsFromView messages := by
  apply strip_eq_self
  · intro x hx hrole
    obtain ⟨m, -, rfl, -⟩ := mem_strip.mp hx
    rw [retainAnswered_role] at hrole
    exact toolCalls_retainAnswered_ne_nil _ _ _ hrole
  · intro callId hcalled
    exact marked_strip.mpr ⟨rfl, (called_strip.mp hcalled).2⟩
  · intro callId hmarked
    cases (marked_strip.mp hmarked).1

/-- The filter pairs calls and results when each result it keeps has its call. -/
theorem paired_strip_iff {messages : List Message}
    (htools : ∀ m ∈ messages, m.role = .tool → m.toolCallId.isSome) :
    Paired (stripUnpairedToolCallsFromView messages) ↔
      ∀ callId, Marked messages .all callId → ¬Marked messages .internal callId →
        Called messages callId := by
  constructor
  · intro hpaired callId hmarked hretracted
    obtain ⟨r, hr, hrole, -, hcall⟩ :=
      marked_strip.mpr ⟨rfl, hmarked, hretracted⟩
    obtain ⟨callId', hcall', hcalled⟩ := hpaired.called r hr hrole
    obtain rfl := Option.some.inj (hcall.symm.trans hcall')
    exact (called_strip.mp hcalled).1
  · intro hcalls
    have hresult : ∀ r ∈ stripUnpairedToolCallsFromView messages, r.role = .tool →
        r.visibility = .all ∧ ∃ callId, r.toolCallId = some callId ∧
          Marked messages .all callId ∧ ¬Marked messages .internal callId := by
      intro r hr hrole
      obtain ⟨m, hm, rfl, hkeeps⟩ := mem_strip.mp hr
      rw [retainAnswered_role] at hrole
      obtain ⟨callId, hcall⟩ := Option.isSome_iff_exists.mp (htools m hm hrole)
      obtain ⟨hall, hretracted⟩ := hkeeps hrole callId hcall
      exact ⟨by simpa using hall, callId, by simpa using hcall, ⟨m, hm, hrole, hall, hcall⟩,
        hretracted⟩
    constructor
    case answered =>
      intro callId hcalled
      exact marked_strip.mpr ⟨rfl, (called_strip.mp hcalled).2⟩
    case called =>
      intro r hr hrole
      obtain ⟨-, callId, hcall, hmarked, hretracted⟩ := hresult r hr hrole
      exact ⟨callId, hcall,
        called_strip.mpr ⟨hcalls callId hmarked hretracted, hmarked, hretracted⟩⟩
    case visible => exact fun r hr hrole => (hresult r hr hrole).1

/-! ## The committed view -/

section Records

variable (records : List MessageRecord)

/-- The fold keeps a tool message of the visibility that names the call. -/
def KeepsResult (visibility : Visibility) (callId : String) : Prop :=
  ∃ r, Kept records r ∧ r.message.role = .tool ∧ r.message.visibility = visibility ∧
    r.message.toolCallId = some callId

/-- The fold keeps a message of the assistant that makes the call. -/
def KeepsCall (callId : String) : Prop :=
  ∃ r, Kept records r ∧ r.message.role = .assistant ∧ callId ∈ r.message.callIds

/-- Where the fold keeps a visible result and no marker that retracts it, it keeps the
    call that is answered. -/
def KeepsCallsOfResults : Prop :=
  ∀ callId, KeepsResult records .all callId → ¬KeepsResult records .internal callId →
    KeepsCall records callId

end Records

theorem marked_effectiveMessages {records : List MessageRecord}
    (hseqs : (records.map MessageRecord.seq).Pairwise (· < ·)) {visibility : Visibility}
    {callId : String} :
    Marked (effectiveMessages records) visibility callId ↔
      KeepsResult records visibility callId := by
  unfold Marked KeepsResult
  constructor
  · rintro ⟨m, hm, hresult⟩
    obtain ⟨r, hr, rfl⟩ := (mem_effectiveMessages hseqs).mp hm
    exact ⟨r, hr, hresult⟩
  · rintro ⟨r, hr, hresult⟩
    exact ⟨_, (mem_effectiveMessages hseqs).mpr ⟨r, hr, rfl⟩, hresult⟩

theorem called_effectiveMessages {records : List MessageRecord}
    (hseqs : (records.map MessageRecord.seq).Pairwise (· < ·)) {callId : String} :
    Called (effectiveMessages records) callId ↔ KeepsCall records callId := by
  unfold Called KeepsCall
  constructor
  · rintro ⟨m, hm, hcall⟩
    obtain ⟨r, hr, rfl⟩ := (mem_effectiveMessages hseqs).mp hm
    exact ⟨r, hr, hcall⟩
  · rintro ⟨r, hr, hcall⟩
    exact ⟨_, (mem_effectiveMessages hseqs).mpr ⟨r, hr, rfl⟩, hcall⟩

/-- A tool message of an accepted log names its call. -/
theorem isSome_toolCallId_of_mem_effective {log : List Message} (h : AcceptedLog log)
    {threadId : String} {generated : Nat → Uuid} {m : Message}
    (hm : m ∈ effectiveMessages (committedRecords threadId log generated))
    (hrole : m.role = .tool) : m.toolCallId.isSome := by
  have hseqs : ((committedRecords threadId log generated).map MessageRecord.seq).Pairwise
      (· < ·) := by
    rw [committedRecords_seqs]
    exact List.pairwise_lt_range' 1
  obtain ⟨r, ⟨hr, -⟩, rfl⟩ := (mem_effectiveMessages hseqs).mp hm
  obtain ⟨i, hi, rfl⟩ := List.mem_mapIdx.mp hr
  have hshaped := (acceptedLog_iff.mp h).wellShaped (List.getElem_mem hi)
  obtain ⟨callId, hcall, -⟩ := hshaped.tool hrole
  exact hcall ▸ rfl

/-- The committed view of an accepted log pairs calls and results, and is left alone by
    the filter, exactly when the fold keeps the calls of the results it keeps. -/
theorem effectiveCommittedView_paired_iff (log : List Message) (threadId : String)
    (generated : Nat → Uuid) (h : AcceptedLog log) :
    (Paired (effectiveCommittedView log threadId generated) ∧
      stripUnpairedToolCallsFromView (effectiveCommittedView log threadId generated) =
        effectiveCommittedView log threadId generated) ↔
      KeepsCallsOfResults (committedRecords threadId log generated) := by
  have hseqs : ((committedRecords threadId log generated).map MessageRecord.seq).Pairwise
      (· < ·) := by
    rw [committedRecords_seqs]
    exact List.pairwise_lt_range' 1
  unfold effectiveCommittedView KeepsCallsOfResults
  rw [and_iff_left (strip_idempotent _),
    paired_strip_iff fun m hm => isSome_toolCallId_of_mem_effective h hm]
  simp only [marked_effectiveMessages hseqs, called_effectiveMessages hseqs]

/-- A log whose summary covers a tool call and not its result. -/
def halfCompactedLog : List Message :=
  [.user "question" "m-1",
    { Message.user "calling" "m-2" with
      role := .assistant
      toolCalls := some [⟨"call-1", "search", ⟨"\x7b\x7d"⟩⟩] },
    { Message.user "found" "m-3" with
      role := .tool
      toolCallId := some "call-1" },
    { Message.user "summary" "m-4" with
      metadata := some ⟨none, none, some ⟨1, 2⟩⟩ }]

theorem acceptedLog_halfCompactedLog : AcceptedLog halfCompactedLog :=
  have haccepted : validateAppendOnlyDelta [] halfCompactedLog = .ok () := by decide
  AcceptedLog.append .nil haccepted

theorem effectiveCommittedView_paired_iff_halfCompacted :
    (Paired (effectiveCommittedView halfCompactedLog "t" fun _ => .generated) ∧
      stripUnpairedToolCallsFromView
          (effectiveCommittedView halfCompactedLog "t" fun _ => .generated) =
        effectiveCommittedView halfCompactedLog "t" fun _ => .generated) ↔
      KeepsCallsOfResults (committedRecords "t" halfCompactedLog fun _ => .generated) :=
  effectiveCommittedView_paired_iff halfCompactedLog "t" _ acceptedLog_halfCompactedLog

/-- The result is left without its call. -/
theorem effectiveCommittedView_orphans_result :
    AcceptedLog halfCompactedLog ∧
      ¬(Paired (effectiveCommittedView halfCompactedLog "t" fun _ => .generated) ∧
        stripUnpairedToolCallsFromView
            (effectiveCommittedView halfCompactedLog "t" fun _ => .generated) =
          effectiveCommittedView halfCompactedLog "t" fun _ => .generated) := by
  refine ⟨acceptedLog_halfCompactedLog, fun h => ?_⟩
  have hview : effectiveCommittedView halfCompactedLog "t" (fun _ => .generated) =
      (halfCompactedLog.drop 3) ++ (halfCompactedLog.drop 2).take 1 := by decide
  rw [hview] at h
  obtain ⟨callId, -, a, ha, hrole, -⟩ := h.1.called halfCompactedLog[2] (by decide) (by decide)
  revert a
  decide

end Remo
