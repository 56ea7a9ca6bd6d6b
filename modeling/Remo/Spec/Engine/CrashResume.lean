import Remo.Spec.Engine.StreamedCalls

/-!
# Resuming from a checkpoint

The checkpoint has what the last flushed stream had accumulated, without the messages that earlier
recoveries have put into the request.

## Key results

- `restored_iff`: a snapshot is restored when the arguments of its calls are read back as they are.
- `request_of_flush`: the request of a stream that was flushed.
- `resumesInProcess_iff`: when a restarted inference goes on as recovery in the process would.
-/

namespace Remo

/-! ## The store -/

/-- The effect changes what is stored. -/
def StreamEffect.isStored : StreamEffect → Bool
  | .flushCheckpoint _ _ => true
  | .deleteCheckpoint => true
  | _ => false

def StreamEffect.isOpen : StreamEffect → Bool
  | .openStream _ => true
  | _ => false

theorem storedAfter_append (fromStr : String → Option Value) (handle : CheckpointHandle)
    (stored : Option StreamCheckpoint) (effects more : List StreamEffect) :
    storedAfter fromStr handle stored (effects ++ more) =
      storedAfter fromStr handle (storedAfter fromStr handle stored effects) more := by
  induction effects generalizing stored with
  | nil => rfl
  | cons effect effects ih => cases effect <;> exact ih _

theorem storedAfter_kept (fromStr : String → Option Value) (handle : CheckpointHandle)
    (stored : Option StreamCheckpoint) {effects : List StreamEffect}
    (h : effects.any StreamEffect.isStored = false) :
    storedAfter fromStr handle stored effects = stored := by
  induction effects with
  | nil => rfl
  | cons effect effects ih =>
    rw [List.any_cons, Bool.or_eq_false_iff] at h
    cases effect with
    | flushCheckpoint request acc => cases h.1
    | deleteCheckpoint => cases h.1
    | openStream request => exact ih h.2
    | emit event => exact ih h.2
    | addTokens usage => exact ih h.2
    | recordStreamFailure => exact ih h.2
    | recordStreamSuccess => exact ih h.2

/-! ## Snapshots -/

section Parser

variable (fromStr : String → Option Value)

/-- The arguments of the call are read back as they are, once printed. -/
def ToolCall.ReadsBack (self : ToolCall) : Prop :=
  PartialCall.complete? fromStr ⟨self.id, self.name, self.arguments.canonical⟩ = some self

instance (call : ToolCall) : Decidable (call.ReadsBack fromStr) := by
  unfold ToolCall.ReadsBack
  infer_instance

/-- What is compared of snapshots: the bytes are only counted for telemetry. -/
structure InterruptSnapshot.Same (restored other : InterruptSnapshot) : Prop where
  text : restored.text = other.text
  completed : restored.completedToolCalls = other.completedToolCalls
  inFlight : restored.inFlightTool = other.inFlightTool

theorem joinTexts_ne_empty {texts : List String} (h : ∀ text ∈ texts, text.isEmpty = false) :
    StreamingAccumulator.joinTexts texts ≠ some "" := by
  cases texts with
  | nil =>
    intro heq
    cases heq
  | cons text texts =>
    have hgrow : ∀ (texts : List String) (text : String), text ≠ "" →
        texts.foldl (· ++ ·) text ≠ "" := by
      intro texts
      induction texts with
      | nil => exact fun text hne => hne
      | cons next texts ih =>
        intro text hne
        rw [List.foldl_cons]
        apply ih
        intro happend
        exact hne (String.append_eq_empty_iff.mp happend).1
    intro heq
    apply hgrow texts text _ (Option.some.inj heq)
    intro hempty
    have hfirst := h text List.mem_cons_self
    rw [hempty] at hfirst
    cases hfirst

/-- The text of a snapshot is not empty. -/
theorem snapshot_text_ne_empty (acc : StreamingAccumulator) :
    (acc.interruptSnapshot fromStr).text ≠ some "" := by
  show (if acc.currentText.isEmpty then StreamingAccumulator.joinTexts _
    else some acc.currentText) ≠ some ""
  cases hempty : acc.currentText.isEmpty with
  | true =>
    apply joinTexts_ne_empty
    intro text htext
    simpa using (List.mem_filter.mp htext).2
  | false =>
    intro heq
    rw [Option.some.inj heq] at hempty
    cases hempty

theorem filterMap_eq_self_iff {α β : Type} {f : β → Option α} {g : α → β} {xs : List α} :
    (xs.map g).filterMap f = xs ↔ ∀ x ∈ xs, f (g x) = some x := by
  induction xs with
  | nil => simp
  | cons x xs ih =>
    rw [List.map_cons, List.filterMap_cons, List.forall_mem_cons, ← ih]
    cases hx : f (g x) with
    | none =>
      constructor
      · intro heq
        have hlength := congrArg List.length heq
        have hle := List.length_filterMap_le f (xs.map g)
        rw [List.length_map] at hle
        rw [List.length_cons] at hlength
        dsimp only at hlength
        omega
      · intro h
        cases h.1
    | some y =>
      dsimp only
      rw [List.cons.injEq, Option.some.injEq]

/-- The call in flight is not complete. -/
theorem inFlight_incomplete (acc : StreamingAccumulator) {tool : InFlightTool}
    (h : (acc.interruptSnapshot fromStr).inFlightTool = some tool) :
    PartialCall.complete? fromStr ⟨tool.id, tool.name, tool.partialArgs⟩ = none := by
  have hflight := (fromPartials_calls fromStr (acc.interruptSnapshot fromStr).text acc.partials
    acc.bytesReceived).2
  have hlast := hflight.symm.trans h
  obtain ⟨call, hcall, htool⟩ := Option.map_eq_some_iff.mp hlast
  have hnone := (List.mem_filter.mp (List.mem_of_getLast? hcall)).2
  rw [← htool]
  exact Option.isNone_iff_eq_none.mp hnone

/-- A snapshot is restored when the arguments of its calls are read back as they are. -/
theorem restored_iff (handle : CheckpointHandle) (request : InferenceRequest)
    (acc : StreamingAccumulator) :
    (restoredSnapshot fromStr (flushedCheckpoint fromStr handle request acc)).Same
        (acc.interruptSnapshot fromStr) ↔
      ∀ call ∈ (acc.interruptSnapshot fromStr).completedToolCalls, call.ReadsBack fromStr := by
  have hflight := fun tool => @inFlight_incomplete fromStr acc tool
  have htext := snapshot_text_ne_empty fromStr acc
  obtain ⟨hcompleted, hinFlight⟩ := fromPartials_calls fromStr
    (if (flushedCheckpoint fromStr handle request acc).partialText.isEmpty then none
      else some (flushedCheckpoint fromStr handle request acc).partialText)
    ((flushedCheckpoint fromStr handle request acc).completedToolCalls.map
        (fun call => ⟨call.id, call.name, call.arguments.canonical⟩) ++
      (flushedCheckpoint fromStr handle request acc).inFlightTool.toList.map fun tool =>
        ⟨tool.id, tool.name, tool.partialArgs⟩)
    (byteLen (flushedCheckpoint fromStr handle request acc).partialText)
  unfold flushedCheckpoint at hcompleted hinFlight
  unfold restoredSnapshot flushedCheckpoint
  dsimp only at hcompleted hinFlight ⊢
  generalize acc.interruptSnapshot fromStr = snapshot at hflight htext hcompleted hinFlight ⊢
  have hnone : (snapshot.inFlightTool.toList.map fun tool =>
      (⟨tool.id, tool.name, tool.partialArgs⟩ : PartialCall)).filterMap
        (PartialCall.complete? fromStr) = [] := by
    cases htool : snapshot.inFlightTool with
    | none => rfl
    | some tool =>
      show List.filterMap _ [(⟨tool.id, tool.name, tool.partialArgs⟩ : PartialCall)] = []
      rw [List.filterMap_cons, hflight tool htool]
      rfl
  rw [List.filterMap_append, hnone, List.append_nil] at hcompleted
  constructor
  · intro h
    have hsame := h.completed
    rw [hcompleted] at hsame
    exact filterMap_eq_self_iff.mp hsame
  · intro h
    refine ⟨?_, ?_, ?_⟩
    · show (if (snapshot.text.getD "").isEmpty then none else some (snapshot.text.getD "")) = _
      cases hsnapshot : snapshot.text with
      | none => rfl
      | some text =>
        rw [Option.getD_some, if_neg]
        intro hempty
        apply htext
        rw [hsnapshot, String.isEmpty_iff.mp hempty]
    · rw [hcompleted]
      exact filterMap_eq_self_iff.mpr h
    · rw [hinFlight, List.filter_append]
      have hcomplete : (snapshot.completedToolCalls.map fun call =>
          (⟨call.id, call.name, call.arguments.canonical⟩ : PartialCall)).filter
            (fun call => (call.complete? fromStr).isNone) = [] := by
        rw [List.filter_eq_nil_iff]
        intro call hcall hisNone
        obtain ⟨complete, hmem, heq⟩ := List.mem_map.mp hcall
        have hreads : PartialCall.complete? fromStr
            ⟨complete.id, complete.name, complete.arguments.canonical⟩ = some complete :=
          h complete hmem
        rw [← heq, hreads] at hisNone
        cases hisNone
      rw [hcomplete, List.nil_append]
      cases htool : snapshot.inFlightTool with
      | none => rfl
      | some tool =>
        have hisNone : (PartialCall.complete? fromStr
            ⟨tool.id, tool.name, tool.partialArgs⟩).isNone = true := by
          rw [hflight tool htool]
          rfl
        have hkept : List.filter (fun call => (PartialCall.complete? fromStr call).isNone)
            [(⟨tool.id, tool.name, tool.partialArgs⟩ : PartialCall)] =
            [⟨tool.id, tool.name, tool.partialArgs⟩] := by
          apply List.filter_eq_self.mpr
          intro call hcall
          rw [List.mem_singleton.mp hcall]
          exact hisNone
        show Option.map _ (List.getLast? (List.filter _
          [(⟨tool.id, tool.name, tool.partialArgs⟩ : PartialCall)])) = _
        rw [hkept]
        rfl

/-! ## Requests -/

theorem pushContinuation_messages (request : InferenceRequest) (text : String) :
    request.messages.length < (pushContinuation request text).messages.length := by
  unfold pushContinuation
  dsimp only
  split
  · rw [List.length_append, List.length_singleton]
    omega
  · rw [List.length_append, List.length_append, List.length_singleton, List.length_singleton]
    omega

theorem pushContinuation_inj {request other : InferenceRequest} {text : String}
    (h : pushContinuation request text = pushContinuation other text) : request = other := by
  unfold pushContinuation at h
  dsimp only at h
  obtain ⟨model, messages⟩ := request
  obtain ⟨model', messages'⟩ := other
  obtain ⟨hmodel, hmessages⟩ := InferenceRequest.mk.inj h
  dsimp only at hmodel hmessages
  have hsame : messages = messages' := by
    split at hmessages
    · exact List.append_cancel_right hmessages
    · exact List.append_cancel_right (List.append_cancel_right hmessages)
  rw [hmodel, hsame]

/-- Recovery that opens another stream puts messages into the request, unless it is a restart. -/
theorem applyRecoveryPlan_request {stream : StreamAttempt} {cause : InterruptCause}
    (h : stream.interruption? = some cause) {request next : InferenceRequest}
    (hnext : (applyRecoveryPlan request cause (stream.snapshot fromStr)).2 =
      .retryAfterPlan next) :
    (stream.restarts fromStr = true ∧ next = request) ∨
      stream.restarts fromStr = false ∧ request.messages.length < next.messages.length := by
  have hrestarts : stream.restarts fromStr =
      decide ((stream.snapshot fromStr).plan = .wholeRestart) := by
    unfold StreamAttempt.restarts StreamAttempt.plan?
    rw [h]
    simp
  rw [hrestarts]
  unfold applyRecoveryPlan at hnext
  cases hplan : (stream.snapshot fromStr).plan with
  | continueText text =>
    rw [hplan] at hnext
    cases hnext
    exact .inr ⟨by simp, pushContinuation_messages request text⟩
  | synthesizeToolUse completed hint =>
    rw [hplan] at hnext
    cases hnext
  | truncateBeforeTool text id name =>
    rw [hplan] at hnext
    cases hnext
    exact .inr ⟨by simp, pushContinuation_messages request text⟩
  | wholeRestart =>
    rw [hplan] at hnext
    cases hnext
    exact .inl ⟨by simp, rfl⟩

/-- The flushes of a stream are of its request, behind the opening. -/
theorem flush_of_driveEvents {checkpoint : Option CheckpointHandle}
    {request current : InferenceRequest} {acc flushed : StreamingAccumulator} {deltas : Nat}
    {events : List LlmStreamEvent} :
    (∀ effect ∈ (driveEvents checkpoint request acc deltas events).1, effect.isOpen = false) ∧
      (.flushCheckpoint current flushed ∈ (driveEvents checkpoint request acc deltas events).1 →
        current = request) := by
  induction events generalizing acc deltas with
  | nil => exact ⟨by simp [driveEvents], by simp [driveEvents]⟩
  | cons event events ih =>
    have hfed : (∀ effect ∈ (acc.feed event).1, effect.isOpen = false) ∧
        .flushCheckpoint current flushed ∉ (acc.feed event).1 := by
      cases event <;> simp [StreamingAccumulator.feed, StreamEffect.isOpen]
    have hflush : ∀ acc : StreamingAccumulator,
        (∀ effect ∈ flushEffects checkpoint request acc, effect.isOpen = false) ∧
          (.flushCheckpoint current flushed ∈ flushEffects checkpoint request acc →
            current = request) := by
      intro acc
      unfold flushEffects
      split
      · constructor
        · intro effect heffect
          rw [List.mem_singleton.mp heffect]
          rfl
        · intro hmem
          exact (StreamEffect.flushCheckpoint.inj (List.mem_singleton.mp hmem)).1
      · constructor
        · intro effect heffect
          exact absurd heffect List.not_mem_nil
        · intro hmem
          exact absurd hmem List.not_mem_nil
    unfold driveEvents
    dsimp only
    generalize (if (acc.feed event).2.1 then deltas + 1 else deltas) = next
    by_cases hdue : ((acc.feed event).2.1 && decide (checkpointFlushDeltas ≤ next)) = true
    · rw [if_pos hdue]
      constructor
      · intro effect heffect
        rw [List.mem_append, List.mem_append] at heffect
        obtain (hfirst | hsecond) | hthird := heffect
        · exact hfed.1 effect hfirst
        · exact (hflush _).1 effect hsecond
        · exact ih.1 effect hthird
      · intro hmem
        rw [List.mem_append, List.mem_append] at hmem
        obtain (hfirst | hsecond) | hthird := hmem
        · exact absurd hfirst hfed.2
        · exact (hflush _).2 hsecond
        · exact ih.2 hthird
    · rw [if_neg hdue]
      constructor
      · intro effect heffect
        rw [List.mem_append] at heffect
        cases heffect with
        | inl hfirst => exact hfed.1 effect hfirst
        | inr hrest => exact ih.1 effect hrest
      · intro hmem
        rw [List.mem_append] at hmem
        cases hmem with
        | inl hfirst => exact absurd hfirst hfed.2
        | inr hrest => exact ih.2 hrest

/-- Neither an opening nor a flush nor a delete. -/
def StreamEffect.isNotice : StreamEffect → Bool
  | .openStream _ => false
  | .flushCheckpoint _ _ => false
  | .deleteCheckpoint => false
  | _ => true

theorem applyRecoveryPlan_notices (request : InferenceRequest) (cause : InterruptCause)
    (snapshot : InterruptSnapshot) :
    ∀ effect ∈ (applyRecoveryPlan request cause snapshot).1, effect.isNotice = true := by
  unfold applyRecoveryPlan
  intro effect heffect
  cases hplan : snapshot.plan with
  | continueText text =>
    rw [hplan] at heffect
    exact absurd heffect List.not_mem_nil
  | truncateBeforeTool text id name =>
    rw [hplan] at heffect
    rw [List.mem_singleton.mp heffect]
    rfl
  | wholeRestart =>
    rw [hplan] at heffect
    rw [List.mem_singleton.mp heffect]
    rfl
  | synthesizeToolUse completed hint =>
    rw [hplan] at heffect
    cases List.mem_append.mp heffect with
    | inl hcancel =>
      obtain ⟨tool, -, heq⟩ := List.mem_map.mp hcancel
      rw [← heq]
      rfl
    | inr hready =>
      obtain ⟨call, -, heq⟩ := List.mem_map.mp hready
      rw [← heq]
      rfl

/-- A stream is opened for its request, and flushed for it. -/
theorem driveOneStream_effects (checkpoint : Option CheckpointHandle)
    (request : InferenceRequest) (stream : StreamAttempt) :
    ∃ tail, (driveOneStream fromStr checkpoint request stream).1 = .openStream request :: tail ∧
      (∀ effect ∈ tail, effect.isOpen = false) ∧
      ∀ current acc, .flushCheckpoint current acc ∈ tail → current = request := by
  cases stream with
  | refused error => exact ⟨[], rfl, by simp, by simp⟩
  | opened events ending =>
    have hdriven := fun current flushed =>
      @flush_of_driveEvents checkpoint request current .default flushed 0 events
    have hflushed : ∀ acc : StreamingAccumulator, ∀ effect ∈
        flushEffects checkpoint request acc ++ [.recordStreamFailure],
        effect.isOpen = false ∧ ∀ current flushed, effect = .flushCheckpoint current flushed →
          current = request := by
      intro acc effect heffect
      cases List.mem_append.mp heffect with
      | inl hflush =>
        unfold flushEffects at hflush
        split at hflush
        · rw [List.mem_singleton.mp hflush]
          refine ⟨rfl, ?_⟩
          intro current flushed heq
          exact (StreamEffect.flushCheckpoint.inj heq).1.symm
        · exact absurd hflush List.not_mem_nil
      | inr hfailure =>
        rw [List.mem_singleton.mp hfailure]
        refine ⟨rfl, ?_⟩
        intro current flushed heq
        cases heq
    have hinterrupted : ∀ acc : StreamingAccumulator,
        (∀ effect ∈ (driveEvents checkpoint request .default 0 events).1 ++
          (flushEffects checkpoint request acc ++ [.recordStreamFailure]),
            effect.isOpen = false) ∧
        ∀ current flushed, .flushCheckpoint current flushed ∈
          (driveEvents checkpoint request .default 0 events).1 ++
            (flushEffects checkpoint request acc ++ [.recordStreamFailure]) →
          current = request := by
      intro acc
      constructor
      · intro effect heffect
        cases List.mem_append.mp heffect with
        | inl hfirst => exact (hdriven request acc).1 effect hfirst
        | inr hrest => exact (hflushed acc effect hrest).1
      · intro current flushed hmem
        cases List.mem_append.mp hmem with
        | inl hfirst => exact (hdriven current flushed).2 hfirst
        | inr hrest => exact (hflushed acc _ hrest).2 current flushed rfl
    cases ending with
    | drained =>
      refine ⟨(driveEvents checkpoint request .default 0 events).1 ++
        (((driveEvents checkpoint request .default 0 events).2.finalize fromStr).1 ++
          [.recordStreamSuccess]), ?_, ?_, ?_⟩
      · unfold driveOneStream
        dsimp only
        rw [List.cons_append, List.cons_append, List.append_assoc]
      · intro effect heffect
        cases List.mem_append.mp heffect with
        | inl hfirst => exact (hdriven request .default).1 effect hfirst
        | inr hrest =>
          cases List.mem_append.mp hrest with
          | inl hready =>
            obtain ⟨call, -, heq⟩ := List.mem_map.mp hready
            rw [← heq]
            rfl
          | inr hsuccess =>
            rw [List.mem_singleton.mp hsuccess]
            rfl
      · intro current flushed hmem
        cases List.mem_append.mp hmem with
        | inl hfirst => exact (hdriven current flushed).2 hfirst
        | inr hrest =>
          cases List.mem_append.mp hrest with
          | inl hready =>
            obtain ⟨call, -, heq⟩ := List.mem_map.mp hready
            cases heq
          | inr hsuccess => cases List.mem_singleton.mp hsuccess
    | stalled =>
      refine ⟨_, ?_, hinterrupted (driveEvents checkpoint request .default 0 events).2⟩
      unfold driveOneStream
      dsimp only
      rw [List.cons_append, List.cons_append, List.append_assoc]
    | failed error =>
      refine ⟨_, ?_, hinterrupted (driveEvents checkpoint request .default 0 events).2⟩
      unfold driveOneStream
      dsimp only
      rw [List.cons_append, List.cons_append, List.append_assoc]

theorem countP_isOpen_eq_zero {effects : List StreamEffect}
    (h : ∀ effect ∈ effects, effect.isOpen = false) : effects.countP StreamEffect.isOpen = 0 := by
  rw [List.countP_eq_zero]
  intro effect heffect
  rw [h effect heffect]
  exact Bool.false_ne_true

/-- The request of a flush is the first one when all streams before are restarted, and has more
    messages otherwise. -/
theorem request_of_flush {checkpoint : Option CheckpointHandle} {maxRetries attempt : Nat}
    {request current : InferenceRequest} {streams : List StreamAttempt}
    {acc : StreamingAccumulator} {pre rest : List StreamEffect}
    (h : (driveStreams fromStr maxRetries checkpoint attempt request streams).1 =
      pre ++ .flushCheckpoint current acc :: rest) :
    0 < pre.countP StreamEffect.isOpen ∧
      (((∀ stream ∈ streams.take (pre.countP StreamEffect.isOpen - 1),
            stream.restarts fromStr = true) ∧ current = request) ∨
        (∃ stream ∈ streams.take (pre.countP StreamEffect.isOpen - 1),
            stream.restarts fromStr = false) ∧
          request.messages.length < current.messages.length) := by
  induction streams generalizing attempt request pre with
  | nil =>
    have hmem : .flushCheckpoint current acc ∈ [StreamEffect.openStream request] := by
      have hall : [StreamEffect.openStream request] = pre ++ .flushCheckpoint current acc :: rest :=
        h
      rw [hall]
      exact List.mem_append_right _ List.mem_cons_self
    cases List.mem_singleton.mp hmem
  | cons stream streams ih =>
    obtain ⟨tail, hdriven, hopens, hflushes⟩ :=
      driveOneStream_effects fromStr checkpoint request stream
    -- a flush of this stream
    have hown : ∀ between, (driveOneStream fromStr checkpoint request stream).1 =
        pre ++ .flushCheckpoint current acc :: between →
        pre.countP StreamEffect.isOpen = 1 ∧ current = request := by
      intro between hsplit
      rw [hdriven] at hsplit
      cases pre with
      | nil => cases (List.cons.inj hsplit).1
      | cons effect pre =>
        obtain ⟨hopen, htail⟩ := List.cons.inj hsplit
        have hnone : pre.countP StreamEffect.isOpen = 0 := by
          apply countP_isOpen_eq_zero
          intro effect heffect
          apply hopens
          rw [htail]
          exact List.mem_append_left _ heffect
        rw [← hopen, List.countP_cons, hnone]
        refine ⟨rfl, hflushes current acc ?_⟩
        rw [htail]
        exact List.mem_append_right _ List.mem_cons_self
    have hfirst : ∀ more, (driveOneStream fromStr checkpoint request stream).1 ++ more =
        pre ++ .flushCheckpoint current acc :: rest →
        .flushCheckpoint current acc ∉ more →
        0 < pre.countP StreamEffect.isOpen ∧
          (((∀ s ∈ (stream :: streams).take (pre.countP StreamEffect.isOpen - 1),
                s.restarts fromStr = true) ∧ current = request) ∨
            (∃ s ∈ (stream :: streams).take (pre.countP StreamEffect.isOpen - 1),
                s.restarts fromStr = false) ∧
              request.messages.length < current.messages.length) := by
      intro more hsplit hnot
      cases append_eq_split hsplit with
      | inl hhere =>
        obtain ⟨between, hin, -⟩ := hhere
        obtain ⟨hcount, hsame⟩ := hown between hin
        rw [hcount]
        refine ⟨Nat.zero_lt_one, .inl ⟨?_, hsame⟩⟩
        intro s hs
        exact absurd hs List.not_mem_nil
      | inr hlater =>
        obtain ⟨between, -, hmore⟩ := hlater
        apply absurd _ hnot
        rw [hmore]
        exact List.mem_append_right _ List.mem_cons_self
    have hdelete : .flushCheckpoint current acc ∉ deleteEffects checkpoint := by
      unfold deleteEffects
      split <;> simp
    unfold driveStreams at h
    dsimp only at h
    cases hdriven' : (driveOneStream fromStr checkpoint request stream).2 with
    | completed result =>
      rw [hdriven'] at h
      exact hfirst _ h hdelete
    | error error =>
      rw [hdriven'] at h
      exact hfirst [] ((List.append_nil _).trans h) List.not_mem_nil
    | interrupted cause snapshot =>
      rw [hdriven'] at h
      dsimp only at h
      have hspec : stream.interruption? = some cause ∧ snapshot = stream.snapshot fromStr := by
        cases stream.driveOneStream_spec fromStr checkpoint request with
        | inl herror =>
          obtain ⟨error, herror⟩ := herror
          rw [hdriven'] at herror
          cases herror
        | inr hrest =>
          cases hrest with
          | inl hinterrupted =>
            obtain ⟨cause', hcause, houtcome, -⟩ := hinterrupted
            rw [hdriven'] at houtcome
            cases houtcome
            exact ⟨hcause, rfl⟩
          | inr hcompleted =>
            obtain ⟨-, result, hresult, -⟩ := hcompleted
            rw [hdriven'] at hresult
            cases hresult
      split at h
      · exact hfirst [] ((List.append_nil _).trans h) List.not_mem_nil
      · have hnotices := applyRecoveryPlan_notices request cause snapshot
        have hrecovery : .flushCheckpoint current acc ∉
            (applyRecoveryPlan request cause snapshot).1 := by
          intro hmem
          cases hnotices _ hmem
        cases houtcome : (applyRecoveryPlan request cause snapshot).2 with
        | synthesizedToolUse result hint =>
          rw [houtcome] at h
          dsimp only at h
          rw [List.append_assoc] at h
          refine hfirst _ h ?_
          intro hmem
          cases List.mem_append.mp hmem with
          | inl hin => exact hrecovery hin
          | inr hin => exact hdelete hin
        | retryAfterPlan next =>
          rw [houtcome] at h
          dsimp only at h
          cases append_eq_split h with
          | inl hhere =>
            obtain ⟨between, hin, -⟩ := hhere
            cases append_eq_split hin with
            | inl hdrivenFlush =>
              obtain ⟨inner, hinner, -⟩ := hdrivenFlush
              obtain ⟨hcount, hsame⟩ := hown inner hinner
              rw [hcount]
              refine ⟨Nat.zero_lt_one, .inl ⟨?_, hsame⟩⟩
              intro s hs
              exact absurd hs List.not_mem_nil
            | inr hrecoveryFlush =>
              obtain ⟨inner, -, hinner⟩ := hrecoveryFlush
              apply absurd _ hrecovery
              rw [hinner]
              exact List.mem_append_right _ List.mem_cons_self
          | inr hlater =>
            obtain ⟨between, hpre, hrest⟩ := hlater
            obtain ⟨hpos, hcases⟩ := ih hrest
            have hcount : pre.countP StreamEffect.isOpen =
                between.countP StreamEffect.isOpen + 1 := by
              have hzero : (applyRecoveryPlan request cause snapshot).1.countP
                  StreamEffect.isOpen = 0 := by
                apply countP_isOpen_eq_zero
                intro effect heffect
                have hnotice := hnotices effect heffect
                cases effect <;> first | rfl | cases hnotice
              rw [hpre, List.countP_append, List.countP_append, hzero, hdriven, List.countP_cons,
                countP_isOpen_eq_zero hopens]
              show 0 + 1 + 0 + _ = _
              omega
            have htake : (stream :: streams).take (pre.countP StreamEffect.isOpen - 1) =
                stream :: streams.take (between.countP StreamEffect.isOpen - 1) := by
              rw [hcount]
              obtain ⟨n, hn⟩ := Nat.exists_eq_succ_of_ne_zero (Nat.ne_of_gt hpos)
              rw [hn]
              rfl
            rw [htake]
            refine ⟨by omega, ?_⟩
            have hnext := applyRecoveryPlan_request fromStr hspec.1 (hspec.2 ▸ houtcome)
            cases hnext with
            | inl hrestart =>
              rw [hrestart.2] at hcases
              cases hcases with
              | inl hall => exact .inl ⟨List.forall_mem_cons.mpr ⟨hrestart.1, hall.1⟩, hall.2⟩
              | inr hsome =>
                obtain ⟨⟨s, hs, hnot⟩, hlength⟩ := hsome
                exact .inr ⟨⟨s, List.mem_cons_of_mem _ hs, hnot⟩, hlength⟩
            | inr hkept =>
              refine .inr ⟨⟨stream, List.mem_cons_self, hkept.1⟩, ?_⟩
              cases hcases with
              | inl hall =>
                rw [hall.2]
                exact hkept.2
              | inr hsome => exact Nat.lt_trans hkept.2 hsome.2

/-! ## Crashes -/

/-- What the checkpoint has is what the stream had accumulated, it is restored unchanged, and the
    restarted inference goes on as recovery in the process would: with the same request for the next
    stream, or with the same result. -/
structure ResumesInProcess (request current : InferenceRequest) (acc : StreamingAccumulator)
    (saved : StreamCheckpoint) : Prop where
  text : saved.partialText = (acc.interruptSnapshot fromStr).text.getD ""
  completed : saved.completedToolCalls = (acc.interruptSnapshot fromStr).completedToolCalls
  inFlight : saved.inFlightTool = (acc.interruptSnapshot fromStr).inFlightTool
  restored : (restoredSnapshot fromStr saved).Same (acc.interruptSnapshot fromStr)
  goesOn : ∀ cause,
    (applyRecoveryPlan request .resumedFromCheckpoint (restoredSnapshot fromStr saved)).2 =
      (applyRecoveryPlan current cause (acc.interruptSnapshot fromStr)).2

/-- Recovery from the same snapshot differs by the request only. -/
theorem applyRecoveryPlan_same {request current : InferenceRequest}
    {snapshot other : InterruptSnapshot} (h : snapshot.Same other) (cause cause' : InterruptCause) :
    (applyRecoveryPlan request cause snapshot).2 = (applyRecoveryPlan current cause' other).2 ↔
      other.completedToolCalls ≠ [] ∨ request = current := by
  have hplan : snapshot.plan = other.plan := by
    unfold InterruptSnapshot.plan
    rw [h.text, h.completed, h.inFlight]
  unfold applyRecoveryPlan
  rw [hplan]
  cases other.plan_cases with
  | inl hsynth =>
    rw [hsynth.1]
    dsimp only
    rw [h.text]
    exact ⟨fun _ => .inl hsynth.2, fun _ => rfl⟩
  | inr hnone =>
    obtain ⟨hcompleted, hrest⟩ := hnone
    have hiff : ∀ {P : Prop}, (P ↔ request = current) →
        (P ↔ other.completedToolCalls ≠ [] ∨ request = current) := by
      intro P hP
      rw [hP, hcompleted]
      simp
    apply hiff
    have hcontinue : ∀ text, RecoveryOutcome.retryAfterPlan (pushContinuation request text) =
        .retryAfterPlan (pushContinuation current text) ↔ request = current := by
      intro text
      constructor
      · intro heq
        exact pushContinuation_inj (RecoveryOutcome.retryAfterPlan.inj heq)
      · intro heq
        rw [heq]
    cases hrest with
    | inl htruncate =>
      obtain ⟨text, tool, -, hplan'⟩ := htruncate
      rw [hplan']
      exact hcontinue text
    | inr hrest =>
      cases hrest with
      | inl htext =>
        obtain ⟨text, -, hplan'⟩ := htext
        rw [hplan']
        exact hcontinue text
      | inr hrestart =>
        rw [hrestart]
        dsimp only
        rw [RecoveryOutcome.retryAfterPlan.injEq]

/-- After a crash the checkpoint of the last flush is stored. The restarted inference goes on as
    recovery in the process would exactly when the arguments of the complete calls are read back as
    they are, and there is such a call or every stream before the flushed one was restarted. -/
theorem resumesInProcess_iff (maxRetries : Nat) (handle : CheckpointHandle)
    (request : InferenceRequest) (streams : List StreamAttempt) {pre mid rest : List StreamEffect}
    {current : InferenceRequest} {acc : StreamingAccumulator}
    (hrun : (executeStreaming fromStr maxRetries (some handle) none request streams).1 =
      pre ++ .flushCheckpoint current acc :: (mid ++ rest))
    (hmid : mid.any StreamEffect.isStored = false) :
    ∃ saved, storedAfter fromStr handle none (pre ++ .flushCheckpoint current acc :: mid) =
        some saved ∧
      (ResumesInProcess fromStr request current acc saved ↔
        (∀ call ∈ (acc.interruptSnapshot fromStr).completedToolCalls, call.ReadsBack fromStr) ∧
          ((acc.interruptSnapshot fromStr).completedToolCalls ≠ [] ∨
            ∀ stream ∈ streams.take (pre.countP StreamEffect.isOpen - 1),
              stream.restarts fromStr = true)) := by
  refine ⟨flushedCheckpoint fromStr handle current acc, ?_, ?_⟩
  · rw [storedAfter_append]
    exact storedAfter_kept fromStr handle _ hmid
  · have hrestored := restored_iff fromStr handle current acc
    have hrequest : request = current ↔
        ∀ stream ∈ streams.take (pre.countP StreamEffect.isOpen - 1),
          stream.restarts fromStr = true := by
      cases (request_of_flush fromStr hrun).2 with
      | inl hall => exact ⟨fun _ => hall.1, fun _ => hall.2.symm⟩
      | inr hsome =>
        obtain ⟨⟨stream, hstream, hkept⟩, hlength⟩ := hsome
        constructor
        · intro heq
          rw [heq] at hlength
          exact absurd hlength (Nat.lt_irrefl _)
        · intro hall
          rw [hall stream hstream] at hkept
          cases hkept
    constructor
    · intro h
      refine ⟨hrestored.mp h.restored, ?_⟩
      rw [← hrequest]
      exact (applyRecoveryPlan_same h.restored _ .idleStall).mp (h.goesOn .idleStall)
    · intro h
      have hsame := hrestored.mpr h.1
      refine ⟨rfl, rfl, rfl, hsame, ?_⟩
      intro cause
      apply (applyRecoveryPlan_same hsame _ cause).mpr
      rw [hrequest]
      exact h.2

end Parser

/-- A crash behind the first flush of the first stream. -/
theorem resumesInProcess_firstStream : ∃ saved,
    storedAfter parseEmptyObject ⟨"run", "thread"⟩ none
        ([.openStream ⟨"model", []⟩, .emit (.textDelta "A"), .emit (.textDelta "B"),
          .emit (.textDelta "C"), .emit (.textDelta "D")] ++
          .flushCheckpoint ⟨"model", []⟩
            ⟨[], none, none, "ABCD", .empty, .empty, [], 0⟩ :: [.emit (.textDelta "E")]) =
        some saved ∧
      ResumesInProcess parseEmptyObject ⟨"model", []⟩ ⟨"model", []⟩
        ⟨[], none, none, "ABCD", .empty, .empty, [], 0⟩ saved := by
  have h := @resumesInProcess_iff parseEmptyObject 3 ⟨"run", "thread"⟩ ⟨"model", []⟩
    [.opened [.textDelta "A", .textDelta "B", .textDelta "C", .textDelta "D", .textDelta "E"]
      .drained]
    [.openStream ⟨"model", []⟩, .emit (.textDelta "A"), .emit (.textDelta "B"),
      .emit (.textDelta "C"), .emit (.textDelta "D")]
    [.emit (.textDelta "E")] [.recordStreamSuccess, .deleteCheckpoint] ⟨"model", []⟩
    ⟨[], none, none, "ABCD", .empty, .empty, [], 0⟩ rfl rfl
  obtain ⟨saved, hstored, hiff⟩ := h
  exact ⟨saved, hstored, hiff.mpr ⟨by decide, .inr (by decide)⟩⟩

/-- The text of the first stream is lost when the second one was flushed. -/
theorem resumesInProcess_fails :
    (executeStreaming parseEmptyObject 3 (some ⟨"run", "thread"⟩) none ⟨"model", []⟩
        [.opened [.textDelta "A"] .stalled, .opened [.textDelta "B"] .stalled]).1.take 9 =
      [.openStream ⟨"model", []⟩, .emit (.textDelta "A"),
        .flushCheckpoint ⟨"model", []⟩ ⟨[], none, none, "A", .empty, .empty, [], 0⟩,
        .recordStreamFailure, .openStream (pushContinuation ⟨"model", []⟩ "A"),
        .emit (.textDelta "B"),
        .flushCheckpoint (pushContinuation ⟨"model", []⟩ "A")
          ⟨[], none, none, "B", .empty, .empty, [], 0⟩,
        .recordStreamFailure,
        .openStream (pushContinuation (pushContinuation ⟨"model", []⟩ "A") "B")] ∧
      (executeStreaming parseEmptyObject 3 (some ⟨"run", "thread"⟩)
        (some ⟨"run", "thread", "model", "B", [], none⟩) ⟨"model", []⟩ []).1 =
        [.openStream (pushContinuation ⟨"model", []⟩ "B")] ∧
      ¬ResumesInProcess parseEmptyObject ⟨"model", []⟩ (pushContinuation ⟨"model", []⟩ "A")
        ⟨[], none, none, "B", .empty, .empty, [], 0⟩
        ⟨"run", "thread", "model", "B", [], none⟩ := by
  refine ⟨rfl, rfl, ?_⟩
  intro h
  have hsame := h.goesOn .idleStall
  have hlength : (pushContinuation ⟨"model", []⟩ "B") =
      pushContinuation (pushContinuation ⟨"model", []⟩ "A") "B" :=
    RecoveryOutcome.retryAfterPlan.inj hsame
  exact absurd (congrArg (fun request => request.messages.length) hlength) (by decide)

end Remo
