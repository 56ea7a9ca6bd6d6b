import Remo.ForStd.AfterLast
import Remo.Native.Engine.Inference

/-!
# What one stream emits

The events of a stream are emitted as they come. Behind them every complete call is ready, and the
last one of the others is cancelled when the stream was interrupted.

## Key results

- `driveEvents_spec`: the accumulator and the events of a stream do not depend on the flushes.
- `fromPartials_calls`: the complete calls of a snapshot, and the one in flight.
- `driveOneStream_events`: what a stream and the recovery from it emit.
-/

namespace Remo

/-! ## Events -/

/-- The event that is emitted. -/
def StreamEffect.event? : StreamEffect → Option SinkEvent
  | .emit event => some event
  | _ => none

/-- The emitted events of some effects. -/
def emitted (effects : List StreamEffect) : List SinkEvent := effects.filterMap StreamEffect.event?

theorem emitted_append (effects more : List StreamEffect) :
    emitted (effects ++ more) = emitted effects ++ emitted more := List.filterMap_append

@[simp] theorem emitted_flush (checkpoint : Option CheckpointHandle) (request : InferenceRequest)
    (acc : StreamingAccumulator) : emitted (flushEffects checkpoint request acc) = [] := by
  cases checkpoint <;> rfl

@[simp] theorem emitted_delete (checkpoint : Option CheckpointHandle) :
    emitted (deleteEffects checkpoint) = [] := by
  cases checkpoint <;> rfl

@[simp] theorem emitted_ready (calls : List ToolCall) :
    emitted (calls.map StreamingAccumulator.readyEvent) =
      calls.map fun call => .toolCallReady call.id call.name call.arguments := by
  induction calls with
  | nil => rfl
  | cons call calls ih => exact congrArg (SinkEvent.toolCallReady _ _ _ :: ·) ih

/-- What is emitted for an event of a stream. -/
def LlmStreamEvent.sink? : LlmStreamEvent → Option SinkEvent
  | .textDelta delta => some (.textDelta delta)
  | .reasoningDelta delta => some (.reasoningDelta delta)
  | .toolCallStart id name => some (.toolCallStart id name)
  | .toolCallDelta id argsDelta => some (.toolCallDelta id argsDelta)
  | _ => none

/-- The call that an event starts. -/
def LlmStreamEvent.startId? : LlmStreamEvent → Option String
  | .toolCallStart id _ => some id
  | _ => none

namespace StreamingAccumulator

theorem emitted_feed (acc : StreamingAccumulator) (event : LlmStreamEvent) :
    emitted (acc.feed event).1 = event.sink?.toList := by
  cases event <;> rfl

theorem toolOrder_feed (acc : StreamingAccumulator) (event : LlmStreamEvent) :
    (acc.feed event).2.2.toolOrder = acc.toolOrder ++ event.startId?.toList := by
  have hnone : acc.toolOrder = acc.toolOrder ++ [] := (List.append_nil _).symm
  cases event with
  | toolCallDelta id argsDelta =>
    have hkept : (acc.feed (.toolCallDelta id argsDelta)).2.2.toolOrder = acc.toolOrder := by
      unfold feed
      dsimp only
      cases acc.currentToolArgs.get? id <;> rfl
    rw [hkept]
    exact hnone
  | contentBlockStop =>
    have hkept : (acc.feed .contentBlockStop).2.2.toolOrder = acc.toolOrder := by
      unfold feed
      dsimp only
      cases acc.currentText.isEmpty <;> rfl
    rw [hkept]
    exact hnone
  | toolCallStart id name => rfl
  | textDelta delta => exact hnone
  | reasoningDelta delta => exact hnone
  | usage u => exact hnone
  | stop reason => exact hnone

/-- The accumulator behind some events of a stream. -/
def afterEvents (events : List LlmStreamEvent) : StreamingAccumulator :=
  events.foldl (fun acc event => (acc.feed event).2.2) .default

theorem toolOrder_foldl (events : List LlmStreamEvent) (acc : StreamingAccumulator) :
    (events.foldl (fun acc event => (acc.feed event).2.2) acc).toolOrder =
      acc.toolOrder ++ events.filterMap LlmStreamEvent.startId? := by
  induction events generalizing acc with
  | nil => exact (List.append_nil _).symm
  | cons event events ih =>
    rw [List.foldl_cons, ih, toolOrder_feed, List.append_assoc, List.filterMap_cons]
    cases event.startId? <;> rfl

/-- The calls of a stream are those that were started. -/
theorem partials_ids (events : List LlmStreamEvent) :
    (afterEvents events).partials.map PartialCall.id =
      events.filterMap LlmStreamEvent.startId? := by
  have horder := toolOrder_foldl events .default
  unfold partials
  rw [List.map_map]
  exact (List.map_id _).trans horder

end StreamingAccumulator

/-- The accumulator and the events of a stream do not depend on the flushes. -/
theorem driveEvents_spec (checkpoint : Option CheckpointHandle) (request : InferenceRequest)
    (acc : StreamingAccumulator) (deltas : Nat) (events : List LlmStreamEvent) :
    emitted (driveEvents checkpoint request acc deltas events).1 =
        events.filterMap LlmStreamEvent.sink? ∧
      (driveEvents checkpoint request acc deltas events).2 =
        events.foldl (fun acc event => (acc.feed event).2.2) acc := by
  induction events generalizing acc deltas with
  | nil => exact ⟨rfl, rfl⟩
  | cons event events ih =>
    have hhead : emitted (acc.feed event).1 ++ events.filterMap LlmStreamEvent.sink? =
        (event :: events).filterMap LlmStreamEvent.sink? := by
      rw [StreamingAccumulator.emitted_feed, List.filterMap_cons]
      cases event.sink? <;> rfl
    unfold driveEvents
    dsimp only
    generalize (if (acc.feed event).2.1 then deltas + 1 else deltas) = next
    by_cases hflush : ((acc.feed event).2.1 && decide (checkpointFlushDeltas ≤ next)) = true
    · obtain ⟨hevents, hacc⟩ := ih (acc.feed event).2.2 0
      rw [if_pos hflush]
      refine ⟨?_, hacc⟩
      dsimp only
      rw [emitted_append, emitted_append, emitted_flush, List.append_nil, hevents, hhead]
    · obtain ⟨hevents, hacc⟩ := ih (acc.feed event).2.2 next
      rw [if_neg hflush]
      refine ⟨?_, hacc⟩
      dsimp only
      rw [emitted_append, hevents, hhead]

/-! ## Calls -/

section Parser

variable (fromStr : String → Option Value)

theorem foldl_takePartial (calls : List PartialCall) (completed : List ToolCall)
    (inFlight : Option InFlightTool) :
    calls.foldl (takePartial fromStr) (completed, inFlight) =
      (completed ++ calls.filterMap (PartialCall.complete? fromStr),
        ((calls.filter fun call => (call.complete? fromStr).isNone).getLast?.map
          PartialCall.inFlight).or inFlight) := by
  induction calls generalizing completed inFlight with
  | nil => simp
  | cons call calls ih =>
    rw [List.foldl_cons]
    cases hcall : call.complete? fromStr with
    | some complete =>
      have htaken : takePartial fromStr (completed, inFlight) call =
          (completed ++ [complete], inFlight) := by
        unfold takePartial
        rw [hcall]
      rw [htaken, ih, List.filterMap_cons, hcall, List.filter_cons_of_neg (by simp [hcall]),
        List.append_assoc]
      rfl
    | none =>
      have htaken : takePartial fromStr (completed, inFlight) call =
          (completed, some call.inFlight) := by
        unfold takePartial
        rw [hcall]
      rw [htaken, ih, List.filterMap_cons, hcall, List.filter_cons_of_pos (by simp [hcall])]
      cases hrest : calls.filter fun call => (call.complete? fromStr).isNone with
      | nil => rfl
      | cons other others =>
        rw [List.getLast?_cons_cons]
        cases hlast : (other :: others).getLast? with
        | none => exact absurd (List.getLast?_eq_none_iff.mp hlast) (List.cons_ne_nil _ _)
        | some last => rfl

/-- The complete calls of a snapshot, and the last one of the others. -/
theorem fromPartials_calls (text : Option String) (calls : List PartialCall) (bytes : Nat) :
    (InterruptSnapshot.fromPartials fromStr text calls bytes).completedToolCalls =
        calls.filterMap (PartialCall.complete? fromStr) ∧
      (InterruptSnapshot.fromPartials fromStr text calls bytes).inFlightTool =
        (calls.filter fun call => (call.complete? fromStr).isNone).getLast?.map
          PartialCall.inFlight := by
  unfold InterruptSnapshot.fromPartials
  rw [foldl_takePartial]
  exact ⟨rfl, Option.or_none⟩

theorem complete?_id {call : PartialCall} {complete : ToolCall}
    (h : call.complete? fromStr = some complete) : complete.id = call.id := by
  unfold PartialCall.complete? at h
  split at h
  · cases h
  · split at h
    · split at h
      · cases h
        rfl
      · cases h
    · cases h

theorem finalCall?_id {call : PartialCall} {final : ToolCall}
    (h : StreamingAccumulator.finalCall? fromStr call = some final) : final.id = call.id := by
  unfold StreamingAccumulator.finalCall? at h
  dsimp only at h
  split at h
  · cases h
  · cases h
    rfl

end Parser

/-! ## Plans -/

/-- The plan says what was accumulated. -/
theorem InterruptSnapshot.plan_cases (snapshot : InterruptSnapshot) :
    (snapshot.plan =
        .synthesizeToolUse snapshot.completedToolCalls snapshot.inFlightTool ∧
      snapshot.completedToolCalls ≠ []) ∨
      snapshot.completedToolCalls = [] ∧
        ((∃ text tool, snapshot.inFlightTool = some tool ∧
            snapshot.plan = .truncateBeforeTool text tool.id tool.name) ∨
          (∃ text, snapshot.inFlightTool = none ∧ snapshot.plan = .continueText text) ∨
          snapshot.plan = .wholeRestart) := by
  unfold plan
  dsimp only
  cases hcompleted : snapshot.completedToolCalls with
  | cons call calls =>
    left
    exact ⟨rfl, List.cons_ne_nil _ _⟩
  | nil =>
    right
    refine ⟨rfl, ?_⟩
    rw [List.isEmpty_nil, Bool.not_true, if_neg Bool.false_ne_true]
    cases (snapshot.text.getD "").isEmpty with
    | true => exact .inr (.inr rfl)
    | false =>
      cases hflight : snapshot.inFlightTool with
      | none => exact .inr (.inl ⟨_, rfl, rfl⟩)
      | some tool => exact .inl ⟨_, tool, rfl, rfl⟩

namespace StreamAttempt

/-- The events that are emitted as they come. -/
def streamed : StreamAttempt → List SinkEvent
  | .refused _ => []
  | .opened events _ => events.filterMap LlmStreamEvent.sink?

/-- The ids of the calls that are started. -/
def startIds : StreamAttempt → List String
  | .refused _ => []
  | .opened events _ => events.filterMap LlmStreamEvent.startId?

/-- The calls with what came of their arguments. -/
def calls : StreamAttempt → List PartialCall
  | .refused _ => []
  | .opened events _ => (StreamingAccumulator.afterEvents events).partials

/-- The cause of an interruption that recovery is for. -/
def interruption? : StreamAttempt → Option InterruptCause
  | .refused _ => none
  | .opened _ .drained => none
  | .opened _ .stalled => some .idleStall
  | .opened _ (.failed error) => classifyMidStream error

theorem calls_ids (stream : StreamAttempt) : stream.calls.map PartialCall.id = stream.startIds := by
  cases stream with
  | refused error => rfl
  | opened events ending => exact StreamingAccumulator.partials_ids events

section Parser

variable (fromStr : String → Option Value)

def snapshot : StreamAttempt → InterruptSnapshot
  | .refused _ => .fromPartials fromStr none [] 0
  | .opened events _ => (StreamingAccumulator.afterEvents events).interruptSnapshot fromStr

/-- The recovery plan of an interrupted stream. -/
def plan? (self : StreamAttempt) : Option RecoveryPlan :=
  self.interruption?.map fun _ => (self.snapshot fromStr).plan

/-- The next stream is opened from the start. -/
def restarts (self : StreamAttempt) : Bool := decide (self.plan? fromStr = some .wholeRestart)

/-- Another stream is opened behind this one. -/
def goesOn (self : StreamAttempt) : Bool :=
  (self.interruption?).isSome && (self.snapshot fromStr).completedToolCalls.isEmpty

/-- The call that is cancelled. -/
def cancelled (self : StreamAttempt) : Option InFlightTool :=
  self.interruption?.bind fun _ => (self.snapshot fromStr).inFlightTool

/-- What becomes of a call: it is complete, or not. -/
def call? (self : StreamAttempt) (call : PartialCall) : Option ToolCall :=
  if self.interruption?.isSome then call.complete? fromStr
  else StreamingAccumulator.finalCall? fromStr call

/-- The calls that are ready. -/
def ready (self : StreamAttempt) : List ToolCall := self.calls.filterMap (self.call? fromStr)

/-- The events behind those of the stream. -/
def closing (self : StreamAttempt) : List SinkEvent :=
  let reason := (self.interruption?.map InterruptCause.text).getD ""
  if self.restarts fromStr then [.streamReset reason]
  else
    (self.cancelled fromStr).toList.map (fun tool => .toolCallCancel tool.id tool.name reason) ++
      (self.ready fromStr).map fun call => .toolCallReady call.id call.name call.arguments

def events (self : StreamAttempt) : List SinkEvent := self.streamed ++ self.closing fromStr

theorem snapshot_calls (self : StreamAttempt) :
    (self.snapshot fromStr).completedToolCalls =
        self.calls.filterMap (PartialCall.complete? fromStr) ∧
      (self.snapshot fromStr).inFlightTool =
        (self.calls.filter fun call => (call.complete? fromStr).isNone).getLast?.map
          PartialCall.inFlight := by
  cases self with
  | refused error => exact fromPartials_calls fromStr none [] 0
  | opened events ending => exact fromPartials_calls fromStr _ _ _

/-- The complete calls of an interrupted stream are ready. -/
theorem ready_interrupted {self : StreamAttempt} (h : self.interruption?.isSome) :
    self.ready fromStr = (self.snapshot fromStr).completedToolCalls := by
  have hcall : self.call? fromStr = PartialCall.complete? fromStr := by
    funext call
    exact if_pos h
  unfold ready
  rw [hcall, (self.snapshot_calls fromStr).1]

/-- The recovery from a stream returns its calls, or another stream is opened. -/
theorem applyRecoveryPlan_spec {self : StreamAttempt} {cause : InterruptCause}
    (h : self.interruption? = some cause) (request : InferenceRequest) :
    emitted (applyRecoveryPlan request cause (self.snapshot fromStr)).1 = self.closing fromStr ∧
      ((self.goesOn fromStr = false ∧ ∃ result hint,
          (applyRecoveryPlan request cause (self.snapshot fromStr)).2 =
            .synthesizedToolUse result hint ∧ result.toolCalls = self.ready fromStr) ∨
        self.goesOn fromStr = true ∧ ∃ next,
          (applyRecoveryPlan request cause (self.snapshot fromStr)).2 = .retryAfterPlan next) := by
  have hready := ready_interrupted fromStr (Option.isSome_iff_exists.mpr ⟨cause, h⟩)
  have hplan : self.plan? fromStr = some (self.snapshot fromStr).plan := by
    unfold plan?
    rw [h]
    rfl
  have hcancelled : self.cancelled fromStr = (self.snapshot fromStr).inFlightTool := by
    unfold cancelled
    rw [h]
    rfl
  have hgoesOn : self.goesOn fromStr =
      (self.snapshot fromStr).completedToolCalls.isEmpty := by
    unfold goesOn
    rw [h]
    exact Bool.true_and _
  have hrestarts : self.restarts fromStr =
      decide ((self.snapshot fromStr).plan = .wholeRestart) := by
    unfold restarts
    rw [hplan]
    simp
  unfold closing
  dsimp only
  rw [h, hready, hcancelled, hgoesOn, hrestarts]
  unfold applyRecoveryPlan
  generalize self.snapshot fromStr = snapshot
  cases snapshot.plan_cases with
  | inl hsynth =>
    rw [hsynth.1]
    dsimp only
    rw [emitted_append, emitted_ready, if_neg (by simp)]
    refine ⟨?_, .inl ⟨?_, _, _, rfl, rfl⟩⟩
    · cases snapshot.inFlightTool <;> rfl
    · exact List.isEmpty_eq_false_iff.mpr hsynth.2
  | inr hnone =>
    obtain ⟨hcompleted, hrest⟩ := hnone
    rw [hcompleted]
    cases hrest with
    | inl htruncate =>
      obtain ⟨text, tool, hflight, hplan⟩ := htruncate
      rw [hplan, hflight]
      exact ⟨rfl, .inr ⟨rfl, _, rfl⟩⟩
    | inr hrest =>
      cases hrest with
      | inl hcontinue =>
        obtain ⟨text, hflight, hplan⟩ := hcontinue
        rw [hplan, hflight]
        exact ⟨rfl, .inr ⟨rfl, _, rfl⟩⟩
      | inr hrestart =>
        rw [hrestart]
        exact ⟨rfl, .inr ⟨rfl, _, rfl⟩⟩

/-- What a stream emits, and its outcome. -/
theorem driveOneStream_spec (checkpoint : Option CheckpointHandle) (request : InferenceRequest)
    (self : StreamAttempt) :
    (∃ error, (driveOneStream fromStr checkpoint request self).2 = .error error) ∨
      (∃ cause, self.interruption? = some cause ∧
        (driveOneStream fromStr checkpoint request self).2 =
          .interrupted cause (self.snapshot fromStr) ∧
        emitted (driveOneStream fromStr checkpoint request self).1 = self.streamed) ∨
      self.interruption? = none ∧ ∃ result,
        (driveOneStream fromStr checkpoint request self).2 = .completed result ∧
          result.toolCalls = self.ready fromStr ∧
          emitted (driveOneStream fromStr checkpoint request self).1 = self.events fromStr := by
  cases self with
  | refused error => exact .inl ⟨error, rfl⟩
  | opened events ending =>
    obtain ⟨hevents, hacc⟩ := driveEvents_spec checkpoint request .default 0 events
    have hopen : ∀ effects, emitted (.openStream request :: effects) = emitted effects :=
      fun _ => rfl
    have hflushed : ∀ acc, emitted (.openStream request ::
        (driveEvents checkpoint request .default 0 events).1 ++
          flushEffects checkpoint request acc ++ [.recordStreamFailure]) =
        events.filterMap LlmStreamEvent.sink? := by
      intro acc
      rw [List.cons_append, List.cons_append, hopen, emitted_append, emitted_append, emitted_flush,
        hevents]
      simp [emitted, StreamEffect.event?]
    cases ending with
    | drained =>
      right
      right
      refine ⟨rfl, _, rfl, ?_, ?_⟩
      · show (driveEvents checkpoint request .default 0 events).2.partials.filterMap _ = _
        rw [hacc]
        rfl
      · show emitted (.openStream request :: (driveEvents checkpoint request .default 0 events).1 ++
          ((driveEvents checkpoint request .default 0 events).2.finalize fromStr).1 ++
          [.recordStreamSuccess]) = _
        rw [List.cons_append, List.cons_append, hopen, emitted_append, emitted_append, hevents,
          hacc]
        show _ ++ emitted (List.map StreamingAccumulator.readyEvent _) ++ [] = _
        rw [emitted_ready, List.append_nil]
        rfl
    | stalled =>
      right
      left
      refine ⟨.idleStall, rfl, ?_, hflushed _⟩
      show DriveOutcome.interrupted _
        ((driveEvents checkpoint request .default 0 events).2.interruptSnapshot fromStr) = _
      rw [hacc]
      rfl
    | failed error =>
      cases hcause : classifyMidStream error with
      | none =>
        left
        refine ⟨error, ?_⟩
        unfold driveOneStream
        dsimp only
        rw [hcause]
      | some cause =>
        right
        left
        refine ⟨cause, hcause, ?_, hflushed _⟩
        unfold driveOneStream
        dsimp only
        rw [hcause, hacc]
        rfl

end Parser

end StreamAttempt

/-! ## The streams of an inference -/

section Parser

variable (fromStr : String → Option Value)

/-- The streams up to the one that ends the inference. -/
def usedStreams : List StreamAttempt → List StreamAttempt
  | [] => []
  | stream :: streams =>
    if stream.goesOn fromStr then stream :: usedStreams streams else [stream]

/-- An inference that returns has the events and the calls of the streams it used. -/
theorem driveStreams_ok {maxRetries attempt : Nat} {checkpoint : Option CheckpointHandle}
    {request : InferenceRequest} {streams : List StreamAttempt} {effects : List StreamEffect}
    {result : StreamResult} {hint : Option InFlightTool}
    (h : driveStreams fromStr maxRetries checkpoint attempt request streams =
      (effects, some (.ok (result, hint)))) :
    emitted effects = (usedStreams fromStr streams).flatMap (StreamAttempt.events fromStr) ∧
      ∃ init last, usedStreams fromStr streams = init ++ [last] ∧
        (∀ stream ∈ init, stream.goesOn fromStr = true) ∧ last.goesOn fromStr = false ∧
        result.toolCalls = last.ready fromStr := by
  induction streams generalizing attempt request effects with
  | nil => cases h
  | cons stream streams ih =>
    unfold driveStreams at h
    dsimp only at h
    cases stream.driveOneStream_spec fromStr checkpoint request with
    | inl herror =>
      obtain ⟨error, herror⟩ := herror
      rw [herror] at h
      cases h
    | inr hrest =>
      cases hrest with
      | inr hcompleted =>
        obtain ⟨hcause, final, hfinal, hcalls, hevents⟩ := hcompleted
        rw [hfinal] at h
        cases h
        have hends : stream.goesOn fromStr = false := by
          unfold StreamAttempt.goesOn
          rw [hcause]
          rfl
        have hused : usedStreams fromStr (stream :: streams) = [stream] := by
          unfold usedStreams
          rw [hends]
          rfl
        rw [hused, emitted_append, hevents, emitted_delete, List.append_nil]
        exact ⟨by simp, [], stream, rfl, by simp, hends, hcalls⟩
      | inl hinterrupted =>
        obtain ⟨cause, hcause, houtcome, hevents⟩ := hinterrupted
        rw [houtcome] at h
        dsimp only at h
        split at h
        · cases h
        · obtain ⟨hclosing, hrecovery⟩ := stream.applyRecoveryPlan_spec fromStr hcause request
          cases hrecovery with
          | inl hsynth =>
            obtain ⟨hends, synthesized, tool, hresult, hcalls⟩ := hsynth
            rw [hresult] at h
            cases h
            have hused : usedStreams fromStr (stream :: streams) = [stream] := by
              unfold usedStreams
              rw [hends]
              rfl
            rw [hused, emitted_append, emitted_append, hevents, hclosing, emitted_delete,
              List.append_nil]
            exact ⟨by simp [StreamAttempt.events], [], stream, rfl, by simp, hends, hcalls⟩
          | inr hretry =>
            obtain ⟨hgoesOn, next, hnext⟩ := hretry
            rw [hnext] at h
            dsimp only at h
            have hused : usedStreams fromStr (stream :: streams) =
                stream :: usedStreams fromStr streams := by
              conv_lhs => unfold usedStreams
              rw [hgoesOn]
              rfl
            cases hrun : driveStreams fromStr maxRetries checkpoint (attempt + 1) next streams with
            | mk more outcome =>
              rw [hrun] at h
              obtain ⟨heffects, houtcome⟩ := Prod.mk.inj h
              dsimp only at houtcome
              rw [houtcome] at hrun
              obtain ⟨hmore, init, last, hinit, hall, hlast, hcalls⟩ := ih hrun
              rw [hused, ← heffects, emitted_append, emitted_append, hevents, hclosing, hmore]
              refine ⟨rfl, stream :: init, last, ?_, ?_, hlast, hcalls⟩
              · rw [hinit]
                rfl
              · exact List.forall_mem_cons.mpr ⟨hgoesOn, hall⟩

end Parser

end Remo
