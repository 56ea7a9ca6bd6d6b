import Remo.Native.Protocol.AgUi
import Remo.Native.Protocol.AiSdk
import Remo.Spec.Protocol.Outline

/-!
# The AG-UI encoder in outline

## Key results

- `writes`: the encoder writes by the outline. A tool call ends text and reasoning.
- `writes`: the encoder writes by the outline. A tool call only ends the text, and a suspended
  run writes the end of a step.
- `AgUiEncoder.wellFormed_iff`, `AiSdkEncoder.wellFormed_iff`: exactly when the stream of one
  encoder is accepted.
- `strictClients_iff`: both encoders together.
-/

namespace Remo

open Protocol (Block View Writes)

/-- What an AG-UI event means to a client. -/
def AgUi.Event.frame : AgUi.Event → Frame Block String
  | .runStarted _ _ _ => .start
  | .runFinished _ _ _ _ _ => .terminal
  | .runError _ _ => .terminal
  | .stepStarted stepName => .stepStart stepName
  | .stepFinished stepName => .stepFinish stepName
  | .textMessageStart messageId _ => .opened (.text, messageId)
  | .textMessageContent messageId _ => .content (.text, messageId)
  | .textMessageEnd messageId => .closed (.text, messageId)
  | .reasoningMessageStart messageId _ => .opened (.reasoning, messageId)
  | .reasoningMessageContent messageId _ => .content (.reasoning, messageId)
  | .reasoningMessageEnd messageId => .closed (.reasoning, messageId)
  | _ => .other

namespace AgUiEncoder

open AgUi (Event)

/-- The encoder over a sequence of events. -/
def machine : Machine AgUiEncoder Protocol.AgentEvent (List Event) := ⟨onAgentEvent⟩

/-- The encoder in outline. Text and reasoning share the message id. -/
def view (enc : AgUiEncoder) : View String :=
  { finished := enc.guard.finished
    textOpen := enc.textOpen
    textId := enc.messageId
    reasoningOpen := enc.reasoningOpen
    reasoningId := enc.messageId
    step := enc.stepName }

/-- The outline of an encoder. -/
def Shows (enc : AgUiEncoder) (v : View String) : Prop := v = enc.view

@[simp] theorem closeBlocks_fst (enc : AgUiEncoder) : enc.closeBlocks.1.map Event.frame =
    enc.view.closeBlocks := by
  obtain ⟨_, textOpen, _, reasoningOpen, _, _, _⟩ := enc
  cases textOpen <;> cases reasoningOpen <;> rfl

@[simp] theorem closeBlocks_snd (enc : AgUiEncoder) :
    enc.closeBlocks.2 = { enc with textOpen := false, reasoningOpen := false } := by
  obtain ⟨_, textOpen, _, reasoningOpen, _, _, _⟩ := enc
  cases textOpen <;> cases reasoningOpen <;> rfl

/-- A neutral event writes nothing about blocks and steps. -/
theorem encode_neutral (enc : AgUiEncoder) {ev : Protocol.AgentEvent} (h : ev.kind = .neutral) :
    (∀ f ∈ (enc.encode ev).1.map Event.frame, f = .other) ∧ (enc.encode ev).2.view = enc.view := by
  cases ev with
  | toolCallDone id messageId result =>
    simp only [encode]
    cases result.status with
    | success => exact ⟨by simp [Event.toolCallResultOf, Event.frame], rfl⟩
    | error => exact ⟨by simp [Event.toolCallResultOf, Event.frame], rfl⟩
    | pending =>
      cases result.suspension with
      | some ticket => exact ⟨by simp, rfl⟩
      | none => exact ⟨by simp, rfl⟩
  | _ =>
    first
    | exact ⟨by simp [encode, Event.toolCallResultOf, Event.frame], rfl⟩
    | cases h

/-- What the encoder writes for an event that its guard lets through. -/
theorem encode_writes {enc : AgUiEncoder} (hrun : enc.guard.finished = false)
    (ev : Protocol.AgentEvent) :
    Writes true false enc.view ev.kind ((enc.encode ev).1.map Event.frame)
      (enc.encode ev).2.view := by
  by_cases hneutral : ev.kind = .neutral
  · obtain ⟨hothers, hview⟩ := encode_neutral enc hneutral
    rw [hneutral, hview]
    exact .neutral hrun hothers
  cases ev with
  | runStart threadId runId parentRunId =>
    have hrunning : { enc with messageId := runId }.view =
        { enc.view with
          finished := false, textId := runId, reasoningId := runId, step := enc.stepName } := by
      simp [view, hrun, stepName]
    show Writes _ _ _ _ [.start] { enc with messageId := runId }.view
    rw [hrunning]
    exact .runStart (by simp) runId runId enc.stepName
  | textDelta delta =>
    have hframes : (enc.encode (.textDelta delta)).1.map Event.frame =
        (if enc.view.textOpen then [] else [.opened (.text, enc.view.textId)]) ++
          [.content (.text, enc.view.textId)] := by
      cases ht : enc.textOpen <;> simp [encode, view, ht, Event.frame]
    rw [hframes]
    exact .text hrun
  | reasoningDelta delta =>
    have hframes : (enc.encode (.reasoningDelta delta)).1.map Event.frame =
        (if enc.view.reasoningOpen then [] else [.opened (.reasoning, enc.view.reasoningId)]) ++
          [.content (.reasoning, enc.view.reasoningId)] := by
      cases hr : enc.reasoningOpen <;> simp [encode, view, hr, Event.frame]
    rw [hframes]
    exact .reasoning hrun
  | toolCallStart id name =>
    have hframes : (enc.encode (.toolCallStart id name)).1.map Event.frame =
        enc.view.closeBlocks ++ [.other] := by
      simp [encode, Event.frame]
    have hview : (enc.encode (.toolCallStart id name)).2.view =
        { enc.view with
          textOpen := false, textId := enc.messageId
          reasoningOpen := enc.view.reasoningOpen && !true } := by
      simp [encode, view, stepName]
    rw [hframes, hview]
    exact .toolCallStart hrun enc.messageId
  | stepStart messageId => exact .stepStart hrun _ _ _
  | stepEnd =>
    have hframes : (enc.encode .stepEnd).1.map Event.frame =
        enc.view.closeBlocks ++ [.stepFinish enc.view.step] := by
      simp [encode, Event.frame, view, stepName]
    have hview : (enc.encode .stepEnd).2.view =
        { enc.view with textOpen := false, textId := enc.messageId, reasoningOpen := false } := by
      simp [encode, view, stepName]
    rw [hframes, hview]
    exact .stepEnd hrun enc.messageId
  | runFinish threadId runId result termination =>
    have hframes : (enc.encode (.runFinish threadId runId result termination)).1.map Event.frame =
        enc.view.closeBlocks ++ [.terminal] := by
      have hclose : ({ enc with guard := enc.guard.markFinished } : AgUiEncoder).view.closeBlocks =
          enc.view.closeBlocks := rfl
      cases termination <;>
        simp [encode, Event.frame, Event.runInterrupted, hclose]
    have hview : (enc.encode (.runFinish threadId runId result termination)).2.view =
        { enc.view with
          finished := true, textOpen := false, textId := enc.messageId
          reasoningOpen := false } := by
      cases termination <;> simp [encode, view, stepName]
    rw [hframes, hview]
    exact .runFinish hrun _ enc.messageId
  | error message code => exact .error hrun
  | _ => exact absurd rfl hneutral

/-- The encoder writes by the outline. -/
theorem writes (enc : AgUiEncoder) (ev : Protocol.AgentEvent) :
    Writes true false enc.view ev.kind ((machine.step enc ev).1.map Event.frame)
      (machine.step enc ev).2.view := by
  show Writes _ _ _ _ ((enc.onAgentEvent ev).1.map Event.frame) (enc.onAgentEvent ev).2.view
  unfold onAgentEvent
  cases hfinished : enc.guard.finished with
  | false => exact encode_writes hfinished ev
  | true =>
    cases ev with
    | runStart threadId runId parentRunId => exact .runStart (by simp) runId runId enc.stepName
    | _ => exact .ignored hfinished (by simp [Protocol.AgentEvent.kind])

end AgUiEncoder

end Remo

/-! ## The AI SDK v6 encoder in outline

While the events are clean at most one reasoning id is open, the id of the current message.
-/

namespace Remo

open Protocol (Block View Writes)

/-- What a UI stream event means to a client. -/
def AiSdk.UIStreamEvent.frame : AiSdk.UIStreamEvent → Frame Block Unit
  | .messageStart _ => .start
  | .finish _ => .terminal
  | .error _ => .terminal
  | .startStep => .stepStart ()
  | .finishStep => .stepFinish ()
  | .textStart id => .opened (.text, id)
  | .textDelta id _ => .content (.text, id)
  | .textEnd id => .closed (.text, id)
  | .reasoningStart id => .opened (.reasoning, id)
  | .reasoningDelta id _ => .content (.reasoning, id)
  | .reasoningEnd id => .closed (.reasoning, id)
  | _ => .other

namespace AiSdkEncoder

open AiSdk (UIStreamEvent)

/-- The encoder over a sequence of events. -/
def machine : Machine AiSdkEncoder Protocol.AgentEvent (List UIStreamEvent) := ⟨onAgentEvent⟩

/-- The encoder in outline, when the reasoning block of the current message is open or not. -/
def view (enc : AiSdkEncoder) (reasoningOpen : Bool) : View Unit :=
  { finished := enc.guard.finished
    textOpen := enc.textOpen
    textId := enc.textId
    reasoningOpen := reasoningOpen
    reasoningId := reasoningIdFor enc.messageId
    step := () }

/-- The open reasoning ids are those of the outline. -/
structure Shows (enc : AiSdkEncoder) (v : View Unit) : Prop where
  view_eq : v = enc.view v.reasoningOpen
  ids : enc.openReasoningIds = if v.reasoningOpen then [reasoningIdFor enc.messageId] else []

theorem closeText_fst (enc : AiSdkEncoder) (reasoningOpen : Bool) :
    enc.closeText.1.map UIStreamEvent.frame = (enc.view reasoningOpen).closeText := by
  cases ht : enc.textOpen <;> simp [closeText, View.closeText, view, ht, UIStreamEvent.frame]

/-- What closing the text block leaves as it was. -/
theorem closeText_snd (enc : AiSdkEncoder) :
    ∃ textCounter, enc.closeText.2 = { enc with textOpen := false, textCounter := textCounter } := by
  cases ht : enc.textOpen with
  | true => exact ⟨enc.textCounter + 1, by simp [closeText, ht]⟩
  | false =>
    refine ⟨enc.textCounter, ?_⟩
    simp only [closeText, ht, Bool.false_eq_true, if_false]
    rw [← ht]

/-- All open blocks are closed under the ids of the outline. -/
theorem closeBlocks_fst {enc : AiSdkEncoder} {v : View Unit} (h : enc.Shows v) :
    enc.closeBlocks.1.map UIStreamEvent.frame = v.closeBlocks := by
  obtain ⟨textCounter, hsnd⟩ := enc.closeText_snd
  have htext := enc.closeText_fst v.reasoningOpen
  rw [← h.view_eq] at htext
  have hid : v.reasoningId = reasoningIdFor enc.messageId := by rw [h.view_eq]; rfl
  simp only [closeBlocks, hsnd, closeAllReasoning, List.map_append, htext, h.ids, View.closeBlocks,
    View.closeReasoning, hid]
  cases v.reasoningOpen <;> simp [UIStreamEvent.frame]

/-- After all blocks are closed only the text counter has moved. -/
theorem closeBlocks_snd (enc : AiSdkEncoder) :
    ∃ textCounter, enc.closeBlocks.2 =
      { enc with textOpen := false, textCounter := textCounter, openReasoningIds := [] } := by
  obtain ⟨textCounter, hsnd⟩ := enc.closeText_snd
  exact ⟨textCounter, by simp [closeBlocks, hsnd, closeAllReasoning]⟩

theorem activityEvents_frame (messageId activityType : String) (content : Value) :
    ∀ e ∈ activityEvents messageId activityType content, e.frame = .other := by
  intro e he
  unfold activityEvents at he
  cases content with
  | object entries =>
    simp only at he
    split_ifs at he <;> simp at he <;> rw [he] <;> rfl
  | _ => simp at he

/-- A neutral event writes nothing about blocks and steps, and at most the output that tool calls
    have streamed so far is changed. -/
theorem encode_neutral (enc : AiSdkEncoder) {ev : Protocol.AgentEvent} (h : ev.kind = .neutral) :
    (∀ f ∈ (enc.encode ev).1.map UIStreamEvent.frame, f = .other) ∧
      ∃ acc, (enc.encode ev).2 = { enc with streamAccumulators := acc } := by
  cases ev with
  | toolCallDone id messageId result =>
    simp only [encode]
    cases result.status with
    | success => exact ⟨by simp [UIStreamEvent.toolOutput, UIStreamEvent.frame], _, rfl⟩
    | error => exact ⟨by simp [UIStreamEvent.frame], _, rfl⟩
    | pending =>
      cases result.suspension with
      | some ticket =>
        simp only
        split_ifs
        · exact ⟨by simp [UIStreamEvent.frame], _, rfl⟩
        · exact ⟨by simp, _, rfl⟩
      | none => exact ⟨by simp, _, rfl⟩
  | toolCallResumed targetId result =>
    simp only [encode]
    cases Protocol.classifyResumedResult result with
    | error message => exact ⟨by simp [UIStreamEvent.frame], _, rfl⟩
    | denied => exact ⟨by simp [UIStreamEvent.frame], _, rfl⟩
    | success => exact ⟨by simp [UIStreamEvent.toolOutput, UIStreamEvent.frame], _, rfl⟩
  | activitySnapshot messageId activityType content replace =>
    refine ⟨?_, _, rfl⟩
    simp only [encode, List.map_append, List.mem_append, List.mem_map]
    rintro f (⟨e, he, rfl⟩ | ⟨e, he, rfl⟩)
    · exact activityEvents_frame messageId activityType content e he
    · rw [List.mem_singleton.mp he]
      rfl
  | _ =>
    first
    | exact ⟨by simp [encode, UIStreamEvent.dataOf, UIStreamEvent.dataWithOptions,
        UIStreamEvent.toolOutputPreliminary, UIStreamEvent.frame], _, rfl⟩
    | cases h

/-- What the encoder writes for an event that its guard lets through. The reasoning block is
    closed when the message id may change. -/
theorem encode_writes {enc : AiSdkEncoder} {v : View Unit} (h : enc.Shows v)
    (hrun : v.finished = false) {ev : Protocol.AgentEvent}
    (hclosed : ev.kind = .runStart ∨ ev.kind = .stepStart → v.reasoningOpen = false) :
    ∃ v', Writes false true v ev.kind ((enc.encode ev).1.map UIStreamEvent.frame) v' ∧
      (enc.encode ev).2.Shows v' := by
  by_cases hneutral : ev.kind = .neutral
  · obtain ⟨hothers, acc, hsnd⟩ := encode_neutral enc hneutral
    rw [hneutral]
    refine ⟨v, .neutral hrun hothers, ?_⟩
    rw [hsnd]
    exact ⟨h.view_eq, h.ids⟩
  have htextOpen : v.textOpen = enc.textOpen := by rw [h.view_eq]; rfl
  have htextId : v.textId = enc.textId := by rw [h.view_eq]; rfl
  have hreasoningId : v.reasoningId = reasoningIdFor enc.messageId := by rw [h.view_eq]; rfl
  have hfinished : enc.guard.finished = false := by
    rw [h.view_eq] at hrun
    exact hrun
  cases ev with
  | runStart threadId runId parentRunId =>
    have hr := hclosed (.inl rfl)
    refine ⟨{ v with
      finished := false, textId := enc.textId, reasoningId := reasoningIdFor runId, step := () },
      ?_, ?_, ?_⟩
    · exact .runStart (by simp [UIStreamEvent.dataOf, UIStreamEvent.dataWithOptions,
        UIStreamEvent.frame]) enc.textId (reasoningIdFor runId) ()
    · rw [h.view_eq]
      simp [encode, view, hfinished, textId]
    · simpa [hr, encode] using h.ids
  | textDelta delta =>
    have hframes : (enc.encode (.textDelta delta)).1.map UIStreamEvent.frame =
        (if v.textOpen then [] else [.opened (.text, v.textId)]) ++
          [.content (.text, v.textId)] := by
      rw [htextOpen, htextId]
      cases ht : enc.textOpen <;> simp [encode, ht, UIStreamEvent.frame]
    rw [hframes]
    exact ⟨_, .text hrun, by rw [h.view_eq]; rfl, h.ids⟩
  | reasoningDelta delta =>
    have hframes : (enc.encode (.reasoningDelta delta)).1.map UIStreamEvent.frame =
        (if v.reasoningOpen then [] else [.opened (.reasoning, v.reasoningId)]) ++
          [.content (.reasoning, v.reasoningId)] := by
      rw [hreasoningId]
      cases hr : v.reasoningOpen <;> simp [encode, h.ids, hr, UIStreamEvent.frame]
    rw [hframes]
    refine ⟨_, .reasoning hrun, ?_, ?_⟩
    · rw [h.view_eq]
      simp only [encode]
      split_ifs <;> rfl
    · cases hr : v.reasoningOpen <;> simp [encode, h.ids, hr]
  | toolCallStart id name =>
    obtain ⟨textCounter, hsnd⟩ := enc.closeText_snd
    have htext := enc.closeText_fst v.reasoningOpen
    rw [← h.view_eq] at htext
    have hframes : (enc.encode (.toolCallStart id name)).1.map UIStreamEvent.frame =
        v.closeText ++ (if false then v.closeReasoning else []) ++ [.other] := by
      simp [encode, htext, UIStreamEvent.frame]
    rw [hframes]
    refine ⟨_, .toolCallStart hrun s!"txt_{textCounter}", ?_, ?_⟩
    · rw [h.view_eq]
      simp [encode, hsnd, view, textId]
    · simpa [encode, hsnd] using h.ids
  | stepStart messageId =>
    have hr := hclosed (.inr rfl)
    refine ⟨{ v with
      textId := enc.textId
      reasoningId := reasoningIdFor (enc.encode (.stepStart messageId)).2.messageId
      step := () }, ?_, ?_, ?_⟩
    · have hframes : (enc.encode (.stepStart messageId)).1.map UIStreamEvent.frame =
          [.stepStart ()] := by
        simp only [encode]
        split_ifs <;> rfl
      rw [hframes]
      exact .stepStart hrun _ _ ()
    · rw [h.view_eq]
      simp only [encode]
      split_ifs <;> rfl
    · simp only [encode, hr, Bool.false_eq_true, if_false]
      split_ifs <;> simpa [hr] using h.ids
  | stepEnd =>
    obtain ⟨textCounter, hsnd⟩ := enc.closeBlocks_snd
    have hframes : (enc.encode .stepEnd).1.map UIStreamEvent.frame =
        v.closeBlocks ++ [.stepFinish v.step] := by
      simp [encode, closeBlocks_fst h, UIStreamEvent.frame]
    rw [hframes]
    refine ⟨_, .stepEnd hrun s!"txt_{textCounter}", ?_, ?_⟩
    · rw [h.view_eq]
      simp [encode, hsnd, view, textId]
    · simp [encode, hsnd]
  | runFinish threadId runId result termination =>
    have hmarked : Shows { enc with guard := enc.guard.markFinished } { v with finished := true } :=
      ⟨by rw [h.view_eq]; rfl, h.ids⟩
    obtain ⟨textCounter, hsnd⟩ :=
      closeBlocks_snd { enc with guard := enc.guard.markFinished }
    have hclose : ({ v with finished := true } : View Unit).closeBlocks = v.closeBlocks := rfl
    have hframes : (enc.encode (.runFinish threadId runId result termination)).1.map
        UIStreamEvent.frame = v.closeBlocks ++
          ((if true && decide (termination = .suspended) then [.stepFinish v.step] else []) ++
            [.terminal]) := by
      cases termination <;> simp [encode, closeBlocks_fst hmarked, hclose, UIStreamEvent.frame]
    rw [hframes]
    refine ⟨_, .runFinish hrun _ s!"txt_{textCounter}", ?_, ?_⟩
    · rw [h.view_eq]
      cases termination <;> simp [encode, hsnd, view, textId]
    · cases termination <;> simp [encode, hsnd]
  | error message code =>
    exact ⟨_, .error hrun, by rw [h.view_eq]; rfl, h.ids⟩
  | _ => exact absurd rfl hneutral

/-- The encoder writes by the outline while the message id does not change under an open reasoning
    block. -/
theorem writes (enc : AiSdkEncoder) (v : View Unit) (ev : Protocol.AgentEvent) (h : enc.Shows v)
    (hclosed : ev.kind = .runStart ∨ ev.kind = .stepStart → v.reasoningOpen = false) :
    ∃ v', Writes false true v ev.kind ((machine.step enc ev).1.map UIStreamEvent.frame) v' ∧
      (machine.step enc ev).2.Shows v' := by
  show ∃ v', Writes _ _ _ _ ((enc.onAgentEvent ev).1.map UIStreamEvent.frame) v' ∧
    (enc.onAgentEvent ev).2.Shows v'
  have hfinished : v.finished = enc.guard.finished := by rw [h.view_eq]; rfl
  unfold onAgentEvent
  cases hguard : enc.guard.finished with
  | false => exact encode_writes h (hfinished.trans hguard) hclosed
  | true =>
    cases ev with
    | runStart threadId runId parentRunId =>
      have hreset : Shows { enc with guard := .new } { v with finished := false } :=
        ⟨by rw [h.view_eq]; rfl, h.ids⟩
      obtain ⟨v', hw, hv'⟩ := encode_writes hreset rfl hclosed
      refine ⟨v', ?_, hv'⟩
      cases hw with
      | runStart hothers t r s => exact .runStart hothers t r s
    | _ =>
      exact ⟨v, .ignored (hfinished.trans hguard) (by simp [Protocol.AgentEvent.kind]), h⟩

end AiSdkEncoder

end Remo

/-! ## Strict clients of both encoders

Which outputs of the loop a strict client accepts from the encoders. Both encoders leave the open
blocks of a run open when an error ends it, and the AI SDK encoder ends a step twice when the run
is suspended after the step has ended.
-/

namespace Remo

open Protocol (Shaped Clean CleanEvent accepts output)

/-- A strict client accepts what the AG-UI encoder writes over any number of runs. -/
def AgUiEncoder.WellFormed (evs : List Protocol.AgentEvent) : Prop :=
  accepts .idle .idle (output AgUiEncoder.machine AgUi.Event.frame .new evs) = true

/-- A strict client accepts what the AI SDK encoder writes over any number of runs. -/
def AiSdkEncoder.WellFormed (evs : List Protocol.AgentEvent) : Prop :=
  accepts .idle .idle (output AiSdkEncoder.machine AiSdk.UIStreamEvent.frame .new evs) = true

/-- Every error of a run comes while no text and no reasoning is open. A tool call ends both. -/
def AgUiEncoder.CleanRuns (evs : List Protocol.AgentEvent) : Prop :=
  Clean true (CleanEvent false) .idle evs

/-- Every error of a run comes while no text and no reasoning is open, and no run is suspended after
    the end of a step. A tool call only ends the text. -/
def AiSdkEncoder.CleanRuns (evs : List Protocol.AgentEvent) : Prop :=
  Clean false (CleanEvent true) .idle evs

instance (evs : List Protocol.AgentEvent) : Decidable (AgUiEncoder.CleanRuns evs) :=
  inferInstanceAs (Decidable (Clean _ _ _ _))

instance (evs : List Protocol.AgentEvent) : Decidable (AiSdkEncoder.CleanRuns evs) :=
  inferInstanceAs (Decidable (Clean _ _ _ _))

/-- The stream of the AG-UI encoder is accepted exactly if the runs are clean. -/
theorem AgUiEncoder.wellFormed_iff {evs : List Protocol.AgentEvent} (h : Shaped .idle evs) :
    AgUiEncoder.WellFormed evs ↔ AgUiEncoder.CleanRuns evs := by
  have hshows : AgUiEncoder.new.Shows AgUiEncoder.new.view := rfl
  refine Protocol.accepts_outline ?_ hshows rfl rfl rfl h
  intro enc v ev hv _
  subst hv
  exact ⟨_, enc.writes ev, rfl⟩

/-- The stream of the AI SDK encoder is accepted exactly if the runs are clean. -/
theorem AiSdkEncoder.wellFormed_iff {evs : List Protocol.AgentEvent} (h : Shaped .idle evs) :
    AiSdkEncoder.WellFormed evs ↔ AiSdkEncoder.CleanRuns evs := by
  have hshows : AiSdkEncoder.new.Shows (AiSdkEncoder.new.view false) := ⟨rfl, rfl⟩
  exact Protocol.accepts_outline AiSdkEncoder.writes hshows rfl rfl rfl h

/-- For every output of the loop, over any number of runs, the streams of both encoders are accepted
    exactly if the runs are clean. -/
theorem strictClients_iff {evs : List Protocol.AgentEvent} (h : Shaped .idle evs) :
    (AgUiEncoder.WellFormed evs ↔ AgUiEncoder.CleanRuns evs) ∧
      (AiSdkEncoder.WellFormed evs ↔ AiSdkEncoder.CleanRuns evs) :=
  ⟨AgUiEncoder.wellFormed_iff h, AiSdkEncoder.wellFormed_iff h⟩

/-- A run that is suspended in its step, is resumed, and fails between its steps. -/
theorem strictClients_resumed :
    let evs : List Protocol.AgentEvent :=
      [.runStart "thread" "run" none, .stepStart "message", .textDelta "let me look",
        .toolCallStart "call" "search", .runFinish "thread" "run" none .suspended,
        .runStart "thread" "run" none, .toolCallResumed "call" .null, .stepStart "message",
        .reasoningDelta "so", .textDelta "done", .stepEnd, .error "overloaded" none]
    AgUiEncoder.WellFormed evs ∧ AiSdkEncoder.WellFormed evs := by
  intro evs
  have hshape : Shaped .idle evs := by decide
  exact ⟨(strictClients_iff hshape).1.mpr (by decide), (strictClients_iff hshape).2.mpr (by decide)⟩

/-- An error in the middle of a text leaves its block open in both streams, and a suspension after
    the end of a step ends the step twice in the AI SDK stream. -/
theorem strictClients_rejected :
    let inText : List Protocol.AgentEvent :=
      [.runStart "thread" "run" none, .stepStart "message", .textDelta "let me",
        .error "overloaded" none]
    let suspended : List Protocol.AgentEvent :=
      [.runStart "thread" "run" none, .stepStart "message", .stepEnd,
        .runFinish "thread" "run" none .suspended]
    (Shaped .idle inText ∧ ¬ AgUiEncoder.WellFormed inText ∧ ¬ AiSdkEncoder.WellFormed inText) ∧
      (Shaped .idle suspended ∧ ¬ AiSdkEncoder.WellFormed suspended) := by
  intro inText suspended
  have hinText : Shaped .idle inText := by decide
  have hsuspended : Shaped .idle suspended := by decide
  refine ⟨⟨hinText, ?_, ?_⟩, hsuspended, ?_⟩
  · rw [AgUiEncoder.wellFormed_iff hinText]
    decide
  · rw [AiSdkEncoder.wellFormed_iff hinText]
    decide
  · rw [AiSdkEncoder.wellFormed_iff hsuspended]
    decide

end Remo
