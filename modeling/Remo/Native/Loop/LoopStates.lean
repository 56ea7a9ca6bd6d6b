import Remo.ForStd.AssocMap
import Remo.Native.Lifecycle
import Remo.Native.Message.Message
import Remo.Native.Value

/-!
# States of the agent loop

The state keys of the loop: the status of a run, the tool calls of a step, and what the handlers
of scheduled actions write.
-/

/-! ## Run lifecycle

The status of a run in the state engine, and how reasons to stop map to it and back.
-/

namespace Remo

namespace TerminationReason

/-- `str::trim_start_matches` on characters: the prefix is taken off while it is there. -/
def trimStartMatches (pattern : List Char) : Nat → List Char → List Char
  | 0, chars => chars
  | fuel + 1, chars =>
    if pattern <+: chars then trimStartMatches pattern fuel (chars.drop pattern.length) else chars

/-- What follows a reason tag, when the reason starts with it. -/
def afterTag (tag reason : String) : Option String :=
  if tag.toList <+: reason.toList then
    some (String.ofList (trimStartMatches tag.toList reason.length reason.toList))
  else none

/-- Reconstruct a reason from the `done_reason` stored in the lifecycle state. -/
def fromDoneReason (reason : String) : TerminationReason :=
  if reason = "natural" then naturalEnd
  else if reason = "behavior_requested" then behaviorRequested
  else if reason = "cancelled" then cancelled
  else
    match afterTag "blocked:" reason, afterTag "stopped:" reason, afterTag "error:" reason with
    | some message, _, _ => blocked message
    | none, some code, _ => stopped ⟨code, none⟩
    | none, none, some message => error message
    | none, none, none => error reason

/-- Map termination reason to durable run status and optional done_reason string. -/
def toRunStatus : TerminationReason → RunStatus × Option String
  | suspended => (.waiting, none)
  | naturalEnd => (.done, some "natural")
  | behaviorRequested => (.done, some "behavior_requested")
  | cancelled => (.done, some "cancelled")
  | blocked reason => (.done, some s!"blocked:{reason}")
  | error _ => (.done, some "error")
  | stopped reason => (.done, some s!"stopped:{reason.code}")

end TerminationReason

namespace RunStatus

/-- Whether this lifecycle status is terminal. -/
def isTerminal (self : RunStatus) : Bool := self == done

/-- Validate lifecycle transition to `next`. -/
def canTransitionTo (self next : RunStatus) : Bool :=
  if self = next then true
  else
    match self with
    | created => next == running || next == done
    | running => next == waiting || next == done
    | waiting => next == running || next == done
    | done => false

end RunStatus

/-- Run lifecycle state stored in the state engine. -/
structure RunLifecycleState where
  runId : String
  status : RunStatus
  statusReason : Option String
  updatedAt : UInt64
  stepCount : UInt32
deriving Repr, DecidableEq

def RunLifecycleState.default : RunLifecycleState := ⟨"", .running, none, 0, 0⟩

inductive RunLifecycleUpdate where
  | start (runId : String) (updatedAt : UInt64)
  | stepCompleted (updatedAt : UInt64)
  | setWaiting (updatedAt : UInt64) (pauseReason : String)
  | setRunning (updatedAt : UInt64)
  | done (doneReason : String) (updatedAt : UInt64)
deriving Repr, DecidableEq

/-- The status this update will produce. -/
def RunLifecycleUpdate.targetStatus : RunLifecycleUpdate → RunStatus
  | start _ _ => .running
  | stepCompleted _ => .running
  | setRunning _ => .running
  | setWaiting _ _ => .waiting
  | done _ _ => .done

/-- `RunLifecycle::apply`. A transition that is not allowed is skipped. -/
def RunLifecycleState.apply (value : RunLifecycleState) (update : RunLifecycleUpdate) :
    RunLifecycleState :=
  if !value.status.canTransitionTo update.targetStatus then value
  else
    match update with
    | .start runId updatedAt => ⟨runId, .running, none, updatedAt, 0⟩
    | .stepCompleted updatedAt =>
      { value with stepCount := value.stepCount + 1, updatedAt := updatedAt }
    | .setWaiting updatedAt pauseReason =>
      { value with status := .waiting, statusReason := some pauseReason, updatedAt := updatedAt }
    | .setRunning updatedAt =>
      { value with status := .running, statusReason := none, updatedAt := updatedAt }
    | .done doneReason updatedAt =>
      { value with status := .done, statusReason := some doneReason, updatedAt := updatedAt }

end Remo

/-! ## Tool call states

The lifecycle status of tool calls and the state key that tracks the calls of a step.
-/

namespace Remo

/-- How the agent loop should replay resolved suspend decisions. -/
inductive ToolCallResumeMode where
  | replayToolCall
  | useDecisionAsToolResult
  | passDecisionToTool
deriving Repr, DecidableEq

/-- Action to apply for a suspended tool call decision. -/
inductive ResumeDecisionAction where
  | resume
  | cancel
deriving Repr, DecidableEq

/-- Resume input payload attached to a suspended tool call. -/
structure ToolCallResume where
  decisionId : String
  action : ResumeDecisionAction
  result : Value
  reason : Option String
  updatedAt : UInt64

/-- Tool call lifecycle status. -/
inductive ToolCallStatus where
  | new
  | running
  | suspended
  | resuming
  | succeeded
  | failed
  | cancelled
deriving Repr, DecidableEq

namespace ToolCallStatus

/-- Validate lifecycle transition from `self` to `next`. -/
def canTransitionTo (self next : ToolCallStatus) : Bool :=
  if self = next then true
  else
    match self with
    | new => true
    | running => next ∈ [suspended, succeeded, failed, cancelled]
    | suspended => next ∈ [resuming, cancelled]
    | resuming => next ∈ [running, suspended, succeeded, failed, cancelled]
    | succeeded | failed | cancelled => false

end ToolCallStatus

/-- Per-tool-call lifecycle state. -/
structure ToolCallState where
  callId : String
  toolName : String
  arguments : Value
  status : ToolCallStatus
  updatedAt : UInt64
  resumeMode : ToolCallResumeMode
  suspensionId : Option String
  suspensionReason : Option String
  resumeInput : Option ToolCallResume

/-- A text without the white space around it, unless nothing is left. -/
def normalizeOptionalString (value : Option String) : Option String :=
  value.bind fun value =>
    let trimmed := Str.trim value
    if trimmed.isEmpty then none else some trimmed

/-- `ToolCallState::new`. -/
def ToolCallState.new (callId toolName : String) (arguments : Value) (status : ToolCallStatus)
    (updatedAt : UInt64) : ToolCallState where
  callId
  toolName
  arguments
  status
  updatedAt
  resumeMode := .replayToolCall
  suspensionId := none
  suspensionReason := none
  resumeInput := none

/-- Keyed collection of tool call states for the current step. -/
structure ToolCallStateMap where
  calls : AssocMap String ToolCallState

def ToolCallStateMap.default : ToolCallStateMap := ⟨.empty⟩

inductive ToolCallStatesUpdate where
  | put (state : ToolCallState)
  | clear

/-- The state with its suspension texts normalised. -/
def ToolCallState.normalized (state : ToolCallState) : ToolCallState :=
  { state with
    suspensionId := normalizeOptionalString state.suspensionId
    suspensionReason := normalizeOptionalString state.suspensionReason }

/-- The status of a call, which is new while it has no state. -/
def ToolCallStateMap.currentStatus (self : ToolCallStateMap) (callId : String) :
    ToolCallStatus :=
  ((self.calls.get? callId).map ToolCallState.status).getD .new

/-- `ToolCallStates::apply`: an invalid transition is skipped. -/
def ToolCallStateMap.apply (self : ToolCallStateMap) : ToolCallStatesUpdate → ToolCallStateMap
  | .put state =>
    if !(self.currentStatus state.callId).canTransitionTo state.status then self
    else ⟨self.calls.insert state.callId state.normalized⟩
  | .clear => ⟨.empty⟩

end Remo

/-! ## Loop state keys

The state keys that the handlers of the agent loop write: injected context messages, the
tool filter and the inference overrides of a step.
-/

namespace Remo

/-! ## Context messages -/

/-- Where in the prompt a context message should be inserted. -/
inductive ContextMessageTarget where
  | system
  | session
  | conversation
  | suffixSystem
deriving Repr, DecidableEq

/-- A context message to be injected into the prompt. -/
structure ContextMessage where
  key : String
  role : Role
  content : Json
  visibility : Visibility
  target : ContextMessageTarget
  cooldownTurns : UInt32
  persistent : Bool
  consumeAfterEmit : Bool
  priority : Int32
deriving DecidableEq

/-- Map of context messages keyed by message key. -/
structure ContextMessageStoreValue where
  messages : AssocMap String ContextMessage

def ContextMessageStoreValue.default : ContextMessageStoreValue := ⟨.empty⟩

inductive ContextMessageAction where
  | upsert (msg : ContextMessage)
  | remove (key : String)
  | removeByPrefix (pre : String)
  | removeEphemeral
  | consumeAfterEmit
  | clear
deriving DecidableEq

/-- `ContextMessageStore::apply`. -/
def ContextMessageStoreValue.apply (self : ContextMessageStoreValue) :
    ContextMessageAction → ContextMessageStoreValue
  | .upsert msg => ⟨self.messages.insert msg.key msg⟩
  | .remove key => ⟨self.messages.retain fun k _ => k != key⟩
  | .removeByPrefix pre => ⟨self.messages.retain fun k _ => !pre.toList.isPrefixOf k.toList⟩
  | .removeEphemeral => ⟨self.messages.retain fun _ m => m.persistent⟩
  | .consumeAfterEmit => ⟨self.messages.retain fun _ m => !m.consumeAfterEmit⟩
  | .clear => ⟨.empty⟩

/-! ## Tool filter -/

/-- Accumulated tool filter state for the current inference step. -/
structure ToolFilterStateValue where
  excluded : List String
  includeOnly : List (List String)
deriving Repr, DecidableEq

def ToolFilterStateValue.default : ToolFilterStateValue := ⟨[], []⟩

inductive ToolFilterStateAction where
  | exclude (id : String)
  | includeOnly (ids : List String)
  | clear
deriving Repr, DecidableEq

/-- `ToolFilterState::apply`. -/
def ToolFilterStateValue.apply (self : ToolFilterStateValue) :
    ToolFilterStateAction → ToolFilterStateValue
  | .exclude id => { self with excluded := self.excluded ++ [id] }
  | .includeOnly ids => { self with includeOnly := self.includeOnly ++ [ids] }
  | .clear => ⟨[], []⟩

/-! ## Inference overrides -/

/-- Reasoning effort hint. -/
inductive ReasoningEffort where
  | none
  | low
  | medium
  | high
  | max
  | budget (tokens : UInt32)
deriving Repr, DecidableEq

/-- Override for model selection and inference parameters. A floating point number stands
    as its bits. -/
structure InferenceOverride where
  upstreamModel : Option String
  temperature : Option UInt64
  maxTokens : Option UInt32
  topP : Option UInt64
  reasoningEffort : Option ReasoningEffort
deriving Repr, DecidableEq

/-- Merge `other` into `self` with last-wins semantics per field. -/
def InferenceOverride.merge (self other : InferenceOverride) : InferenceOverride where
  upstreamModel := other.upstreamModel.or self.upstreamModel
  temperature := other.temperature.or self.temperature
  maxTokens := other.maxTokens.or self.maxTokens
  topP := other.topP.or self.topP
  reasoningEffort := other.reasoningEffort.or self.reasoningEffort

/-- Accumulated inference override for the current step. -/
structure InferenceOverrideStateValue where
  overrides : Option InferenceOverride
deriving Repr, DecidableEq

def InferenceOverrideStateValue.default : InferenceOverrideStateValue := ⟨none⟩

inductive InferenceOverrideStateAction where
  | merge (ovr : InferenceOverride)
  | clear
deriving Repr, DecidableEq

/-- `InferenceOverrideState::apply`. -/
def InferenceOverrideStateValue.apply (self : InferenceOverrideStateValue) :
    InferenceOverrideStateAction → InferenceOverrideStateValue
  | .merge ovr =>
    match self.overrides with
    | some existing => ⟨some (existing.merge ovr)⟩
    | none => ⟨some ovr⟩
  | .clear => ⟨none⟩

end Remo
