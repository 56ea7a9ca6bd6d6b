import Remo.ForStd.Method
import Remo.Native.Loop.LoopStates
import Remo.Native.State.Store

/-!
# Preparing suspended calls for resume

Decisions about suspended calls are resolved against the states read at the start, and each is
committed before the next one is looked at.
-/

namespace Remo

/-- The state keys under the agent loop: `ToolCallStates`, which is `none`, and the other keys
    of the program. -/
def loopKeys (keys : StateKeys) : StateKeys where
  Key := Option keys.Key
  decEq := inferInstance
  key
    | none => "__runtime.tool_call_states"
    | some K => keys.key K
  merge
    | none => .commutative
    | some K => keys.merge K
  Value
    | none => ToolCallStateMap
    | some K => keys.Value K
  Update
    | none => ToolCallStatesUpdate
    | some K => keys.Update K
  default
    | none => ToolCallStateMap.default
    | some K => keys.default K
  apply
    | none => ToolCallStateMap.apply
    | some K => keys.apply K

/-- The key of the tool call states. -/
def toolCallStates (keys : StateKeys) : (loopKeys keys).Key := (none : Option keys.Key)

/-- An update of the tool call states. -/
def toolCallStatesUpdate (keys : StateKeys) (update : ToolCallStatesUpdate) :
    (loopKeys keys).Update (toolCallStates keys) :=
  update

variable {keys : StateKeys}

/-- The tool call states of a store. -/
def StateStore.toolCalls (store : StateStore (loopKeys keys)) : ToolCallStateMap :=
  (store.inner.ext (toolCallStates keys)).getD ((loopKeys keys).default (toolCallStates keys))

/-- Commit an update of the tool call states in a batch of its own. -/
def commitToolCallUpdate (update : ToolCallStatesUpdate) :
    Method StateError (StateStore (loopKeys keys)) Unit := fun store =>
  match store.commit (MutationBatch.new.update (toolCallStates keys)
    (toolCallStatesUpdate keys update)) with
  | .error e => (.error e, store)
  | .ok result => (.ok (), result.2)

/-- The call with the id, or else the first one suspended under it. -/
def resolveCallTarget (states : ToolCallStateMap) (targetId : String) :
    Option (String × ToolCallState) :=
  match states.calls.get? targetId with
  | some callState => some (targetId, callState)
  | none => states.calls.entries.find? fun entry => entry.2.suspensionId == some targetId

/-- A decision about the call that a target id names, and the clock when it is committed. -/
structure ResumeRequest where
  targetId : String
  decision : ToolCallResume
  now : UInt64

/-- The status a decision moves a call to. -/
def ResumeDecisionAction.status : ResumeDecisionAction → ToolCallStatus
  | .resume => .resuming
  | .cancel => .cancelled

/-- The state that a decision puts in place of a call's state. -/
def ResumeRequest.resumed (request : ResumeRequest)
    (resumeModeOverride : Option ToolCallResumeMode) (callId : String)
    (callState : ToolCallState) : ToolCallState :=
  { ToolCallState.new callId callState.toolName callState.arguments
      request.decision.action.status request.now with
    resumeMode := resumeModeOverride.getD callState.resumeMode
    suspensionId := normalizeOptionalString callState.suspensionId
    suspensionReason := normalizeOptionalString callState.suspensionReason
    resumeInput := some request.decision }

/-- One pass of the loop over the decisions. -/
def prepareDecision (states : ToolCallStateMap) (resumeModeOverride : Option ToolCallResumeMode)
    (request : ResumeRequest) : Method StateError (StateStore (loopKeys keys)) Unit := fun store =>
  match resolveCallTarget states request.targetId with
  | none =>
    (.error (.unknownKey s!"tool call or suspension {request.targetId} not found"), store)
  | some target =>
    commitToolCallUpdate (.put (request.resumed resumeModeOverride target.1 target.2)) store

/-- Prepare tool call states for resume. -/
def prepareResume (decisions : List ResumeRequest)
    (resumeModeOverride : Option ToolCallResumeMode) :
    Method StateError (StateStore (loopKeys keys)) Unit := fun store =>
  Method.map (fun _ => ())
    (Method.forEach (prepareDecision store.toolCalls resumeModeOverride) decisions) store

end Remo
