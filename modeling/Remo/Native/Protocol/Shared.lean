import Remo.Native.Loop.LoopStates

/-!
# What the protocol encoders read

The agent events with the payload the encoders write out, the guard they share and the
classification of a resumed result.
-/

namespace Remo

namespace Protocol

/-- `ToolStatus`. -/
inductive ToolStatus where
  | success
  | pending
  | error

/-- A `SuspendTicket`: the id and the action of its suspension, and its resume mode. -/
structure SuspendTicket where
  suspensionId : String
  suspensionAction : String
  resumeMode : ToolCallResumeMode

/-- `ToolResult`. -/
structure ToolResult where
  status : ToolStatus
  data : Value
  message : Option String
  suspension : Option SuspendTicket
  metadata : List (String × Value)

/-- `AgentEvent` with its payload. The token usage is the JSON value it serializes to. -/
inductive AgentEvent where
  | runStart (threadId runId : String) (parentRunId : Option String)
  | runFinish (threadId runId : String) (result : Option Value) (termination : TerminationReason)
  | textDelta (delta : String)
  | reasoningDelta (delta : String)
  | toolCallStart (id name : String)
  | toolCallDelta (id argsDelta : String)
  | toolCallReady (id name : String) (arguments : Value)
  | toolCallDone (id messageId : String) (result : ToolResult)
  | toolCallStreamDelta (id name delta : String)
  | reasoningEncryptedValue (encryptedValue : String)
  | messagesSnapshot (messages : List Value)
  | activitySnapshot (messageId activityType : String) (content : Value) (replace : Option Bool)
  | activityDelta (messageId activityType : String) (patch : List Value)
  | toolCallResumed (targetId : String) (result : Value)
  | toolCallCancel (id name reason : String)
  | streamReset (reason : String)
  | stepStart (messageId : String)
  | stepEnd
  | inferenceComplete (model : String) (usage : Value) (durationMs : UInt64)
  | stateSnapshot (snapshot : Value)
  | stateDelta (delta : List Value)
  | error (message : String) (code : Option String)

/-- The event is a `RunStart`. -/
def AgentEvent.isRunStart : AgentEvent → Bool
  | runStart _ _ _ => true
  | _ => false

/-- `AgentEvent::is_terminal`. -/
def AgentEvent.isTerminal : AgentEvent → Bool
  | runFinish _ _ _ _ => true
  | error _ _ => true
  | _ => false

/-- Guards against emitting events after a terminal event. -/
structure TerminalGuard where
  finished : Bool
deriving Repr, DecidableEq

/-- `TerminalGuard::new`. -/
def TerminalGuard.new : TerminalGuard := ⟨false⟩

/-- `TerminalGuard::mark_finished`. -/
def TerminalGuard.markFinished (_ : TerminalGuard) : TerminalGuard := ⟨true⟩

@[simp] theorem TerminalGuard.markFinished_finished (guard : TerminalGuard) :
    guard.markFinished.finished = true := rfl

/-- Classification of a `ToolCallResumed` result payload. -/
inductive ResumedOutcome where
  | error (message : String)
  | denied
  | success
deriving Repr, DecidableEq

/-- `classify_resumed_result`. -/
def classifyResumedResult (result : Value) : ResumedOutcome :=
  match result.get "error", result.get "approved" with
  | some (.string message), _ => .error message
  | _, some (.bool false) => .denied
  | _, _ => .success

end Protocol

end Remo
