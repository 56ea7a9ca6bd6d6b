import Remo.Native.Loop.LoopStates

/-!
# Agent events

What the loop and the steps it takes emit to the event sink of a run. Of an event's payload only
what its readers look at is kept.
-/

namespace Remo

/-- The `result` of a `RunFinish` event. -/
structure RunFinishResult where
  response : String
  status : String
  statusReason : Option String
deriving Repr, DecidableEq

inductive ToolStatus where
  | success
  | pending
  | error
deriving Repr, DecidableEq

inductive ToolCallOutcome where
  | suspended
  | succeeded
  | failed
deriving Repr, DecidableEq

/-- A tool result: its status, the resume mode and the suspension id of its ticket, and whether
    its metadata has a `rejected` entry and a true `timed_out` entry. -/
structure ToolResultMarks where
  status : ToolStatus
  suspension : Option (ToolCallResumeMode × String)
  rejected : Bool
  timedOut : Bool
deriving Repr, DecidableEq

/-- The events that inference and tools emit in a step. -/
inductive StepEvent where
  | textDelta
  | reasoningDelta
  | reasoningEncryptedValue
  | toolCallStart
  | toolCallDelta
  | toolCallReady
  | toolCallDone (result : ToolResultMarks) (outcome : ToolCallOutcome)
  | toolCallStreamDelta
  | toolCallResumed
  | toolCallCancel
  | streamReset
  | inferenceComplete
  | messagesSnapshot
  | activitySnapshot
  | activityDelta
  | stateDelta
  | error
deriving Repr, DecidableEq

inductive AgentEvent where
  | runStart (threadId runId : String)
  | runFinish (threadId runId : String) (result : Option RunFinishResult)
      (termination : TerminationReason)
  | stepStart
  | stepEnd
  | stateSnapshot
  | inStep (event : StepEvent)
deriving Repr, DecidableEq

/-- The event says that a run starts or finishes. -/
def AgentEvent.isRunEvent : AgentEvent → Bool
  | runStart _ _ => true
  | runFinish _ _ _ _ => true
  | _ => false

end Remo
