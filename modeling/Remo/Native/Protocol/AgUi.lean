import Remo.Native.Protocol.Shared

/-!
# The AG-UI encoder

Maps agent events to AG-UI events. The fields of `BaseEvent` are always absent and left out. The
step counter wraps around, as it does in a release build.
-/

namespace Remo

namespace AgUi

/-- AG-UI message role. -/
inductive Role where
  | system
  | user
  | assistant
  | reasoning
  | tool
deriving Repr, DecidableEq

/-- AG-UI interrupt payload. -/
structure InterruptPayload where
  id : Option String
  reason : Option String
  payload : Option Value

/-- The AG-UI protocol events that the encoder writes. -/
inductive Event where
  | runStarted (threadId runId : String) (parentRunId : Option String)
  | runFinished (threadId runId : String) (result : Option Value) (outcome : Option String)
      (interrupt : Option InterruptPayload)
  | runError (message : String) (code : Option String)
  | stepStarted (stepName : String)
  | stepFinished (stepName : String)
  | textMessageStart (messageId : String) (role : Role)
  | textMessageContent (messageId delta : String)
  | textMessageEnd (messageId : String)
  | reasoningMessageStart (messageId : String) (role : Role)
  | reasoningMessageContent (messageId delta : String)
  | reasoningMessageEnd (messageId : String)
  | reasoningEncryptedValue (entityId encryptedValue : String)
  | toolCallStart (toolCallId toolCallName : String) (parentMessageId : Option String)
  | toolCallArgs (toolCallId delta : String)
  | toolCallEnd (toolCallId : String)
  | toolCallResult (messageId toolCallId content : String) (role : Option Role)
  | stateSnapshot (snapshot : Value)
  | stateDelta (delta : List Value)
  | messagesSnapshot (messages : List Value)
  | activitySnapshot (messageId activityType : String) (content : List (String × Value))
      (replace : Option Bool)
  | activityDelta (messageId activityType : String) (patch : List Value)

/-- `Event::run_interrupted`. -/
def Event.runInterrupted (threadId runId : String) (interrupt : InterruptPayload) : Event :=
  .runFinished threadId runId none (some "interrupt") (some interrupt)

/-- `Event::tool_call_result`. -/
def Event.toolCallResultOf (messageId toolCallId content : String) : Event :=
  .toolCallResult messageId toolCallId content (some .tool)

end AgUi

open Protocol (TerminalGuard)

/-- Stateful AG-UI protocol encoder. -/
structure AgUiEncoder where
  messageId : String
  textOpen : Bool
  stepCounter : UInt32
  reasoningOpen : Bool
  guard : TerminalGuard
  pendingInterrupts : AssocMap String (String × Option String)
  lastInterrupt : Option (String × Option String)

namespace AgUiEncoder

open AgUi (Event)

/-- `AgUiEncoder::new`. -/
def new : AgUiEncoder :=
  { messageId := ""
    textOpen := false
    stepCounter := 0
    reasoningOpen := false
    guard := .new
    pendingInterrupts := .empty
    lastInterrupt := none }

/-- `close_text`. -/
def closeText (enc : AgUiEncoder) : List Event × AgUiEncoder :=
  if enc.textOpen then ([.textMessageEnd enc.messageId], { enc with textOpen := false })
  else ([], enc)

/-- `close_reasoning`. -/
def closeReasoning (enc : AgUiEncoder) : List Event × AgUiEncoder :=
  if enc.reasoningOpen then
    ([.reasoningMessageEnd enc.messageId], { enc with reasoningOpen := false })
  else ([], enc)

/-- Text first, then reasoning. -/
def closeBlocks (enc : AgUiEncoder) : List Event × AgUiEncoder :=
  let (text, enc) := enc.closeText
  let (reasoning, enc) := enc.closeReasoning
  (text ++ reasoning, enc)

/-- The call no longer waits. The last interrupt is then any of those that are left. -/
def dropInterrupt (enc : AgUiEncoder) (id : String) : AgUiEncoder :=
  let pendingInterrupts := enc.pendingInterrupts.retain fun pending _ => pending ≠ id
  { enc with
    pendingInterrupts := pendingInterrupts
    lastInterrupt := pendingInterrupts.values.head? }

/-- The name of the current step. -/
def stepName (enc : AgUiEncoder) : String := s!"step_{enc.stepCounter}"

/-- What `on_agent_event` does once the guard lets the event through. -/
def encode (enc : AgUiEncoder) : Protocol.AgentEvent → List Event × AgUiEncoder
  | .runStart threadId runId parentRunId =>
    ([.runStarted threadId runId parentRunId], { enc with messageId := runId })
  | .textDelta delta =>
    let start := if enc.textOpen then [] else [.textMessageStart enc.messageId .assistant]
    (start ++ [.textMessageContent enc.messageId delta], { enc with textOpen := true })
  | .reasoningDelta delta =>
    let start := if enc.reasoningOpen then [] else [.reasoningMessageStart enc.messageId .reasoning]
    (start ++ [.reasoningMessageContent enc.messageId delta], { enc with reasoningOpen := true })
  | .reasoningEncryptedValue encryptedValue =>
    ([.reasoningEncryptedValue enc.messageId encryptedValue], enc)
  | .toolCallStart id name =>
    let (closed, enc) := enc.closeBlocks
    (closed ++ [.toolCallStart id name (some enc.messageId)], enc)
  | .toolCallDelta id argsDelta => ([.toolCallArgs id argsDelta], enc)
  | .toolCallReady id _ _ => ([.toolCallEnd id], enc)
  | .toolCallDone id messageId result =>
    match result.status with
    | .success =>
      let content :=
        if result.metadata = [] then result.data.print
        else (Value.object [("data", result.data), ("metadata", .object result.metadata)]).print
      ([.toolCallResultOf messageId id content], enc.dropInterrupt id)
    | .error =>
      ([.toolCallResultOf messageId id (result.message.getD "tool error")], enc.dropInterrupt id)
    | .pending =>
      match result.suspension with
      | some ticket =>
        let interrupt := (ticket.suspensionId,
          if Str.isBlank ticket.suspensionAction then none else some ticket.suspensionAction)
        ([], { enc with
          pendingInterrupts := enc.pendingInterrupts.insert id interrupt
          lastInterrupt := some interrupt })
      | none => ([], enc)
  | .stepStart messageId =>
    let enc := { enc with
      stepCounter := enc.stepCounter + 1
      messageId := if messageId = "" then enc.messageId else messageId }
    ([.stepStarted enc.stepName], enc)
  | .stepEnd =>
    let (closed, enc) := enc.closeBlocks
    (closed ++ [.stepFinished enc.stepName], enc)
  | .runFinish threadId runId result termination =>
    let (closed, enc) := { enc with guard := enc.guard.markFinished }.closeBlocks
    match termination with
    | .error message => (closed ++ [.runError message none], enc)
    | .suspended =>
      let (interruptId, interruptReason) := match enc.lastInterrupt with
        | some (id, reason) => (some id, reason)
        | none => (none, some "tool_approval")
      (closed ++ [.runInterrupted threadId runId ⟨interruptId, interruptReason, none⟩], enc)
    | _ => (closed ++ [.runFinished threadId runId result none none], enc)
  | .error message code =>
    ([.runError message code], { enc with guard := enc.guard.markFinished })
  | .stateSnapshot snapshot => ([.stateSnapshot snapshot], enc)
  | .stateDelta delta => ([.stateDelta delta], enc)
  | .messagesSnapshot messages => ([.messagesSnapshot messages], enc)
  | .activitySnapshot messageId activityType content replace =>
    let entries := content.asObject.getD [("value", content)]
    ([.activitySnapshot messageId activityType entries replace], enc)
  | .activityDelta messageId activityType patch =>
    ([.activityDelta messageId activityType patch], enc)
  | .toolCallResumed targetId result =>
    ([.toolCallResultOf enc.messageId targetId result.print], enc.dropInterrupt targetId)
  | .toolCallStreamDelta id _ delta =>
    ([.activityDelta id "tool-stream-output"
      [.object [("op", .string "add"), ("path", .string "/delta"), ("value", .string delta)]]], enc)
  | .inferenceComplete _ _ _ => ([], enc)
  | .toolCallCancel _ _ _ => ([], enc)
  | .streamReset _ => ([], enc)

/-- `on_agent_event`. A finished encoder writes nothing until the next `RunStart`. -/
def onAgentEvent (enc : AgUiEncoder) (ev : Protocol.AgentEvent) : List Event × AgUiEncoder :=
  if enc.guard.finished then
    if ev.isRunStart then { enc with guard := .new }.encode ev else ([], enc)
  else enc.encode ev

end AgUiEncoder

end Remo
