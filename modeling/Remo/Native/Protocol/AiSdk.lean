import Remo.Native.Protocol.Shared

/-!
# The AI SDK v6 encoder

Maps agent events to UI stream events. Fields that the encoder always leaves absent
(`providerMetadata`, `dynamic`, `messageMetadata`) are left out. The text counter wraps around,
as it does in a release build.
-/

namespace Remo

namespace AiSdk

/-- The AI SDK v6 UI message stream events that the encoder writes. -/
inductive UIStreamEvent where
  | messageStart (messageId : Option String)
  | textStart (id : String)
  | textDelta (id delta : String)
  | textEnd (id : String)
  | reasoningStart (id : String)
  | reasoningDelta (id delta : String)
  | reasoningEnd (id : String)
  | toolInputStart (toolCallId toolName : String)
  | toolInputDelta (toolCallId inputTextDelta : String)
  | toolInputAvailable (toolCallId toolName : String) (input : Value)
  | toolOutputAvailable (toolCallId : String) (output : Value)
      (preliminary providerExecuted : Option Bool)
  | toolOutputError (toolCallId errorText : String) (providerExecuted : Option Bool)
  | toolOutputDenied (toolCallId : String)
  | toolApprovalRequest (approvalId toolCallId : String)
  | startStep
  | finishStep
  | finish (finishReason : Option String)
  | error (errorText : String)
  | sourceUrl (sourceId url : String) (title : Option String)
  | sourceDocument (sourceId mediaType : String) (title filename : Option String)
  | file (url mediaType : String)
  | data (dataType : String) (id : Option String) (data : Value) (transient : Option Bool)

namespace UIStreamEvent

/-- `UIStreamEvent::data_with_options`. -/
def dataWithOptions (name : String) (value : Value) (id : Option String)
    (transient : Option Bool) : UIStreamEvent :=
  .data (if "data-".toList <+: name.toList then name else s!"data-{name}") id value transient

/-- `UIStreamEvent::data`. -/
def dataOf (name : String) (value : Value) : UIStreamEvent := dataWithOptions name value none none

/-- `UIStreamEvent::tool_output_available` and `tool_output_resumed`. -/
def toolOutput (toolCallId : String) (output : Value) : UIStreamEvent :=
  .toolOutputAvailable toolCallId output none (some true)

/-- `UIStreamEvent::tool_output_preliminary`. -/
def toolOutputPreliminary (toolCallId : String) (output : Value) : UIStreamEvent :=
  .toolOutputAvailable toolCallId output (some true) (some true)

end UIStreamEvent

end AiSdk

open Protocol (TerminalGuard)

/-- Stateful encoder for the AI SDK v6 UI message stream protocol. The open reasoning ids stand in
    the order the hash set drains them. -/
structure AiSdkEncoder where
  messageId : String
  textOpen : Bool
  textCounter : UInt32
  guard : TerminalGuard
  messageIdSet : Bool
  openReasoningIds : List String
  streamAccumulators : AssocMap String String

namespace AiSdkEncoder

open AiSdk (UIStreamEvent)
open AiSdk.UIStreamEvent (dataOf dataWithOptions toolOutput toolOutputPreliminary)

/-- `AiSdkEncoder::new`. -/
def new : AiSdkEncoder :=
  { messageId := ""
    textOpen := false
    textCounter := 0
    guard := .new
    messageIdSet := false
    openReasoningIds := []
    streamAccumulators := .empty }

/-- `text_id`. -/
def textId (enc : AiSdkEncoder) : String := s!"txt_{enc.textCounter}"

/-- `close_text`, when a text block is open. -/
def closeText (enc : AiSdkEncoder) : List UIStreamEvent × AiSdkEncoder :=
  if enc.textOpen then
    ([.textEnd enc.textId], { enc with textOpen := false, textCounter := enc.textCounter + 1 })
  else ([], enc)

/-- `close_all_reasoning`. -/
def closeAllReasoning (enc : AiSdkEncoder) : List UIStreamEvent × AiSdkEncoder :=
  ((enc.openReasoningIds.insertionSort (· ≤ ·)).map .reasoningEnd,
    { enc with openReasoningIds := [] })

/-- Text first, then reasoning. -/
def closeBlocks (enc : AiSdkEncoder) : List UIStreamEvent × AiSdkEncoder :=
  let (text, enc) := enc.closeText
  let (reasoning, enc) := enc.closeAllReasoning
  (text ++ reasoning, enc)

/-- `reasoning_id_for` without a suffix. -/
def reasoningIdFor (messageId : String) : String := s!"reasoning_{messageId}"

/-- A string field of a JSON object. -/
def strField (obj : Value) (name : String) : Option String :=
  match obj.get name with
  | some (.string s) => some s
  | _ => none

/-- The dedicated events that some activity types stand for. -/
def activityEvents (messageId activityType : String) (content : Value) : List UIStreamEvent :=
  match content with
  | .object _ =>
    let sourceId := (strField content "sourceId").getD messageId
    let url := (strField content "url").getD ""
    let mediaType := (strField content "mediaType").getD "application/octet-stream"
    let title := strField content "title"
    if activityType = "source-url" then [.sourceUrl sourceId url title]
    else if activityType = "source-document" then
      [.sourceDocument sourceId mediaType title (strField content "filename")]
    else if activityType = "file" then [.file url mediaType]
    else []
  | _ => []

/-- The finish reason of a termination other than a suspension. -/
def finishReason : TerminationReason → String
  | .error _ => "error"
  | .blocked _ => "content-filter"
  | _ => "stop"

/-- What `on_agent_event` does once the guard lets the event through. -/
def encode (enc : AiSdkEncoder) : Protocol.AgentEvent → List UIStreamEvent × AiSdkEncoder
  | .runStart threadId runId _ =>
    ([.messageStart (some runId),
      dataOf "run-info" (.object [("runId", .string runId), ("threadId", .string threadId)])],
      { enc with messageId := runId })
  | .textDelta delta =>
    let start := if enc.textOpen then [] else [.textStart enc.textId]
    (start ++ [.textDelta enc.textId delta], { enc with textOpen := true })
  | .reasoningDelta delta =>
    let reasoningId := reasoningIdFor enc.messageId
    if reasoningId ∈ enc.openReasoningIds then ([.reasoningDelta reasoningId delta], enc)
    else
      ([.reasoningStart reasoningId, .reasoningDelta reasoningId delta],
        { enc with openReasoningIds := reasoningId :: enc.openReasoningIds })
  | .reasoningEncryptedValue encryptedValue =>
    ([dataWithOptions "reasoning-encrypted" (.object [("encryptedValue", .string encryptedValue)])
      (some (reasoningIdFor enc.messageId)) (some true)], enc)
  | .toolCallStart id name =>
    let (closed, enc) := enc.closeText
    (closed ++ [.toolInputStart id name], enc)
  | .toolCallDelta id argsDelta => ([.toolInputDelta id argsDelta], enc)
  | .toolCallReady id name arguments => ([.toolInputAvailable id name arguments], enc)
  | .toolCallStreamDelta id _ delta =>
    let acc := (enc.streamAccumulators.get? id).getD "" ++ delta
    ([toolOutputPreliminary id (.string acc)],
      { enc with streamAccumulators := enc.streamAccumulators.insert id acc })
  | .toolCallDone id _ result =>
    -- the accumulated stream output of the call is dropped first
    let enc := { enc with
      streamAccumulators := enc.streamAccumulators.retain fun call _ => call ≠ id }
    match result.status with
    | .success =>
      let output :=
        if result.metadata = [] then result.data
        else .object [("data", result.data), ("metadata", .object result.metadata)]
      ([toolOutput id output], enc)
    | .pending =>
      match result.suspension with
      | some ticket =>
        if ticket.resumeMode = .replayToolCall ∧ Str.isBlank ticket.suspensionId = false then
          ([.toolApprovalRequest ticket.suspensionId id], enc)
        else ([], enc)
      | none => ([], enc)
    | .error =>
      ([.toolOutputError id (result.message.getD "tool execution error") (some true)], enc)
  | .toolCallResumed targetId result =>
    match Protocol.classifyResumedResult result with
    | .error message => ([.toolOutputError targetId message (some true)], enc)
    | .denied => ([.toolOutputDenied targetId], enc)
    | .success => ([toolOutput targetId result], enc)
  | .stepStart messageId =>
    if enc.messageIdSet = false ∧ messageId ≠ "" then
      ([.startStep], { enc with messageId := messageId, messageIdSet := true })
    else ([.startStep], enc)
  | .stepEnd =>
    let (closed, enc) := enc.closeBlocks
    (closed ++ [.finishStep], enc)
  | .runFinish _ _ _ termination =>
    let (closed, enc) := { enc with guard := enc.guard.markFinished }.closeBlocks
    match termination with
    | .suspended => (closed ++ [.finishStep, .finish (some "tool-calls")], enc)
    | _ => (closed ++ [.finish (some (finishReason termination))], enc)
  | .error message _ => ([.error message], { enc with guard := enc.guard.markFinished })
  | .stateSnapshot snapshot => ([dataOf "state-snapshot" snapshot], enc)
  | .stateDelta delta => ([dataOf "state-delta" (.array delta)], enc)
  | .messagesSnapshot messages => ([dataOf "messages-snapshot" (.array messages)], enc)
  | .activitySnapshot messageId activityType content replace =>
    (activityEvents messageId activityType content ++ [dataOf "activity-snapshot" (.object
      [("activityType", .string activityType), ("content", content),
        ("messageId", .string messageId),
        ("replace", match replace with | some b => .bool b | none => .null)])], enc)
  | .activityDelta messageId activityType patch =>
    ([dataOf "activity-delta" (.object [("activityType", .string activityType),
      ("messageId", .string messageId), ("patch", .array patch)])], enc)
  | .inferenceComplete model usage durationMs =>
    ([dataOf "inference-complete" (.object [("durationMs", .number (toString durationMs)),
      ("model", .string model), ("usage", usage)])], enc)
  | .toolCallCancel _ _ _ => ([], enc)
  | .streamReset _ => ([], enc)

/-- `on_agent_event`. A finished encoder writes nothing until the next `RunStart`. -/
def onAgentEvent (enc : AiSdkEncoder) (ev : Protocol.AgentEvent) :
    List UIStreamEvent × AiSdkEncoder :=
  if enc.guard.finished then
    if ev.isRunStart then { enc with guard := .new }.encode ev else ([], enc)
  else enc.encode ev

end AiSdkEncoder

end Remo
