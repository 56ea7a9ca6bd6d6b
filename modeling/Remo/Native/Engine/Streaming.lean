import Remo.ForStd.AssocMap
import Remo.ForStd.TextSlice
import Remo.Native.Message.Message
import Remo.Native.Value

/-!
# The collector of a streaming response

Stream events are accumulated into the result of an inference, and each event says what is
emitted for it. A chunk of a tool call carries all of its arguments so far; what is emitted is
the part behind the length of the arguments before. A slice that does not begin at a character
panics.
-/

namespace Remo

/-- `str::len`. -/
def byteLen (s : String) : Nat := Utf8.size s.toList

/-- `&s[pos..]`, which panics when no character begins at the position. -/
def textFrom (s : String) (pos : Nat) : Option String :=
  (Utf8.dropBytes s.toList pos).map String.ofList

/-! ## Provider events -/

/-- A tool call as the provider client delivers it. -/
structure ProviderToolCall where
  callId : String
  fnName : String
  fnArguments : Value

/-- Why the provider stopped. -/
inductive ProviderStopReason where
  | completed (reason : String)
  | maxTokens (reason : String)
  | toolCall (reason : String)
  | stopSequence (reason : String)
  | contentFilter (reason : String)
  | other (reason : String)
deriving Repr, DecidableEq

/-- The token counts of the provider. -/
structure ProviderUsage where
  promptTokens : Option Int
  completionTokens : Option Int
  totalTokens : Option Int
  /-- The cached tokens and the cache creation tokens. -/
  promptTokensDetails : Option (Option Int × Option Int)
  /-- The reasoning tokens. -/
  completionTokensDetails : Option (Option Int)
deriving Repr, DecidableEq

structure StreamEnd where
  capturedUsage : Option ProviderUsage
  capturedStopReason : Option ProviderStopReason
  capturedToolCalls : Option (List ProviderToolCall)
  capturedFirstText : Option String

/-- A stream event of the provider client. -/
inductive ChatStreamEvent where
  | start
  | chunk (content : String)
  | reasoningChunk (content : String)
  | thoughtSignatureChunk (content : String)
  | toolCallChunk (call : ProviderToolCall)
  | streamEnd (captured : StreamEnd)

/-! ## The result -/

/-- Why the LLM stopped generating output. -/
inductive StopReason where
  | endTurn
  | maxTokens
  | toolUse
  | stopSequence
deriving Repr, DecidableEq

/-- Provider-neutral token usage. -/
structure TokenUsage where
  promptTokens : Option Int
  completionTokens : Option Int
  totalTokens : Option Int
  cacheReadTokens : Option Int
  cacheCreationTokens : Option Int
  thinkingTokens : Option Int
deriving Repr, DecidableEq

def mapStopReason : ProviderStopReason → Option StopReason
  | .completed _ => some .endTurn
  | .maxTokens _ => some .maxTokens
  | .toolCall _ => some .toolUse
  | .stopSequence _ => some .stopSequence
  | .contentFilter _ => none
  | .other _ => none

def mapUsage (u : ProviderUsage) : TokenUsage where
  promptTokens := u.promptTokens
  completionTokens := u.completionTokens
  totalTokens := u.totalTokens
  cacheReadTokens := u.promptTokensDetails.bind Prod.fst
  cacheCreationTokens := u.promptTokensDetails.bind Prod.snd
  thinkingTokens := u.completionTokensDetails.bind id

/-- The collected inference. -/
structure StreamResult where
  /-- The text block, if there is text. -/
  content : List String
  toolCalls : List ToolCall
  usage : Option TokenUsage
  stopReason : Option StopReason
  hasIncompleteToolCalls : Bool
deriving Repr, DecidableEq

/-- Output from processing a single stream event. -/
inductive StreamOutput where
  | textDelta (delta : String)
  | reasoningDelta (delta : String)
  /-- A new tool call was started. -/
  | toolCallStart (id name : String)
  /-- Tool call arguments delta (incremental JSON fragment). -/
  | toolCallDelta (id argsDelta : String)
  /-- Nothing to emit for this event. -/
  | none
deriving Repr, DecidableEq

/-! ## The collector -/

structure PartialToolCall where
  id : String
  name : String
  arguments : String
  startEmitted : Bool
deriving Repr, DecidableEq

/-- Accumulates streaming events into a final `StreamResult`. -/
structure StreamCollector where
  text : String
  toolCalls : AssocMap String PartialToolCall
  toolCallOrder : List String
  usage : Option TokenUsage
  stopReason : Option StopReason
  pendingOutputs : List StreamOutput
  endSeen : Bool
  bytesReceived : Nat

namespace StreamCollector

def new : StreamCollector := ⟨"", .empty, [], none, none, [], false, 0⟩

/-- Take the next deferred output produced by the previous provider event, if any. -/
def takePendingOutput (self : StreamCollector) : Option StreamOutput × StreamCollector :=
  (self.pendingOutputs.head?, { self with pendingOutputs := self.pendingOutputs.tail })

end StreamCollector

/-- The accumulated arguments of a chunk: the raw text of a string, any other value printed. -/
def argsStrOf : Value → String
  | .string s => s
  | value => value.print

/-- The arguments behind the length of the previous ones. -/
def argsDelta (prevArgsLen : Nat) (argsStr : String) : Option String :=
  if prevArgsLen < byteLen argsStr then textFrom argsStr prevArgsLen else some ""

def toolArgsHaveContent : Value → Bool
  | .null => false
  | .string s => !s.isEmpty
  | .array elems => !elems.isEmpty
  | .object entries => !entries.isEmpty
  | .bool _ => true
  | .number _ => true

namespace StreamCollector

variable (self : StreamCollector)

/-- The entry of a call, a new one when there is none yet. -/
def entryOf (id : String) : PartialToolCall := (self.toolCalls.get? id).getD ⟨id, "", "", false⟩

/-- `process` for a tool call chunk. -/
def processToolCall (call : ProviderToolCall) : Option (StreamOutput × StreamCollector) := do
  let id := call.callId
  let entry := self.entryOf id
  let prevArgsLen := byteLen entry.arguments
  let order :=
    if (self.toolCalls.get? id).isSome then self.toolCallOrder else self.toolCallOrder ++ [id]
  let name := if call.fnName.isEmpty then entry.name else call.fnName
  let argsStr := argsStrOf call.fnArguments
  let delta ← argsDelta prevArgsLen argsStr
  let shouldEmitStart := !entry.startEmitted && !name.isEmpty
  let next := { self with
    toolCalls := self.toolCalls.insert id
      { entry with
        name := name
        arguments := argsStr
        startEmitted := entry.startEmitted || shouldEmitStart }
    toolCallOrder := order
    bytesReceived := self.bytesReceived + byteLen delta }
  if shouldEmitStart then
    let pending :=
      if toolArgsHaveContent call.fnArguments then [StreamOutput.toolCallDelta id argsStr] else []
    some (.toolCallStart id name, { next with pendingOutputs := next.pendingOutputs ++ pending })
  else if entry.startEmitted && !delta.isEmpty then some (.toolCallDelta id delta, next)
  else some (.none, next)

/-- The entry of a captured call. -/
def capturedEntry (call : ProviderToolCall) : PartialToolCall where
  id := call.callId
  name := call.fnName
  arguments := call.fnArguments.print
  startEmitted := true

def applyEnd (captured : StreamEnd) : StreamCollector :=
  let usage :=
    match captured.capturedUsage with
    | some usage => some (mapUsage usage)
    | none => self.usage
  let stopReason :=
    match captured.capturedStopReason with
    | some reason => mapStopReason reason
    | none => self.stopReason
  let ended := { self with endSeen := true, usage := usage, stopReason := stopReason }
  -- captured tool calls override streaming chunks (source of truth)
  let ended :=
    match captured.capturedToolCalls with
    | some calls =>
      { ended with
        toolCalls := calls.foldl (fun m call => m.insert call.callId (capturedEntry call)) .empty
        toolCallOrder := calls.map ProviderToolCall.callId }
    | none => ended
  -- captured text overrides accumulated text
  match captured.capturedFirstText with
  | some text => { ended with text := text }
  | none => ended

/-- Process a stream event. Returns what to emit to the event sink; `none` is a panic. -/
def process : ChatStreamEvent → Option (StreamOutput × StreamCollector)
  | .start => some (.none, self)
  | .chunk content =>
    some (.textDelta content,
      { self with
        bytesReceived := self.bytesReceived + byteLen content
        text := self.text ++ content })
  | .reasoningChunk content =>
    some (.reasoningDelta content,
      { self with bytesReceived := self.bytesReceived + byteLen content })
  | .thoughtSignatureChunk _ => some (.none, self)
  | .toolCallChunk call => self.processToolCall call
  | .streamEnd captured => some (.none, self.applyEnd captured)

/-- `Value::is_null`. -/
def isNull : Value → Bool
  | .null => true
  | .bool _ => false
  | .number _ => false
  | .string _ => false
  | .array _ => false
  | .object _ => false

end StreamCollector

end Remo
