import Remo.Native.Engine.Streaming

/-!
# Streaming inference with recovery

An inference opens a stream and accumulates its deltas. When the stream is interrupted what was
accumulated decides how to go on: with the text as a prefix of the next request, with the tool
calls that are complete, or from the start. What was accumulated is flushed to a checkpoint now and
then, and a process that finds a checkpoint starts with the recovery from it.

There is no cancellation token. Everything a call does to its surroundings is an effect, in order.
-/

namespace Remo

/-! ## Interruptions -/

/-- A token-level streaming event from the LLM. -/
inductive LlmStreamEvent where
  | textDelta (delta : String)
  | reasoningDelta (delta : String)
  | toolCallStart (id name : String)
  | toolCallDelta (id argsDelta : String)
  | contentBlockStop
  | usage (usage : TokenUsage)
  | stop (reason : StopReason)
deriving Repr, DecidableEq

/-- Cause of a mid-stream interruption. -/
inductive InterruptCause where
  | connectionReset
  | idleStall
  | goAway
  | provider5xxMidStream (status : UInt16)
  | resumedFromCheckpoint
deriving Repr, DecidableEq

/-- The displayed cause. -/
def InterruptCause.text : InterruptCause → String
  | .connectionReset => "connection reset"
  | .idleStall => "idle stall"
  | .goAway => "goaway"
  | .provider5xxMidStream status => s!"provider {status} mid-stream"
  | .resumedFromCheckpoint => "resumed from checkpoint"

/-- A tool call observed mid-stream whose arguments did not close. -/
structure InFlightTool where
  id : String
  name : String
  partialArgs : String
deriving Repr, DecidableEq

/-- What had been accumulated when the stream was interrupted. -/
structure InterruptSnapshot where
  text : Option String
  completedToolCalls : List ToolCall
  inFlightTool : Option InFlightTool
  bytesReceived : Nat
deriving Repr, DecidableEq

/-- Errors from LLM inference. The hints when to try again are left out. -/
inductive InferenceExecutionError where
  | provider (message : String)
  | rateLimited (message : String)
  | overloaded (message : String)
  | timeout (message : String)
  | streamInterrupted (cause : InterruptCause) (snapshot : InterruptSnapshot)
  | contextOverflow (message : String)
  | invalidRequest (message : String)
  | unauthorized (message : String)
  | modelNotFound (message : String)
  | contentFiltered (message : String)
  | allModelsUnavailable
  | poolAttemptsExhausted
  | cancelled
deriving Repr, DecidableEq

/-- `str::to_lowercase`, as far as the ASCII letters of the result go. -/
def asciiLowercase (s : String) : String :=
  String.ofList (s.toList.map fun c =>
    if 0x41 ≤ c.toNat ∧ c.toNat ≤ 0x5A then Char.ofNat (c.toNat + 0x20)
    -- the Kelvin sign and the capital I with a dot
    else if c.toNat = 0x212A then 'k'
    else if c.toNat = 0x130 then 'i'
    else c)

def interpretTransportMessage (message : String) : InterruptCause :=
  let lower := asciiLowercase message
  if Str.contains lower "goaway" || Str.contains lower "go_away" ||
      Str.contains lower "http/2 going away" || Str.contains lower "connection: close" then
    .goAway
  else if Str.contains lower "connection reset" || Str.contains lower "econnreset" then
    .connectionReset
  else if Str.startsWith "502" lower || Str.startsWith "503" lower ||
      Str.contains lower "502 bad gateway" || Str.contains lower "503 service unavailable" then
    .provider5xxMidStream 503
  else .connectionReset

/-- The cause of an interruption, for the errors that recovery is for. -/
def classifyMidStream : InferenceExecutionError → Option InterruptCause
  | .provider message => some (interpretTransportMessage message)
  | .timeout message => some (interpretTransportMessage message)
  | .rateLimited message => some (interpretTransportMessage message)
  | .overloaded message => some (interpretTransportMessage message)
  | .streamInterrupted cause _ => some cause
  | _ => none

/-! ## Recovery plans -/

/-- Chosen recovery path for a mid-stream interruption. -/
inductive RecoveryPlan where
  | continueText (assistantPrefix : String)
  | synthesizeToolUse (completed : List ToolCall) (cancelledToolHint : Option InFlightTool)
  | truncateBeforeTool (assistantPrefix cancelledToolId cancelledToolName : String)
  | wholeRestart
deriving Repr, DecidableEq

/-- An id, a name and the JSON text of arguments. -/
structure PartialCall where
  id : String
  name : String
  argsJson : String
deriving Repr, DecidableEq

section Parser

-- `serde_json::from_str`.
variable (fromStr : String → Option Value)

/-- The call, when it has a name and its arguments parse. -/
def PartialCall.complete? (self : PartialCall) : Option ToolCall :=
  if self.name.isEmpty then none
  else
    match fromStr self.argsJson with
    | some arguments =>
      if !StreamCollector.isNull arguments || self.argsJson.isEmpty then
        some ⟨self.id, self.name, ⟨arguments.print⟩⟩
      else none
    | none => none

def PartialCall.inFlight (self : PartialCall) : InFlightTool := ⟨self.id, self.name, self.argsJson⟩

/-- One step of the loop over the partial calls. -/
def takePartial (calls : List ToolCall × Option InFlightTool) (call : PartialCall) :
    List ToolCall × Option InFlightTool :=
  match call.complete? fromStr with
  | some complete => (calls.1 ++ [complete], calls.2)
  -- the last one of several is kept
  | none => (calls.1, some call.inFlight)

def InterruptSnapshot.fromPartials (text : Option String) (partials : List PartialCall)
    (bytesReceived : Nat) : InterruptSnapshot :=
  let calls := partials.foldl (takePartial fromStr) ([], none)
  ⟨text, calls.1, calls.2, bytesReceived⟩

end Parser

/-- Decide which recovery plan applies to a snapshot. -/
def InterruptSnapshot.plan (self : InterruptSnapshot) : RecoveryPlan :=
  let text := self.text.getD ""
  if !self.completedToolCalls.isEmpty then
    .synthesizeToolUse self.completedToolCalls self.inFlightTool
  else if !text.isEmpty then
    match self.inFlightTool with
    | some tool => .truncateBeforeTool text tool.id tool.name
    | none => .continueText text
  else .wholeRestart

/-! ## Effects -/

/-- The events of an inference. -/
inductive SinkEvent where
  | textDelta (delta : String)
  | reasoningDelta (delta : String)
  | toolCallStart (id name : String)
  | toolCallDelta (id argsDelta : String)
  | toolCallReady (id name : String) (arguments : Json)
  | toolCallCancel (id name reason : String)
  | streamReset (reason : String)
deriving Repr, DecidableEq

/-- A provider-neutral LLM inference request, without the fields that recovery leaves alone. -/
structure InferenceRequest where
  upstreamModel : String
  messages : List Message
deriving Repr, DecidableEq

structure StreamingAccumulator where
  /-- The texts of the blocks. -/
  contentBlocks : List String
  usage : Option TokenUsage
  stopReason : Option StopReason
  currentText : String
  currentToolArgs : AssocMap String String
  toolNames : AssocMap String String
  toolOrder : List String
  bytesReceived : Nat

/-- A persisted snapshot of what a run has accumulated. -/
structure StreamCheckpoint where
  runId : String
  threadId : String
  upstreamModel : String
  partialText : String
  completedToolCalls : List ToolCall
  inFlightTool : Option InFlightTool
deriving Repr, DecidableEq

/-- Identifies a run for stream-checkpoint purposes. -/
structure CheckpointHandle where
  runId : String
  threadId : String
deriving Repr, DecidableEq

inductive StreamEffect where
  /-- `execute_stream`. -/
  | openStream (request : InferenceRequest)
  | emit (event : SinkEvent)
  | addTokens (usage : TokenUsage)
  /-- `flush_checkpoint` during the stream of the request. -/
  | flushCheckpoint (request : InferenceRequest) (acc : StreamingAccumulator)
  | deleteCheckpoint
  | recordStreamFailure
  | recordStreamSuccess

/-! ## The accumulator -/

namespace StreamingAccumulator

def default : StreamingAccumulator := ⟨[], none, none, "", .empty, .empty, [], 0⟩

/-- The calls that were started, in order. -/
def partials (self : StreamingAccumulator) : List PartialCall :=
  self.toolOrder.map fun id =>
    ⟨id, (self.toolNames.get? id).getD "", (self.currentToolArgs.get? id).getD ""⟩

/-- The texts in one. -/
def joinTexts : List String → Option String
  | [] => none
  | text :: texts => some (texts.foldl (· ++ ·) text)

def interruptSnapshot (fromStr : String → Option Value) (self : StreamingAccumulator) :
    InterruptSnapshot :=
  let text :=
    if self.currentText.isEmpty then
      joinTexts (self.contentBlocks.filter fun text => !text.isEmpty)
    else some self.currentText
  .fromPartials fromStr text self.partials self.bytesReceived

/-- What an event emits, whether it counts as a delta, and the accumulator behind it. -/
def feed (self : StreamingAccumulator) :
    LlmStreamEvent → List StreamEffect × Bool × StreamingAccumulator
  | .textDelta delta =>
    ([.emit (.textDelta delta)], true, { self with currentText := self.currentText ++ delta })
  | .reasoningDelta delta => ([.emit (.reasoningDelta delta)], false, self)
  | .toolCallStart id name =>
    ([.emit (.toolCallStart id name)], true,
      { self with
        toolNames := self.toolNames.insert id name
        currentToolArgs := self.currentToolArgs.insert id ""
        toolOrder := self.toolOrder ++ [id] })
  | .toolCallDelta id argsDelta =>
    ([.emit (.toolCallDelta id argsDelta)], true,
      match self.currentToolArgs.get? id with
      | some buf =>
        { self with currentToolArgs := self.currentToolArgs.insert id (buf ++ argsDelta) }
      | none => self)
  | .contentBlockStop =>
    ([], false,
      if self.currentText.isEmpty then self
      else
        { self with contentBlocks := self.contentBlocks ++ [self.currentText], currentText := "" })
  | .usage u => ([.addTokens u], false, { self with usage := some u })
  | .stop reason => ([], false, { self with stopReason := some reason })

/-- The call of a clean end, unless its arguments are there and do not parse. -/
def finalCall? (fromStr : String → Option Value) (call : PartialCall) : Option ToolCall :=
  let arguments := (fromStr call.argsJson).getD .null
  if StreamCollector.isNull arguments && !call.argsJson.isEmpty then none
  else some ⟨call.id, call.name, ⟨arguments.print⟩⟩

def readyEvent (call : ToolCall) : StreamEffect :=
  .emit (.toolCallReady call.id call.name call.arguments)

def finalize (fromStr : String → Option Value) (self : StreamingAccumulator) :
    List StreamEffect × StreamResult :=
  let toolCalls := self.partials.filterMap (finalCall? fromStr)
  (toolCalls.map readyEvent,
    { content :=
        if self.currentText.isEmpty then self.contentBlocks
        else self.contentBlocks ++ [self.currentText]
      toolCalls := toolCalls
      usage := self.usage
      stopReason := self.stopReason
      hasIncompleteToolCalls := self.partials.any fun call => (finalCall? fromStr call).isNone })

end StreamingAccumulator

/-! ## One stream -/

/-- How a stream ends. -/
inductive StreamEnding where
  | drained
  /-- No event came within the idle timeout. -/
  | stalled
  | failed (error : InferenceExecutionError)
deriving Repr, DecidableEq

/-- What comes of opening a stream. -/
inductive StreamAttempt where
  | refused (error : InferenceExecutionError)
  | opened (events : List LlmStreamEvent) (ending : StreamEnding)
deriving Repr, DecidableEq

/-- Result of driving a single stream attempt to completion. -/
inductive DriveOutcome where
  | completed (result : StreamResult)
  | interrupted (cause : InterruptCause) (snapshot : InterruptSnapshot)
  | error (error : InferenceExecutionError)
deriving Repr, DecidableEq

/-- Minimum delta interval between checkpoint flushes. -/
def checkpointFlushDeltas : Nat := 4

/-- `flush_checkpoint`, when there is a checkpoint handle. -/
def flushEffects (checkpoint : Option CheckpointHandle) (request : InferenceRequest)
    (acc : StreamingAccumulator) : List StreamEffect :=
  if checkpoint.isSome then [.flushCheckpoint request acc] else []

/-- The loop over the events of a stream. -/
def driveEvents (checkpoint : Option CheckpointHandle) (request : InferenceRequest) :
    StreamingAccumulator → Nat → List LlmStreamEvent → List StreamEffect × StreamingAccumulator
  | acc, _, [] => ([], acc)
  | acc, deltasSinceLastFlush, event :: events =>
    let fed := acc.feed event
    let acc := fed.2.2
    let deltas := if fed.2.1 then deltasSinceLastFlush + 1 else deltasSinceLastFlush
    if fed.2.1 && decide (checkpointFlushDeltas ≤ deltas) then
      let rest := driveEvents checkpoint request acc 0 events
      (fed.1 ++ flushEffects checkpoint request acc ++ rest.1, rest.2)
    else
      let rest := driveEvents checkpoint request acc deltas events
      (fed.1 ++ rest.1, rest.2)

def driveOneStream (fromStr : String → Option Value) (checkpoint : Option CheckpointHandle)
    (request : InferenceRequest) : StreamAttempt → List StreamEffect × DriveOutcome
  | .refused error => ([.openStream request], .error error)
  | .opened events ending =>
    let driven := driveEvents checkpoint request .default 0 events
    let effects := .openStream request :: driven.1
    match ending with
    | .drained =>
      let final := driven.2.finalize fromStr
      (effects ++ final.1 ++ [.recordStreamSuccess], .completed final.2)
    | .stalled =>
      (effects ++ flushEffects checkpoint request driven.2 ++ [.recordStreamFailure],
        .interrupted .idleStall (driven.2.interruptSnapshot fromStr))
    | .failed error =>
      (effects ++ flushEffects checkpoint request driven.2 ++ [.recordStreamFailure],
        match classifyMidStream error with
        | some cause => .interrupted cause (driven.2.interruptSnapshot fromStr)
        | none => .error error)

/-! ## Recovery -/

def continuationPrompt : String :=
  "Your previous response was interrupted mid-stream. Continue from where you left off."

/-- The messages have generated ids, which are left out. -/
def pushContinuation (request : InferenceRequest) (assistantPrefix : String) : InferenceRequest :=
  let prompt : Message := { Message.user continuationPrompt "" with id := none }
  let said : Message := { Message.assistant assistantPrefix "" with id := none }
  { request with
    messages :=
      if assistantPrefix.isEmpty then request.messages ++ [prompt]
      else request.messages ++ [said] ++ [prompt] }

inductive RecoveryOutcome where
  | synthesizedToolUse (result : StreamResult) (hint : Option InFlightTool)
  /-- A stream is opened for the request. -/
  | retryAfterPlan (request : InferenceRequest)
deriving Repr, DecidableEq

def applyRecoveryPlan (request : InferenceRequest) (cause : InterruptCause)
    (snapshot : InterruptSnapshot) : List StreamEffect × RecoveryOutcome :=
  match snapshot.plan with
  | .continueText assistantPrefix =>
    ([], .retryAfterPlan (pushContinuation request assistantPrefix))
  | .synthesizeToolUse completed hint =>
    (hint.toList.map (fun tool => .emit (.toolCallCancel tool.id tool.name cause.text)) ++
        completed.map StreamingAccumulator.readyEvent,
      .synthesizedToolUse
        { content := snapshot.text.toList.filter fun text => !text.isEmpty
          toolCalls := completed
          usage := none
          stopReason := some .toolUse
          hasIncompleteToolCalls := false }
        hint)
  | .truncateBeforeTool assistantPrefix toolId toolName =>
    ([.emit (.toolCallCancel toolId toolName cause.text)],
      .retryAfterPlan (pushContinuation request assistantPrefix))
  | .wholeRestart => ([.emit (.streamReset cause.text)], .retryAfterPlan request)

/-- `delete` of the checkpoint, when there is a checkpoint handle. -/
def deleteEffects (checkpoint : Option CheckpointHandle) : List StreamEffect :=
  if checkpoint.isSome then [.deleteCheckpoint] else []

/-- What an inference returns: the result, and the tool call that was dropped. -/
abbrev StreamOutcome := Except InferenceExecutionError (StreamResult × Option InFlightTool)

/-- The loop of `execute_streaming` for the streams that are opened. Without one the last stream
    that was opened is still to come. -/
def driveStreams (fromStr : String → Option Value) (maxRetries : Nat)
    (checkpoint : Option CheckpointHandle) :
    Nat → InferenceRequest → List StreamAttempt → List StreamEffect × Option StreamOutcome
  | _, request, [] => ([.openStream request], none)
  | attempt, request, stream :: streams =>
    let driven := driveOneStream fromStr checkpoint request stream
    match driven.2 with
    | .completed result => (driven.1 ++ deleteEffects checkpoint, some (.ok (result, none)))
    | .error error => (driven.1, some (.error error))
    | .interrupted cause snapshot =>
      if maxRetries ≤ attempt then (driven.1, some (.error (.streamInterrupted cause snapshot)))
      else
        let recovery := applyRecoveryPlan request cause snapshot
        match recovery.2 with
        | .synthesizedToolUse result hint =>
          (driven.1 ++ recovery.1 ++ deleteEffects checkpoint, some (.ok (result, hint)))
        | .retryAfterPlan request =>
          let rest := driveStreams fromStr maxRetries checkpoint (attempt + 1) request streams
          (driven.1 ++ recovery.1 ++ rest.1, rest.2)

/-! ## Checkpoints -/

/-- What `flush_checkpoint` puts into the store. -/
def flushedCheckpoint (fromStr : String → Option Value) (handle : CheckpointHandle)
    (request : InferenceRequest) (acc : StreamingAccumulator) : StreamCheckpoint :=
  let snapshot := acc.interruptSnapshot fromStr
  { runId := handle.runId
    threadId := handle.threadId
    upstreamModel := request.upstreamModel
    partialText := snapshot.text.getD ""
    completedToolCalls := snapshot.completedToolCalls
    inFlightTool := snapshot.inFlightTool }

/-- The snapshot of a saved checkpoint. Its arguments are printed and parsed again. -/
def restoredSnapshot (fromStr : String → Option Value) (saved : StreamCheckpoint) :
    InterruptSnapshot :=
  .fromPartials fromStr (if saved.partialText.isEmpty then none else some saved.partialText)
    (saved.completedToolCalls.map (fun call => ⟨call.id, call.name, call.arguments.canonical⟩) ++
      saved.inFlightTool.toList.map fun tool => ⟨tool.id, tool.name, tool.partialArgs⟩)
    (byteLen saved.partialText)

/-- `execute_streaming`, with the checkpoint that is read at its start. Resuming does not count as
    an attempt. -/
def executeStreaming (fromStr : String → Option Value) (maxRetries : Nat)
    (checkpoint : Option CheckpointHandle) (saved : Option StreamCheckpoint)
    (request : InferenceRequest) (streams : List StreamAttempt) :
    List StreamEffect × Option StreamOutcome :=
  match saved with
  | none => driveStreams fromStr maxRetries checkpoint 0 request streams
  | some saved =>
    let recovery :=
      applyRecoveryPlan request .resumedFromCheckpoint (restoredSnapshot fromStr saved)
    match recovery.2 with
    | .synthesizedToolUse result hint =>
      (recovery.1 ++ deleteEffects checkpoint, some (.ok (result, hint)))
    | .retryAfterPlan request =>
      let rest := driveStreams fromStr maxRetries checkpoint 0 request streams
      (recovery.1 ++ rest.1, rest.2)

/-- The checkpoint in a store that keeps what is put into it, after some effects. -/
def storedAfter (fromStr : String → Option Value) (handle : CheckpointHandle)
    (stored : Option StreamCheckpoint) : List StreamEffect → Option StreamCheckpoint
  | [] => stored
  | .flushCheckpoint request acc :: effects =>
    storedAfter fromStr handle (some (flushedCheckpoint fromStr handle request acc)) effects
  | .deleteCheckpoint :: effects => storedAfter fromStr handle none effects
  | _ :: effects => storedAfter fromStr handle stored effects

end Remo
