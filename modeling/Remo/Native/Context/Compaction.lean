import Remo.Native.Message.Message

/-!
# Context compaction

A background pass summarises the head of the live message list. The plan fixes the message
up to which the summary goes; when the summary lands, the head is swapped for it.
-/

namespace Remo

/-- What is read from the content of a message, and how content is made from a text. -/
structure Contents where
  /-- `extract_text`. -/
  text : Json → String
  /-- The characters that `estimate_message_tokens` counts. -/
  chars : Json → Nat
  /-- One text block. -/
  ofText : String → Json
  text_ofText : ∀ s, text (ofText s) = s

/-- Contents that are one text, kept as it is. -/
def Contents.plain : Contents where
  text := Json.canonical
  chars json := json.canonical.utf8ByteSize
  ofText text := ⟨text⟩
  text_ofText _ := rfl

def Message.text (contents : Contents) (self : Message) : String := contents.text self.content

/-- `estimate_message_tokens`. -/
def Message.estimateTokens (contents : Contents) (self : Message) : Nat :=
  4 + contents.chars self.content / 4

/-- `Message::internal_system` with the generated id. -/
def Message.internalSystem (contents : Contents) (generated text : String) : Message where
  id := some generated
  role := .system
  content := contents.ofText text
  toolCalls := none
  toolCallId := none
  visibility := .internal
  metadata := none

/-! ## Compaction state -/

/-- A recorded compaction boundary. -/
structure CompactionBoundary where
  summary : String
  taskId : Option String
  boundaryMessageId : Option String
  preTokens : Nat
  postTokens : Nat
  timestampMs : UInt64
deriving Repr, DecidableEq

/-- A failed background compaction attempt. -/
structure CompactionFailure where
  taskId : Option String
  boundaryMessageId : String
  error : String
  timestampMs : UInt64
deriving Repr, DecidableEq

/-- A background compaction attempt that completed but was not applied. -/
structure CompactionSkipped where
  taskId : Option String
  boundaryMessageId : String
  reason : String
  preTokens : Nat
  postTokens : Nat
  savingsRatioPpm : UInt32
  minSavingsRatioPpm : UInt32
  timestampMs : UInt64
deriving Repr, DecidableEq

/-- Pointer to a single in-flight background compaction pass. -/
structure CompactionInFlight where
  taskId : String
  boundaryMessageId : String
  startedAtMs : UInt64
deriving Repr, DecidableEq

structure CompactionState where
  boundaries : List CompactionBoundary
  failures : List CompactionFailure
  skipped : List CompactionSkipped
  totalCompactions : Nat
  inFlight : Option CompactionInFlight
deriving Repr, DecidableEq

def CompactionState.default : CompactionState := ⟨[], [], [], 0, none⟩

inductive CompactionAction where
  | recordBoundary (boundary : CompactionBoundary)
  | recordFailure (failure : CompactionFailure)
  | recordSkipped (skipped : CompactionSkipped)
  | setInFlight (inFlight : CompactionInFlight)
  | clearInFlight
  | clear
deriving Repr, DecidableEq

def CompactionState.reduce (value : CompactionState) : CompactionAction → CompactionState
  | .recordBoundary boundary =>
    { value with
      boundaries := value.boundaries ++ [boundary]
      totalCompactions := value.totalCompactions + 1 }
  | .recordFailure failure => { value with failures := value.failures ++ [failure] }
  | .recordSkipped skipped => { value with skipped := value.skipped ++ [skipped] }
  | .setInFlight inFlight => { value with inFlight := some inFlight }
  | .clearInFlight => { value with inFlight := none }
  | .clear => .default

/-! ## Planning -/

/-- The search from the message with the given index on. `openCalls` are the tool calls
    without a result so far. -/
def boundaryFrom : Nat → List String → Option Nat → Nat → List Message → Option Nat
  | _, _, best, 0, _ => best
  | _, _, best, _ + 1, [] => best
  | index, openCalls, best, count + 1, message :: rest =>
    let openCalls := openCalls ++ (message.toolCalls.getD []).map ToolCall.id
    let openCalls :=
      match message.role, message.toolCallId with
      | .tool, some callId => openCalls.filter (· ≠ callId)
      | _, _ => openCalls
    let nextIsTool := rest.head?.any fun next => next.role == .tool
    -- safe boundary: all tool calls resolved and next is not a tool result
    let best := if openCalls.isEmpty && !nextIsTool then some index else best
    boundaryFrom (index + 1) openCalls best count rest

/-- Find a safe compaction boundary in the message history. -/
def findCompactionBoundary (messages : List Message) (start stop : Nat) : Option Nat :=
  boundaryFrom start [] none (stop - start) (messages.drop start)

inductive ContextCompactionMode where
  | keepRecentRawSuffix
  | compactToSafeFrontier
deriving Repr, DecidableEq

/-- The part of a `ContextWindowPolicy` that planning reads. -/
structure ContextWindowPolicy where
  compactionMode : ContextCompactionMode
  compactionRawSuffixMessages : Nat
  minRecentMessages : Nat
deriving Repr, DecidableEq

def compactionKeepSuffix (messages : List Message) (policy : ContextWindowPolicy) : Nat :=
  let configured :=
    match policy.compactionMode with
    | .keepRecentRawSuffix => policy.compactionRawSuffixMessages
    | .compactToSafeFrontier => policy.minRecentMessages
  -- the messages from the latest user message on
  let latestUser := messages.reverse.findIdx? fun message =>
    message.role == .user && message.visibility != .internal
  let latestUserSuffix := (latestUser.map (· + 1)).getD 0
  min (max configured latestUserSuffix) messages.length

def roleLabel : Role → String
  | .system => "System"
  | .user => "User"
  | .assistant => "Assistant"
  | .tool => "Tool"

/-- Render messages as a text transcript, without the internal ones. -/
def renderTranscript (contents : Contents) (messages : List Message) : String :=
  "\n\n".intercalate ((messages.filter fun m => m.visibility != .internal).filterMap fun m =>
    if (m.text contents).isEmpty then none else some s!"[{roleLabel m.role}]: {m.text contents}")

/-- Minimum token savings required to justify a compaction call. -/
def minCompactionGainTokens : Nat := 1024

structure CompactionPlan where
  transcript : String
  boundaryMessageId : String
  preTokens : Nat
deriving Repr, DecidableEq

/-- The tokens of some messages. -/
def totalTokens (contents : Contents) (messages : List Message) : Nat :=
  messages.foldl (fun total message => total + message.estimateTokens contents) 0

/-- Decide whether compaction should run right now. -/
def planCompaction (contents : Contents) (messages : List Message) (policy : ContextWindowPolicy) :
    Option CompactionPlan := do
  if messages.length < 2 then none
  let keepSuffix := compactionKeepSuffix messages policy
  let searchEnd := messages.length - keepSuffix
  if searchEnd < 2 then none
  let boundary ← findCompactionBoundary messages 0 searchEnd
  let boundaryMessageId ← messages[boundary]?.bind Message.id
  let preTokens := totalTokens contents (messages.take (boundary + 1))
  if preTokens < minCompactionGainTokens then none
  let transcript := renderTranscript contents (messages.take (boundary + 1))
  if transcript.isEmpty then none
  some { transcript, boundaryMessageId, preTokens }

/-! ## The swap -/

structure AppliedCompaction where
  boundaryIndex : Nat
  preTokens : Nat
  postTokens : Nat
deriving Repr, DecidableEq

def summaryMessage (contents : Contents) (generated summaryText : String) : Message :=
  .internalSystem contents generated
    s!"<conversation-summary>\n{summaryText}\n</conversation-summary>"

/-- Apply a freshly produced summary to the live message list. The boundary is located by
    its id; without it nothing is applied. -/
def applySummary (contents : Contents) (messages : List Message) (boundaryMessageId : String)
    (summaryText generated : String) : Option (List Message × AppliedCompaction) := do
  let idx ← messages.findIdx? fun m => m.id == some boundaryMessageId
  let summary := summaryMessage contents generated summaryText
  some (summary :: messages.drop (idx + 1),
    { boundaryIndex := idx
      preTokens := totalTokens contents (messages.take (idx + 1))
      postTokens := summary.estimateTokens contents })

/-- The pass in flight, when an event is about it. -/
def matchingInFlight (priorInFlight : Option CompactionInFlight) (eventTaskId : Option String)
    (boundaryMessageId : String) : Option CompactionInFlight := do
  let inFlight ← priorInFlight
  if eventTaskId ≠ some inFlight.taskId then none
  if !boundaryMessageId.isEmpty && boundaryMessageId ≠ inFlight.boundaryMessageId then none
  some inFlight

/-- The `context.compacted` event: swap in the summary, record the boundary, and clear the
    pass in flight. An event about another pass is ignored. -/
def consumeCompleted (contents : Contents) (messages : List Message) (state : CompactionState)
    (eventTaskId : Option String) (boundaryId summary : String) (reportedPreTokens : Nat)
    (generated : String) (now : UInt64) : List Message × CompactionState :=
  match matchingInFlight state.inFlight eventTaskId boundaryId with
  | none => (messages, state)
  | some inFlight =>
    let applied :=
      if boundaryId.isEmpty || summary.isEmpty then none
      else applySummary contents messages boundaryId summary generated
    match applied with
    | none => (messages, state.reduce .clearInFlight)
    | some (messages, applied) =>
      (messages, (state.reduce (.recordBoundary
        { summary := summary
          taskId := some inFlight.taskId
          boundaryMessageId := some boundaryId
          preTokens := max applied.preTokens reportedPreTokens
          postTokens := applied.postTokens
          timestampMs := now })).reduce .clearInFlight)

/-- The `context.compaction_failed` event. Without a boundary of its own it is about the one
    in flight. -/
def consumeFailed (state : CompactionState) (eventTaskId boundaryId : Option String)
    (error : String) (now : UInt64) : CompactionState :=
  let named := boundaryId.filter fun id => !Str.isBlank id
  let boundaryMessageId :=
    (named.or (state.inFlight.map CompactionInFlight.boundaryMessageId)).getD ""
  match matchingInFlight state.inFlight eventTaskId boundaryMessageId with
  | none => state
  | some inFlight =>
    (state.reduce (.recordFailure ⟨some inFlight.taskId, boundaryMessageId, error, now⟩)).reduce
      .clearInFlight

/-- The `context.compaction_skipped` event. Without a boundary of its own it is about the one in
    flight. -/
def consumeSkipped (state : CompactionState) (eventTaskId boundaryId reason : Option String)
    (preTokens postTokens : Nat) (savingsRatioPpm minSavingsRatioPpm : UInt32) (now : UInt64) :
    CompactionState :=
  let named := boundaryId.filter fun id => !Str.isBlank id
  let boundaryMessageId :=
    (named.or (state.inFlight.map CompactionInFlight.boundaryMessageId)).getD ""
  let reason := (reason.filter fun reason => !Str.isBlank reason).getD "unknown"
  match matchingInFlight state.inFlight eventTaskId boundaryMessageId with
  | none => state
  | some inFlight =>
    (state.reduce (.recordSkipped ⟨some inFlight.taskId, boundaryMessageId, reason, preTokens,
      postTokens, savingsRatioPpm, minSavingsRatioPpm, now⟩)).reduce .clearInFlight

/-- A compaction event of the inbox. `generated` is the id of the summary message. -/
inductive CompactionEvent where
  | completed (taskId : Option String) (boundaryMessageId summary : String) (preTokens : Nat)
      (generated : String) (now : UInt64)
  | failed (taskId boundaryMessageId : Option String) (error : String) (now : UInt64)
  | skipped (taskId boundaryMessageId reason : Option String) (preTokens postTokens : Nat)
      (savingsRatioPpm minSavingsRatioPpm : UInt32) (now : UInt64)
deriving Repr, DecidableEq

/-- Handle a compaction event. -/
def tryConsumeCompactionEvent (contents : Contents) (live : List Message × CompactionState) :
    CompactionEvent → List Message × CompactionState
  | .completed taskId boundaryMessageId summary preTokens generated now =>
    consumeCompleted contents live.1 live.2 taskId boundaryMessageId summary preTokens generated
      now
  | .failed taskId boundaryMessageId error now =>
    (live.1, consumeFailed live.2 taskId boundaryMessageId error now)
  | .skipped taskId boundaryMessageId reason preTokens postTokens savingsRatioPpm
      minSavingsRatioPpm now =>
    (live.1, consumeSkipped live.2 taskId boundaryMessageId reason preTokens postTokens
      savingsRatioPpm minSavingsRatioPpm now)

/-! ## Queueing a pass -/

/-- Reserve the one place of a pass in flight. -/
def reserveCompactionInFlight (state : CompactionState) (inFlight : CompactionInFlight) :
    CompactionState :=
  if state.inFlight.isSome then state else state.reduce (.setInFlight inFlight)

/-- Queue a pass under the given task id, when there is something to compact. -/
def maybeSpawnCompaction (contents : Contents) (messages : List Message)
    (policy : ContextWindowPolicy) (taskId : String) (now : UInt64) (state : CompactionState) :
    CompactionState :=
  match planCompaction contents messages policy with
  | none => state
  | some plan => reserveCompactionInFlight state ⟨taskId, plan.boundaryMessageId, now⟩

def clearInFlightAfterSpawnFailure (state : CompactionState) (taskId : String) :
    CompactionState :=
  match state.inFlight with
  | none => state
  | some inFlight => if inFlight.taskId ≠ taskId then state else state.reduce .clearInFlight

end Remo
