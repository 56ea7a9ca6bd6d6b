import Remo.ForStd.Method
import Remo.Native.Event.AgentEvent
import Remo.Native.Event.Canonical

/-!
# The durable event sink

The normalizer of a runtime stream turns agent events into canonical event drafts, the sink stages
those that the durability mode keeps, and the coordinator drains them into each commit.
-/

/-! ## The durable event sink

The normalizer of a runtime stream turns agent events into canonical event drafts, and the sink
stages those that the durability mode keeps.
-/

namespace Remo

/-- Runtime event durability mode. -/
inductive RuntimeEventDurability where
  | disabled
  | compacted
  | fullFidelity
deriving Repr, DecidableEq

/-- Whether an event with this fidelity should be appended. -/
def RuntimeEventDurability.shouldPersist : RuntimeEventDurability → FidelityClass → Bool
  | disabled, _ => false
  | compacted, fidelity => fidelity != .observedRuntimeEvent
  | fullFidelity, _ => true

/-- A canonical event draft with its durability class. -/
structure NormalizedCanonicalEvent where
  fidelity : FidelityClass
  draft : CanonicalEventDraft
deriving Repr, DecidableEq

/-- Scope and metadata of a thread/run pair. -/
structure AgentEventNormalizationContext where
  threadId : String
  runId : String
  origin : String
  correlationId : Option String
  threadId_notBlank : Str.isBlank threadId = false
  runId_notBlank : Str.isBlank runId = false
  origin_notBlank : Str.isBlank origin = false

/-- What a state snapshot says about the compaction of the context. -/
inductive CompactionFact where
  | completed
  | failed
  | skipped
  | cancelled
  | started
deriving Repr, DecidableEq

/-- `run_finish_kind`. -/
def runFinishKind : TerminationReason → String
  | .naturalEnd => "RunFinished"
  | .behaviorRequested => "RunFinished"
  | .suspended => "RunSuspended"
  | .cancelled => "RunCancelled"
  | .error _ => "RunErrored"
  | .stopped _ => "RunTerminated"
  | .blocked _ => "RunTerminated"

def CompactionFact.kind : CompactionFact → String
  | completed => "ContextCompactionCompleted"
  | failed => "ContextCompactionFailed"
  | skipped => "ContextCompactionSkipped"
  | cancelled => "ContextCompactionCancelled"
  | started => "ContextCompactionStarted"

/-- How an event of a step is normalized. -/
def StepEvent.fact : StepEvent → FidelityClass × String
  | textDelta => (.observedRuntimeEvent, "TextDeltaObserved")
  | reasoningDelta => (.observedRuntimeEvent, "ReasoningDeltaObserved")
  | reasoningEncryptedValue => (.observedRuntimeEvent, "ReasoningEncryptedValueObserved")
  | toolCallStart => (.observedRuntimeEvent, "ToolCallStarted")
  | toolCallDelta => (.observedRuntimeEvent, "ToolCallDeltaObserved")
  | toolCallReady => (.committedRuntimeEvent, "ToolCallReady")
  | toolCallDone result outcome =>
    if outcome = .suspended then (.domainEvent, "ToolCallSuspended")
    else if outcome = .failed ∧ result.rejected then (.domainEvent, "ToolCallRejected")
    else if outcome = .failed ∧ result.timedOut then (.domainEvent, "ToolCallTimedOut")
    else (.committedRuntimeEvent, "ToolCallDone")
  | toolCallStreamDelta => (.observedRuntimeEvent, "ToolCallStreamDeltaObserved")
  | toolCallResumed => (.controlEvent, "ToolCallResumed")
  | toolCallCancel => (.domainEvent, "ToolCallCancelled")
  | streamReset => (.committedRuntimeEvent, "StreamReset")
  | inferenceComplete => (.committedRuntimeEvent, "InferenceComplete")
  | messagesSnapshot => (.observedRuntimeEvent, "MessagesSnapshotObserved")
  | activitySnapshot => (.observedRuntimeEvent, "ActivitySnapshotObserved")
  | activityDelta => (.observedRuntimeEvent, "ActivityDeltaObserved")
  | stateDelta => (.observedRuntimeEvent, "StateDeltaObserved")
  | error => (.committedRuntimeEvent, "ErrorRecorded")

/-- The normalizer for one runtime stream. What the coming state snapshots say about compaction
    is read from a script. -/
structure ScopedAgentEventNormalizer where
  context : AgentEventNormalizationContext
  startedRuns : List String
  terminalRuns : List String
  compactions : List (List CompactionFact)

namespace ScopedAgentEventNormalizer

/-- Create a normalizer for one thread/run stream. -/
def new (context : AgentEventNormalizationContext) (compactions : List (List CompactionFact)) :
    ScopedAgentEventNormalizer :=
  ⟨context, [], [], compactions⟩

/-- Create a normalizer for a stream that resumes an already-started run. -/
def newResumed (context : AgentEventNormalizationContext)
    (compactions : List (List CompactionFact)) : ScopedAgentEventNormalizer :=
  ⟨context, [context.runId], [], compactions⟩

def scopesFor (threadId runId : String) : List EventScope := [.thread threadId, .run runId]

def contextScopes (self : ScopedAgentEventNormalizer) : List EventScope :=
  scopesFor self.context.threadId self.context.runId

def build (self : ScopedAgentEventNormalizer) (fidelity : FidelityClass) (eventKind : String)
    (scopes : List EventScope) (payload : Json) :
    Except EventStoreError NormalizedCanonicalEvent :=
  match EventStoreError.rejectBlank "event_kind" eventKind with
  | .error error => .error error
  | .ok () =>
    let draft : CanonicalEventDraft :=
      { scopes, eventKind, payload, causationId := none
        correlationId := self.context.correlationId, origin := self.context.origin
        visibility := .visible, schemaVersion := 1 }
    match draft.validate with
    | .error error => .error error
    | .ok () => .ok ⟨fidelity, draft⟩

/-- The compaction facts are internal, and belong to the thread. -/
def buildInternal (self : ScopedAgentEventNormalizer) (eventKind : String) (payload : Json) :
    Except EventStoreError NormalizedCanonicalEvent :=
  match self.build .domainEvent eventKind [.thread self.context.threadId] payload with
  | .error error => .error error
  | .ok event => .ok { event with draft := { event.draft with visibility := .internal } }

/-- The compaction facts of a snapshot. The first that fails fails them all. -/
def buildCompactions (self : ScopedAgentEventNormalizer) (payload : Json) :
    List CompactionFact → Except EventStoreError (List NormalizedCanonicalEvent)
  | [] => .ok []
  | fact :: facts =>
    match self.buildInternal fact.kind payload with
    | .error error => .error error
    | .ok event => (self.buildCompactions payload facts).map (event :: ·)

section Normalize

-- The JSON of an event.
variable (toValue : AgentEvent → Json)

/-- Whether the event stands for a canonical fact, and which. -/
def classify (self : ScopedAgentEventNormalizer) (event : AgentEvent) :
    Option (FidelityClass × String × List EventScope) × ScopedAgentEventNormalizer :=
  match event with
  | .runStart threadId runId =>
    if runId ∈ self.startedRuns then
      (some (.domainEvent, "RunResumed", scopesFor threadId runId), self)
    else
      (some (.domainEvent, "RunStarted", scopesFor threadId runId),
        { self with startedRuns := runId :: self.startedRuns })
  | .runFinish threadId runId _ termination =>
    if runId ∈ self.terminalRuns then (none, self)
    else
      (some (.domainEvent, runFinishKind termination, scopesFor threadId runId),
        { self with terminalRuns := runId :: self.terminalRuns })
  | .stepStart => (some (.observedRuntimeEvent, "StepStarted", self.contextScopes), self)
  | .stepEnd => (some (.observedRuntimeEvent, "StepEnded", self.contextScopes), self)
  | .stateSnapshot =>
    (some (.observedRuntimeEvent, "StateSnapshotObserved", self.contextScopes), self)
  | .inStep event => (some (event.fact.1, event.fact.2, self.contextScopes), self)

/-- Normalize one runtime event. -/
def normalize (event : AgentEvent) :
    Method EventStoreError ScopedAgentEventNormalizer (List NormalizedCanonicalEvent) :=
  fun self =>
    match self.classify event with
    | (none, self) => (.ok [], self)
    | (some (fidelity, kind, scopes), self) =>
      ((self.build fidelity kind scopes (toValue event)).map fun fact => [fact], self)

/-- A tool call that waits for permission asks for it. -/
def toolPermissionRequested (event : AgentEvent) :
    Method EventStoreError ScopedAgentEventNormalizer (List NormalizedCanonicalEvent) :=
  fun self =>
    match event with
    | .inStep (.toolCallDone ⟨.pending, some (.replayToolCall, suspensionId), _, _⟩ .suspended) =>
      if Str.isBlank suspensionId then (.ok [], self)
      else
        ((self.build .domainEvent "ToolPermissionRequested" self.contextScopes
          (toValue event)).map fun fact => [fact], self)
    | _ => (.ok [], self)

/-- The compaction facts of a state snapshot. -/
def contextCompactionEvents (event : AgentEvent) :
    Method EventStoreError ScopedAgentEventNormalizer (List NormalizedCanonicalEvent) :=
  fun self =>
    match event with
    | .stateSnapshot =>
      (self.buildCompactions (toValue event) (self.compactions.headD []),
        { self with compactions := self.compactions.tail })
    | _ => (.ok [], self)

/-- Normalize one runtime event into one or more canonical facts. -/
def normalizeMany (event : AgentEvent) :
    Method EventStoreError ScopedAgentEventNormalizer (List NormalizedCanonicalEvent) :=
  Method.bind (normalize toValue event) fun facts =>
  Method.bind (toolPermissionRequested toValue event) fun permissions =>
  Method.map (fun compactions => facts ++ permissions ++ compactions)
    (contextCompactionEvents toValue event)

/-- The facts of a stream of events. An event that does not normalize has none. -/
def normalizeAll (self : ScopedAgentEventNormalizer) :
    List AgentEvent → List NormalizedCanonicalEvent
  | [] => []
  | event :: events =>
    match normalizeMany toValue event self with
    | (.ok facts, self) => facts ++ self.normalizeAll events
    | (.error _, self) => self.normalizeAll events

end Normalize

end ScopedAgentEventNormalizer

end Remo

/-! ## Staging

The events of a run are staged in a buffer by the event sink, and drained into each checkpoint
commit by the coordinator of the dispatch.
-/

namespace Remo

/-- In-process staging buffer for canonical event drafts. -/
structure EventBuffer where
  drafts : List StagedCanonicalEvent
deriving Repr, DecidableEq

namespace EventBuffer

def new : EventBuffer := ⟨[]⟩

def stage (self : EventBuffer) (draft : CanonicalEventDraft) : EventBuffer :=
  ⟨self.drafts ++ [.new draft]⟩

/-- Take all drafts out of the buffer. -/
def drain (self : EventBuffer) : List StagedCanonicalEvent × EventBuffer := (self.drafts, new)

end EventBuffer

/-- The event sink and the staging coordinator of a dispatch, with the buffer they share. -/
structure DispatchStaging where
  normalizer : ScopedAgentEventNormalizer
  mode : RuntimeEventDurability
  buffer : EventBuffer
  /-- Drafts staged but not yet committed. -/
  pending : List StagedCanonicalEvent

namespace DispatchStaging

def new (normalizer : ScopedAgentEventNormalizer) (mode : RuntimeEventDurability) :
    DispatchStaging :=
  ⟨normalizer, mode, .new, []⟩

/-- `DurableEventSink::emit`, as far as it stages. An event that does not normalize is only
    forwarded. -/
def emit (toValue : AgentEvent → Json) (self : DispatchStaging) (event : AgentEvent) :
    DispatchStaging :=
  match ScopedAgentEventNormalizer.normalizeMany toValue event self.normalizer with
  | (.error _, normalizer) => { self with normalizer := normalizer }
  | (.ok facts, normalizer) =>
    { self with
      normalizer := normalizer
      buffer := (facts.filter fun fact => self.mode.shouldPersist fact.fidelity).foldl
        (fun buffer fact => buffer.stage fact.draft) self.buffer }

/-- The drafts that a commit attempt submits: those an earlier attempt left, and then those
    staged since. -/
def beginCommit (self : DispatchStaging) : List StagedCanonicalEvent × DispatchStaging :=
  let (drained, buffer) := self.buffer.drain
  let pending := self.pending ++ drained
  (pending, { self with pending := pending, buffer := buffer })

/-- A commit that succeeded clears what is pending. One that failed leaves it for the retry. -/
def endCommit (self : DispatchStaging) (succeeded : Bool) : DispatchStaging :=
  if succeeded then { self with pending := [] } else self

end DispatchStaging

end Remo
