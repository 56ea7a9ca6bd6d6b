import Remo.Native.Lifecycle
import Remo.Native.Message.Message
import Remo.Native.Storage.Error

/-!
# Run records

The fields of a run record that the storage checks and the thread projection
read, and the checks a run passes before it is persisted.
-/

namespace Remo

/-- Inclusive range of message sequence numbers. -/
structure MessageSeqRange where
  fromSeq : UInt64
  toSeq : UInt64
deriving Repr, DecidableEq

namespace MessageSeqRange

/-- Create a non-empty inclusive range. -/
def new (fromSeq toSeq : UInt64) : Option MessageSeqRange :=
  if 0 < fromSeq ∧ fromSeq ≤ toSeq then some ⟨fromSeq, toSeq⟩ else none

/-- Number of messages covered by this range. -/
def len (self : MessageSeqRange) : UInt64 := self.toSeq - self.fromSeq + 1

/-- The sequence numbers `from_seq..=to_seq`. -/
def seqs (self : MessageSeqRange) : List Nat :=
  List.range' self.fromSeq.toNat (self.toSeq.toNat + 1 - self.fromSeq.toNat)

end MessageSeqRange

/-- A range is 1-based and not empty. -/
def validateSeqRange (field : String) (range : MessageSeqRange) : Except StorageError Unit :=
  if range.fromSeq = 0 ∨ range.toSeq < range.fromSeq then
    .error (.validation s!"{field} range must be non-empty and 1-based")
  else .ok ()

/-- No id of the list is blank; the error names the first blank one by its index. -/
def validateIds (name : Nat → String) (ids : List String) : Except StorageError Unit :=
  ids.zipIdx.forM fun p => requireNonEmpty (name p.2) p.1

/-! ## Activation snapshot -/

/-- Whether a run starts a new intent or goes on with an earlier run. -/
inductive RunKind where
  | newIntent
  | hitlResume (runId : String)
  | continuationFromRun (runId : String)
deriving Repr, DecidableEq

def RunKind.validate : RunKind → Except StorageError Unit
  | newIntent => .ok ()
  | hitlResume runId => requireNonEmpty "hitl resume run_id" runId
  | continuationFromRun runId => requireNonEmpty "continuation run_id" runId

/-- What a run is asked to do. -/
structure RunIntent where
  agentId : Option String
  threadId : String
  kind : RunKind
deriving Repr, DecidableEq

def RunIntent.validate (self : RunIntent) : Except StorageError Unit := do
  requireNonEmpty "run intent thread_id" self.threadId
  requireOptionalNonEmpty "run intent agent_id" self.agentId
  self.kind.validate

/-- Message log slice a run is activated with. -/
structure RunInputSnapshot where
  threadId : String
  range : Option MessageSeqRange
  triggerMessageIds : List String
  selectedMessageIds : List String
  contextPolicy : Option String
  compactedSnapshotId : Option String
deriving Repr, DecidableEq

def RunInputSnapshot.validate (self : RunInputSnapshot) : Except StorageError Unit := do
  requireNonEmpty "run input snapshot thread_id" self.threadId
  match self.range with
  | some range => validateSeqRange "run input snapshot" range
  | none => pure ()
  validateIds (fun idx => s!"run input snapshot trigger_message_ids[{idx}]") self.triggerMessageIds
  validateIds (fun idx => s!"run input snapshot selected_message_ids[{idx}]")
    self.selectedMessageIds
  requireOptionalNonEmpty "run input snapshot context_policy" self.contextPolicy
  requireOptionalNonEmpty "run input snapshot compacted_snapshot_id" self.compactedSnapshotId

/-- Identifiers a run carries for tracing. -/
structure RunTraceContext where
  parentRunId : Option String
  parentThreadId : Option String
  dispatchId : Option String
  sessionId : Option String
  transportRequestId : Option String
  correlationId : Option String
deriving Repr, DecidableEq

def RunTraceContext.validate (self : RunTraceContext) : Except StorageError Unit := do
  requireOptionalNonEmpty "run trace parent_run_id" self.parentRunId
  requireOptionalNonEmpty "run trace parent_thread_id" self.parentThreadId
  requireOptionalNonEmpty "run trace dispatch_id" self.dispatchId
  requireOptionalNonEmpty "run trace session_id" self.sessionId
  requireOptionalNonEmpty "run trace transport_request_id" self.transportRequestId
  requireOptionalNonEmpty "run trace correlation_id" self.correlationId

/-- The activation frozen with a run. Of its seeded decisions only the call ids
    are checked. -/
structure RunActivationSnapshot where
  intent : RunIntent
  input : RunInputSnapshot
  trace : RunTraceContext
  seededDecisions : List String
  resolutionId : Option String
deriving Repr, DecidableEq

def RunActivationSnapshot.validate (self : RunActivationSnapshot) : Except StorageError Unit := do
  self.intent.validate
  self.input.validate
  self.trace.validate
  if self.intent.threadId ≠ self.input.threadId then
    throw (.validation (s!"run activation intent.thread_id '{self.intent.threadId}' "
      ++ s!"must match input.thread_id '{self.input.threadId}'"))
  validateIds (fun idx => s!"run activation seeded_decisions[{idx}].call_id") self.seededDecisions
  requireOptionalNonEmpty "run activation resolution_id" self.resolutionId

/-! ## Run record -/

/-- The part of a run request the thread projection reads. -/
structure RunRequestSnapshot where
  parentThreadId : Option String
deriving Repr, DecidableEq

/-- Message log slice consumed by a run. -/
structure RunMessageInput where
  threadId : String
  range : Option MessageSeqRange
  triggerMessageIds : List String
  selectedMessageIds : List String
  contextPolicy : Option String
  compactedSnapshotId : Option String
deriving Repr, DecidableEq

/-- Message log slice produced by a run. -/
structure RunMessageOutput where
  threadId : String
  range : Option MessageSeqRange
  messageIds : List String
deriving Repr, DecidableEq

/-- Why a run is currently waiting. -/
inductive WaitingReason where
  | toolPermission
  | userInput
  | backgroundTasks
  | externalEvent
  | rateLimit
  | manualPause
deriving Repr, DecidableEq

/-- Durable projection for a non-terminal waiting run. -/
structure RunWaitingState where
  reason : WaitingReason
deriving Repr, DecidableEq

/-- Terminal outcome for a run. -/
structure RunOutcome where
  terminationReason : TerminationReason
  finalOutput : Option String
  errorPayload : Option Json
deriving Repr, DecidableEq

/-- A run record for tracking run history and enabling resume. -/
structure RunRecord where
  runId : String
  threadId : String
  agentId : String
  parentRunId : Option String
  activation : Option RunActivationSnapshot
  request : Option RunRequestSnapshot
  input : Option RunMessageInput
  output : Option RunMessageOutput
  status : RunStatus
  terminationReason : Option TerminationReason
  finalOutput : Option String
  errorPayload : Option Json
  waiting : Option RunWaitingState
  outcome : Option RunOutcome
  finishedAt : Option UInt64
  updatedAt : UInt64
deriving Repr, DecidableEq

/-- A running run with the given ids. -/
def RunRecord.new (runId threadId agentId : String) : RunRecord where
  runId := runId
  threadId := threadId
  agentId := agentId
  parentRunId := none
  activation := none
  request := none
  input := none
  output := none
  status := .running
  terminationReason := none
  finalOutput := none
  errorPayload := none
  waiting := none
  outcome := none
  finishedAt := none
  updatedAt := 0

namespace RunRecord

/-- The input slice is one of the run's own thread. -/
def validateInput (runThreadId : String) (input : RunMessageInput) : Except StorageError Unit := do
  if input.threadId ≠ runThreadId then
    throw (.validation
      s!"run input thread_id '{input.threadId}' must match run thread_id '{runThreadId}'")
  match input.range with
  | some range => validateSeqRange "run input" range
  | none => pure ()

/-- The output slice is one of the run's own thread and names each of its messages. -/
def validateOutput (runThreadId : String) (output : RunMessageOutput) :
    Except StorageError Unit := do
  if output.threadId ≠ runThreadId then
    throw (.validation
      s!"run output thread_id '{output.threadId}' must match run thread_id '{runThreadId}'")
  match output.range with
  | some range =>
    validateSeqRange "run output" range
    let len := range.toSeq - range.fromSeq + 1
    if len.toNat ≠ output.messageIds.length then
      throw (.validation (s!"run output message_ids length {output.messageIds.length} "
        ++ s!"must match range length {len}"))
  | none => pure ()

/-- A run that has not started or is running carries neither waiting state nor outcome. -/
def validateOpen (self : RunRecord) (status : String) : Except StorageError Unit := do
  if self.waiting.isSome then
    throw (.validation s!"{status} run '{self.runId}' must not carry waiting state")
  if self.outcome.isSome then
    throw (.validation s!"{status} run '{self.runId}' must not carry terminal outcome")
  if self.finishedAt.isSome then
    throw (.validation s!"{status} run '{self.runId}' must not carry finished_at")

/-- A waiting run says why, and has no outcome. -/
def validateWaiting (self : RunRecord) : Except StorageError Unit := do
  if self.waiting.isNone then
    throw (.validation s!"waiting run '{self.runId}' must carry waiting state")
  if self.outcome.isSome then
    throw (.validation s!"waiting run '{self.runId}' must not carry terminal outcome")
  if self.finishedAt.isSome then
    throw (.validation s!"waiting run '{self.runId}' must not carry finished_at")

/-- A finished run agrees with its outcome, where it has one. -/
def validateDone (self : RunRecord) : Except StorageError Unit := do
  if self.waiting.isSome then
    throw (.validation s!"done run '{self.runId}' must not carry waiting state")
  if self.finishedAt.isNone then
    throw (.validation s!"done run '{self.runId}' must carry finished_at")
  match self.outcome with
  | none => pure ()
  | some outcome =>
    if self.terminationReason.any fun reason => decide (reason ≠ outcome.terminationReason) then
      throw (.validation (s!"done run '{self.runId}' termination_reason "
        ++ "must match outcome.termination_reason"))
    if self.finalOutput.any fun output => decide (some output ≠ outcome.finalOutput) then
      throw (.validation
        s!"done run '{self.runId}' final_output must match outcome.final_output")
    if self.errorPayload.any fun payload => decide (some payload ≠ outcome.errorPayload) then
      throw (.validation
        s!"done run '{self.runId}' error_payload must match outcome.error_payload")

/-- Validate storage-level invariants before a run is persisted. -/
def validateForPersist (self : RunRecord) : Except StorageError Unit := do
  requireNonEmpty "run_id" self.runId
  requireNonEmpty "thread_id" self.threadId
  requireNonEmpty "agent_id" self.agentId
  match self.activation with
  | none => pure ()
  | some activation =>
    activation.validate
    if activation.intent.threadId ≠ self.threadId then
      throw (.validation (s!"run activation thread_id '{activation.intent.threadId}' "
        ++ s!"must match run thread_id '{self.threadId}'"))
  match self.input with
  | some input => validateInput self.threadId input
  | none => pure ()
  match self.output with
  | some output => validateOutput self.threadId output
  | none => pure ()
  match self.status with
  | .created => self.validateOpen "Created"
  | .running => self.validateOpen "Running"
  | .waiting => self.validateWaiting
  | .done => self.validateDone

end RunRecord

end Remo
