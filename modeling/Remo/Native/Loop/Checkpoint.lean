import Mathlib.Data.List.Destutter
import Remo.Native.Context.Compaction
import Remo.Native.Loop.LoopStates
import Remo.Native.Storage.RunRecord

/-!
# Checkpoints of a run

A checkpoint appends the messages of the live list that are not committed yet, and stores the
run record with the output of the run. The committed log may have grown since it was read, so
the append is guarded by its length and tried again.
-/

namespace Remo

/-! ## Produced messages -/

def MessageMetadata.default : MessageMetadata := ⟨none, none, none⟩

namespace Message

/-- The run that produced this message, if recorded. -/
def producedByRunId (self : Message) : Option String := self.metadata.bind MessageMetadata.runId

/-- Mark this message as produced by a run without overwriting existing producer metadata. -/
def markProducedBy (self : Message) (runId : String) (stepIndex : Option UInt32) : Message :=
  let metadata := self.metadata.getD .default
  { self with
    metadata := some { metadata with
      runId := metadata.runId.or (some runId)
      stepIndex := metadata.stepIndex.or stepIndex } }

def isRunOutputMessage (self : Message) : Bool :=
  self.visibility == .all && (self.role == .assistant || self.role == .tool)

end Message

/-! ## Output ranges -/

def previousOutputSeqs (previous : Option RunRecord) : List Nat :=
  match previous.bind RunRecord.output with
  | none => []
  | some output =>
    match output.range with
    | none => []
    | some range => if range.len.toNat ≠ output.messageIds.length then [] else range.seqs

/-- The range of sequence numbers that follow each other, one for each message id. -/
def contiguousOutputRange (messageIdsLen : Nat) (seqs : List Nat) : Option MessageSeqRange :=
  if messageIdsLen = 0 ∨ seqs.length ≠ messageIdsLen then none
  else
    let sorted := (seqs.insertionSort (· ≤ ·)).destutter (· ≠ ·)
    if sorted.length ≠ messageIdsLen then none
    else
      match sorted.head?, sorted.getLast? with
      | some first, some last =>
        if last - first + 1 = messageIdsLen then
          MessageSeqRange.new (UInt64.ofNat first) (UInt64.ofNat last)
        else none
      | _, _ => none

/-! ## The delta of a checkpoint -/

/-- The committed message with an id, with its sequence number; of several the last. -/
def committedById (committed : List Message) (id : String) : Option (Nat × Message) :=
  ((committed.zipIdx.filter fun entry => entry.1.id == some id).getLast?).map fun entry =>
    (entry.2 + 1, entry.1)

/-- What the append loop keeps: the delta so far, and the output of the run. -/
structure AppendState where
  delta : List Message
  nextAppendSeq : Nat
  outputMessageIds : List String
  outputSeqs : List Nat

/-- What the append loop reads. -/
structure AppendContext where
  committed : List Message
  previousOutputIds : List String
  runId : String
  stepIndex : Option UInt32
  inputMessageCount : Nat

namespace AppendContext

/-- The committed message with the id of this one. -/
def committedEntry (ctx : AppendContext) (message : Message) : Option (Nat × Message) :=
  message.id.bind (committedById ctx.committed)

def alreadyRecordedOutput (ctx : AppendContext) (message : Message) : Bool :=
  let committedOutput := (ctx.committedEntry message).any fun committed =>
    committed.2.producedByRunId == some ctx.runId
  let previousOutput := message.id.any fun id => id ∈ ctx.previousOutputIds
  message.producedByRunId == some ctx.runId || committedOutput || previousOutput

def newOutput (ctx : AppendContext) (message : Message) (index : Nat) : Bool :=
  (ctx.committedEntry message).isNone && decide (ctx.inputMessageCount ≤ index) &&
    message.isRunOutputMessage

/-- The message with the run as its producer, when it is output of the run. -/
def attributed (ctx : AppendContext) (message : Message) (index : Nat) : Message :=
  let carried :=
    if ctx.alreadyRecordedOutput message && message.producedByRunId != some ctx.runId then
      let recorded := ((ctx.committedEntry message).bind fun c => c.2.metadata).filter
        fun metadata => metadata.runId == some ctx.runId
      { message with metadata := recorded.or message.metadata }.markProducedBy ctx.runId
        ctx.stepIndex
    else message
  if ctx.newOutput message index then carried.markProducedBy ctx.runId ctx.stepIndex else carried

/-- The id to record as output, when it is output that is not recorded yet. -/
def recordedId (ctx : AppendContext) (outputMessageIds : List String) (message : Message)
    (index : Nat) : Option String :=
  if ctx.alreadyRecordedOutput message || ctx.newOutput message index then
    message.id.filter fun id => id ∉ outputMessageIds
  else none

end AppendContext

/-- One message of the live list, at its index. -/
def appendMessage (ctx : AppendContext) (state : AppendState) (entry : Message × Nat) :
    AppendState :=
  let (message, index) := entry
  let committedSeq := (ctx.committedEntry message).map Prod.fst
  let seq := committedSeq.getD state.nextAppendSeq
  let state :=
    match ctx.recordedId state.outputMessageIds message index with
    | some id =>
      { state with
        outputMessageIds := state.outputMessageIds ++ [id]
        outputSeqs := state.outputSeqs ++ [seq] }
    | none => state
  if committedSeq.isNone then
    { state with
      delta := state.delta ++ [ctx.attributed message index]
      nextAppendSeq := state.nextAppendSeq + 1 }
  else state

/-- The messages to append, and the output of the run with them. -/
def materializeCheckpointAppend (messages committedMessages : List Message)
    (previous : Option RunRecord) (threadId runId : String) (stepCount : UInt32)
    (inputMessageCount : Nat) : List Message × Option RunMessageOutput :=
  let previousOutput := previous.bind RunRecord.output
  let previousIds := (previousOutput.map RunMessageOutput.messageIds).getD []
  let ctx : AppendContext :=
    { committed := committedMessages
      previousOutputIds := previousIds
      runId := runId
      stepIndex := if stepCount = 0 then none else some (stepCount - 1)
      inputMessageCount := inputMessageCount }
  let state := messages.zipIdx.foldl (appendMessage ctx)
    { delta := []
      nextAppendSeq := committedMessages.length + 1
      outputMessageIds := previousIds
      outputSeqs := previousOutputSeqs previous }
  let output :=
    if state.outputMessageIds.isEmpty then previousOutput
    else
      some
        { threadId := threadId
          range := contiguousOutputRange state.outputMessageIds.length state.outputSeqs
          messageIds := state.outputMessageIds }
  (state.delta, output)

/-! ## Compaction marks -/

/-- Is this message a background-compaction summary? -/
def isCompactionSummary (contents : Contents) (message : Message) : Bool :=
  message.role == .system && message.visibility == .internal
    && Str.contains (message.text contents) "<conversation-summary>"

/-- The mark on one message of the delta. -/
def stampMessage (contents : Contents) (toSeq : Nat) (message : Message) : Message :=
  if isCompactionSummary contents message &&
      (message.metadata.bind MessageMetadata.compaction).isNone then
    { message with
      metadata := some { message.metadata.getD .default with compaction := some ⟨1, toSeq⟩ } }
  else message

/-- Stamp the durable mark onto any freshly appended compaction summary. It covers the log up
    to the latest recorded boundary message. -/
def stampCompactionMarks (contents : Contents) (delta committed : List Message)
    (compaction : Option CompactionState) : List Message :=
  if !delta.any (isCompactionSummary contents) then delta
  else
    let boundaryId := ((compaction.bind fun state => state.boundaries.getLast?).bind
      CompactionBoundary.boundaryMessageId).filter fun id => !id.isEmpty
    match boundaryId with
    | none => delta
    | some boundaryId =>
      match committed.findIdx? fun message => message.id == some boundaryId with
      | none => delta
      | some index => delta.map (stampMessage contents (index + 1))

/-! ## The guarded append -/

/-- The durable state a run commits to: the committed log of its thread, and the record of
    the run. -/
structure ThreadLog where
  committed : List Message
  run : Option RunRecord

structure ThreadCommit where
  messageDelta : List Message
  expectedMessageCount : UInt64
  runProjection : RunRecord

/-- `CommitError`: the conflict, and the other variants by their text. -/
inductive CommitError where
  | messageVersionConflict (expected actual : UInt64)
  | refused (message : String)
deriving Repr, DecidableEq

/-- The version-guarded append of the coordinator. It may refuse a plan for other reasons,
    and a log holds at most `u64::MAX` messages. -/
def commitCheckpoint (refused : Option String) (plan : ThreadCommit) :
    Method CommitError ThreadLog Unit := fun log =>
  match refused with
  | some message => (.error (.refused message), log)
  | none =>
    if plan.expectedMessageCount.toNat ≠ log.committed.length then
      (.error (.messageVersionConflict plan.expectedMessageCount
        (UInt64.ofNat log.committed.length)), log)
    else if 0x10000000000000000 ≤ log.committed.length + plan.messageDelta.length then
      (.error (.refused "capacity overflow"), log)
    else (.ok (), ⟨log.committed ++ plan.messageDelta, some plan.runProjection⟩)

inductive CommitAppendError where
  | read (message : String)
  | commit (error : CommitError)
  | exhausted (attempts : Nat)
deriving Repr, DecidableEq

/-- Default optimistic-append attempts under version contention. -/
def maxAppendAttempts : Nat := 8

/-- What one attempt meets: a failed read, the messages other writers append between the read
    and the commit, or a coordinator that refuses. -/
structure Attempt where
  readError : Option String
  others : List Message
  refused : Option String

/-- The shared version-guarded append-commit loop. -/
def commitCheckpointAppending (build : List Message → UInt64 → ThreadCommit) :
    List Attempt → Method CommitAppendError ThreadLog Unit
  | [] => fun log => (.error (.exhausted maxAppendAttempts), log)
  | attempt :: attempts => fun log =>
    match attempt.readError with
    | some message => (.error (.read message), log)
    | none =>
      let plan := build log.committed (UInt64.ofNat log.committed.length)
      let log := { log with committed := log.committed ++ attempt.others }
      match commitCheckpoint attempt.refused plan log with
      | (.ok (), log) => (.ok (), log)
      | (.error (.messageVersionConflict _ _), log) => commitCheckpointAppending build attempts log
      | (.error error, log) => (.error (.commit error), log)

/-! ## Persisting a run -/

structure RunIdentity where
  threadId : String
  runId : String
  agentId : String
  parentRunId : Option String
deriving Repr, DecidableEq

/-- Parameters of `persist_checkpoint`. `cached` is the record of the run in the pre-warmed
    context, `legacyInput` what is inferred from the request of the run. -/
structure CheckpointPersist where
  messages : List Message
  inputMessageCount : Nat
  runIdentity : RunIdentity
  runCreatedAt : UInt64
  lifecycle : RunLifecycleState
  compaction : Option CompactionState
  terminationReason : Option TerminationReason
  finalOutput : Option String
  errorPayload : Option Json
  cached : Option RunRecord
  legacyInput : Option RunMessageInput

def inferInputFromInitialMessages (threadId : String) (inputMessageCount : Nat) :
    Option RunMessageInput :=
  if inputMessageCount = 0 then none
  else
    some ⟨threadId, MessageSeqRange.new 1 (UInt64.ofNat inputMessageCount), [], [], none, none⟩

def waitingStateFromLifecycle (status : RunStatus) (statusReason : Option String) :
    Option RunWaitingState :=
  if status ≠ .waiting then none
  else
    some ⟨match statusReason with
      | none => .externalEvent
      | some reason =>
        if reason = "awaiting_tasks" then .backgroundTasks
        else if reason = "input_required" ∨ reason = "user_input_required" then .userInput
        else if reason = "auth_required" ∨ reason = "suspended" then .toolPermission
        else if reason = "rate_limit" then .rateLimit
        else if reason = "manual_pause" then .manualPause
        else .externalEvent⟩

/-- The record of the run, without the output of this checkpoint. -/
def CheckpointPersist.baseRecord (params : CheckpointPersist) (previous : Option RunRecord) :
    RunRecord :=
  let lifecycle := params.lifecycle
  let terminal := lifecycle.status.isTerminal
  let storedTerminationReason := if terminal then params.terminationReason else none
  let storedFinalOutput := if terminal then params.finalOutput else none
  let storedErrorPayload := if terminal then params.errorPayload else none
  { runId := params.runIdentity.runId
    threadId := params.runIdentity.threadId
    agentId := params.runIdentity.agentId
    parentRunId := params.runIdentity.parentRunId
    activation := previous.bind RunRecord.activation
    request := previous.bind RunRecord.request
    input := ((previous.bind RunRecord.input).or params.legacyInput).or
      (inferInputFromInitialMessages params.runIdentity.threadId params.inputMessageCount)
    output := previous.bind RunRecord.output
    status := lifecycle.status
    terminationReason := storedTerminationReason
    finalOutput := storedFinalOutput
    errorPayload := storedErrorPayload
    waiting := waitingStateFromLifecycle lifecycle.status lifecycle.statusReason
    outcome := storedTerminationReason.map fun terminationReason =>
      ⟨terminationReason, storedFinalOutput, storedErrorPayload⟩
    finishedAt :=
      if terminal then
        some ((if lifecycle.updatedAt = 0 then params.runCreatedAt else lifecycle.updatedAt) / 1000)
      else none
    updatedAt :=
      if lifecycle.updatedAt = 0 then params.runCreatedAt / 1000 else lifecycle.updatedAt / 1000 }

/-- The plan of one attempt. -/
def CheckpointPersist.plan (contents : Contents) (params : CheckpointPersist)
    (previous : Option RunRecord) (committed : List Message) (expectedVersion : UInt64) :
    ThreadCommit :=
  let (delta, output) := materializeCheckpointAppend params.messages committed previous
    params.runIdentity.threadId params.runIdentity.runId params.lifecycle.stepCount
    params.inputMessageCount
  { messageDelta := stampCompactionMarks contents delta committed params.compaction
    expectedMessageCount := expectedVersion
    runProjection := { params.baseRecord previous with output := output } }

/-- The text of the storage error a failed append is reported as. -/
def mapCommitAppendError (threadId : String) : CommitAppendError → String
  | .read message => message
  | .commit (.messageVersionConflict expected actual) =>
    s!"message version conflict on thread '{threadId}': expected {expected}, actual {actual}"
  | .commit (.refused message) => message
  | .exhausted attempts =>
    s!"committed append exhausted {attempts} retries under version conflict for thread "
      ++ s!"'{threadId}'"

/-- Persist the run at a boundary. The previous record comes from the pre-warmed context, or
    from the store. -/
def persistCheckpoint (contents : Contents) (params : CheckpointPersist) (env : Nat → Attempt) :
    Method String ThreadLog Unit := fun log =>
  let previous := params.cached.or log.run
  let result := commitCheckpointAppending (params.plan contents previous)
    ((List.range maxAppendAttempts).map env) log
  (result.1.mapError (mapCommitAppendError params.runIdentity.threadId), result.2)

/-! ## The response of a run -/

/-- The text of the last assistant message behind the input. -/
def latestRunResponse (contents : Contents) (messages : List Message) (inputMessageCount : Nat) :
    String :=
  match (messages.drop inputMessageCount).reverse.find? fun m => m.role == .assistant with
  | some message => message.text contents
  | none => ""

end Remo
