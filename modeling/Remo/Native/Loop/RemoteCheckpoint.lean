import Remo.Native.Loop.Checkpoint

/-!
# Checkpoints of a remote run

The checkpoint of a root run on a remote backend. It has a materialiser of its own, which keeps
the range of the output as a running minimum and maximum.
-/

namespace Remo

def waitingReasonFromBackendStatus (statusReason : Option String) : WaitingReason :=
  match statusReason with
  | some "input_required" | some "user_input_required" => .userInput
  | some "auth_required" | some "suspended" => .toolPermission
  | some "awaiting_tasks" => .backgroundTasks
  | some "rate_limit" => .rateLimit
  | some "manual_pause" => .manualPause
  | _ => .externalEvent

def isRemoteRunOutputMessage (message : Message) : Bool :=
  message.role == .assistant || message.role == .tool

/-- The range between the ends when it has one number for each message id. -/
def contiguousRemoteRange (fromSeq toSeq : Option Nat) (messageIds : List String) :
    Option MessageSeqRange :=
  ((fromSeq.bind fun fromSeq => toSeq.bind fun toSeq =>
    MessageSeqRange.new (UInt64.ofNat fromSeq) (UInt64.ofNat toSeq)).filter fun range =>
      range.len.toNat == messageIds.length)

/-! ## The delta -/

/-- What the append loop keeps: the delta so far, and the output of the run. -/
structure RemoteAppendState where
  delta : List Message
  nextAppendSeq : Nat
  outputMessageIds : List String
  outputFromSeq : Option Nat
  outputToSeq : Option Nat
  hasNewOutput : Bool

/-- What the append loop reads. -/
structure RemoteAppendContext where
  committed : List Message
  previousOutputIds : List String
  runId : String
  stepIndex : Option UInt32
  inputMessageCount : Nat

namespace RemoteAppendContext

/-- The sequence number of the committed message with the id of this one. -/
def committedSeq (ctx : RemoteAppendContext) (message : Message) : Option Nat :=
  (message.id.bind (committedById ctx.committed)).map Prod.fst

def alreadyRecordedOutput (ctx : RemoteAppendContext) (message : Message) : Bool :=
  message.producedByRunId == some ctx.runId || message.id.any fun id => id ∈ ctx.previousOutputIds

def newOutput (ctx : RemoteAppendContext) (message : Message) (index : Nat) : Bool :=
  (ctx.committedSeq message).isNone && decide (ctx.inputMessageCount ≤ index) &&
    isRemoteRunOutputMessage message

end RemoteAppendContext

/-- One message of the list, at its index. -/
def appendRemoteMessage (ctx : RemoteAppendContext) (state : RemoteAppendState)
    (entry : Message × Nat) : RemoteAppendState :=
  let message := entry.1
  let committedSeq := ctx.committedSeq message
  let seq := committedSeq.getD state.nextAppendSeq
  let newOutput := ctx.newOutput message entry.2
  let appended := if newOutput then message.markProducedBy ctx.runId ctx.stepIndex else message
  let state :=
    if ctx.alreadyRecordedOutput message || newOutput then
      { state with
        hasNewOutput := newOutput || state.hasNewOutput
        outputFromSeq := some (state.outputFromSeq.elim seq fun fromSeq => min fromSeq seq)
        outputToSeq := some (state.outputToSeq.elim seq fun toSeq => max toSeq seq)
        outputMessageIds := state.outputMessageIds ++
          (message.id.filter fun id => id ∉ state.outputMessageIds).toList }
    else state
  if committedSeq.isNone then
    { state with delta := state.delta ++ [appended], nextAppendSeq := state.nextAppendSeq + 1 }
  else state

/-- The messages to append, and the output of the run with them. -/
def materializeRemoteMessageAppend (messages committedMessages : List Message)
    (previous : Option RunRecord) (runIdentity : RunIdentity) (steps inputMessageCount : Nat) :
    List Message × Option RunMessageOutput :=
  let previousOutput := previous.bind RunRecord.output
  let previousIds := (previousOutput.map RunMessageOutput.messageIds).getD []
  let previousRange := previousOutput.bind RunMessageOutput.range
  let ctx : RemoteAppendContext :=
    { committed := committedMessages
      previousOutputIds := previousIds
      runId := runIdentity.runId
      stepIndex := if 0 < steps then some (UInt32.ofNat (steps - 1)) else none
      inputMessageCount := inputMessageCount }
  let state := messages.zipIdx.foldl (appendRemoteMessage ctx)
    { delta := []
      nextAppendSeq := committedMessages.length + 1
      outputMessageIds := previousIds
      outputFromSeq := previousRange.map fun range => range.fromSeq.toNat
      outputToSeq := previousRange.map fun range => range.toSeq.toNat
      hasNewOutput := false }
  let output :=
    if state.outputFromSeq.isNone || (!state.hasNewOutput && state.outputMessageIds.isEmpty) then
      previousOutput
    else
      some
        { threadId := runIdentity.threadId
          range := contiguousRemoteRange state.outputFromSeq state.outputToSeq
            state.outputMessageIds
          messageIds := state.outputMessageIds }
  (state.delta, output)

/-! ## Persisting a run -/

/-- Parameters of `persist_remote_root_checkpoint`. `storage` and `coordinator` say what is wired,
    `loadError` is what a failing read of the record reports, `finishedMs` and `updatedMs` are the
    readings of the clock. -/
structure RemoteCheckpointPersist where
  storage : Bool
  coordinator : Bool
  loadError : Option String
  threadId : String
  runId : String
  agentId : String
  parentRunId : Option String
  runCreatedAt : UInt64
  messages : List Message
  inputMessageCount : Nat
  status : RunStatus
  terminationReason : Option TerminationReason
  statusReason : Option String
  finalOutput : Option String
  errorPayload : Option Json
  runIdentity : RunIdentity
  steps : Nat
  finishedMs : UInt64
  updatedMs : UInt64

def validateRemoteCheckpointIdentity (threadId runId : String) (runIdentity : RunIdentity) :
    Except String Unit :=
  if threadId ≠ runIdentity.threadId then
    .error (s!"remote checkpoint thread_id '{threadId}' must match RunIdentity thread_id "
      ++ s!"'{runIdentity.threadId}'")
  else if runId ≠ runIdentity.runId then
    .error (s!"remote checkpoint run_id '{runId}' must match RunIdentity run_id "
      ++ s!"'{runIdentity.runId}'")
  else .ok ()

namespace RemoteCheckpointPersist

/-- The record of the run, without the output of this checkpoint. -/
def baseRecord (params : RemoteCheckpointPersist) (previous : Option RunRecord) : RunRecord where
  runId := params.runId
  threadId := params.threadId
  agentId := params.agentId
  parentRunId := params.parentRunId
  activation := previous.bind RunRecord.activation
  request := previous.bind RunRecord.request
  input := (previous.bind RunRecord.input).or
    (inferInputFromInitialMessages params.runIdentity.threadId params.inputMessageCount)
  output := previous.bind RunRecord.output
  status := params.status
  terminationReason := params.terminationReason
  finalOutput := params.finalOutput
  errorPayload := params.errorPayload
  waiting :=
    if params.status = .waiting then some ⟨waitingReasonFromBackendStatus params.statusReason⟩
    else none
  outcome :=
    if params.status.isTerminal then
      params.terminationReason.map fun terminationReason =>
        ⟨terminationReason, params.finalOutput, params.errorPayload⟩
    else none
  finishedAt := if params.status.isTerminal then some (params.finishedMs / 1000) else none
  updatedAt := params.updatedMs / 1000

/-- The plan of one attempt. -/
def plan (params : RemoteCheckpointPersist) (previous : Option RunRecord)
    (committed : List Message) (expectedVersion : UInt64) : ThreadCommit :=
  let append := materializeRemoteMessageAppend params.messages committed previous
    params.runIdentity params.steps params.inputMessageCount
  { messageDelta := append.1
    expectedMessageCount := expectedVersion
    runProjection := { params.baseRecord previous with output := append.2 } }

end RemoteCheckpointPersist

/-- The text of the storage error a failed append is reported as. -/
def mapRemoteAppendError (threadId : String) : CommitAppendError → String
  | .read message => message
  | .commit (.messageVersionConflict expected actual) =>
    s!"message version conflict on thread '{threadId}': expected {expected}, actual {actual}"
  | .commit (.refused message) => message
  | .exhausted attempts =>
    s!"remote checkpoint append exhausted {attempts} retries under version conflict for thread "
      ++ s!"'{threadId}'"

/-- Persist the run at a boundary. -/
def persistRemoteRootCheckpoint (params : RemoteCheckpointPersist) (env : Nat → Attempt) :
    Method String ThreadLog Unit := fun log =>
  if params.storage then
    match validateRemoteCheckpointIdentity params.threadId params.runId params.runIdentity with
    | .error message => (.error message, log)
    | .ok () =>
      match params.loadError with
      | some message => (.error message, log)
      | none =>
        if params.coordinator then
          let result := commitCheckpointAppending (params.plan log.run)
            ((List.range maxAppendAttempts).map env) log
          (result.1.mapError (mapRemoteAppendError params.threadId), result.2)
        else
          (.error "remote checkpoint requires CommitCoordinator when checkpoint_store is present",
            log)
  else if params.coordinator then
    (.error "remote checkpoint requires checkpoint_store when CommitCoordinator is wired", log)
  else (.ok (), log)

end Remo
