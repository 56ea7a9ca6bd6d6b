import Remo.ForStd.Maximum
import Remo.Native.Storage.Messages

/-!
# Pending delivery of the mailbox

A submit checks the pending queue of its thread before it interrupts the active run, and appends
its messages and freezes them in one call of the store. The mailbox selects on a simulated queue
and tries again when the store finds another selection or another message version. What other
clients do between the reads and the commit of an attempt is an argument, as are clocks and
generated ids. Events and caches that are refreshed behind a commit are left out.
-/

namespace Remo

/-- Mailbox errors. -/
inductive MailboxError where
  | validation (message : String)
  | store (fault : Fault)
  | internal (message : String)
  | deliveryBlockedByBarrier (blockingPendingId : String)
deriving Repr, DecidableEq

/-- How a run was triggered. -/
inductive RunMode where
  | foreground
  | scheduled
  | internalWake
  | resume
deriving Repr, DecidableEq

/-- What a dispatch reads of a `RunActivation`. Of its seeded decisions only the call ids are
    kept. -/
structure RunActivation where
  intent : RunIntent
  trace : RunTraceContext
  runMode : RunMode
  internalOrigin : Bool
  seededDecisions : List String
  runIdHint : Option String
deriving Repr, DecidableEq

namespace RunActivation

/-- `resume_run_id`. -/
def resumeRunId (request : RunActivation) : Option String :=
  match request.intent.kind with
  | .hitlResume runId => some runId
  | .continuationFromRun runId => some runId
  | .newIntent => none

/-- `normalize_mailbox_run_mode`. -/
def normalizeMailboxRunMode (request : RunActivation) (background : Bool) : RunActivation :=
  if request.runMode ≠ .foreground then request
  else { request with
    runMode :=
      if request.seededDecisions ≠ [] ∨ request.resumeRunId.isSome then .resume
      else if request.internalOrigin then .internalWake
      else if background then .scheduled
      else .foreground }

/-- `run_activation_snapshot`. -/
def snapshot (request : RunActivation) (input : RunInputSnapshot) (resolutionId : Option String) :
    RunActivationSnapshot where
  intent := request.intent
  input := input
  trace := request.trace
  seededDecisions := request.seededDecisions
  resolutionId := resolutionId

end RunActivation

/-- `waiting_reason`. -/
def RunRecord.waitingReason (run : RunRecord) : Option WaitingReason :=
  if run.status ≠ .waiting then none else run.waiting.map RunWaitingState.reason

/-- `is_resumable_waiting`. -/
def RunRecord.isResumableWaiting (run : RunRecord) : Bool := run.waitingReason.isSome

namespace InMemoryStore

/-- `latest_run`: the last updated run of a thread, the one stored last among several. -/
def latestRun (s : InMemoryStore) (threadId : String) : Option RunRecord :=
  let inserted (run : RunRecord) := (s.runInsertion.get? run.runId).getD 0
  maxBy? (fun a b => (compare a.updatedAt b.updatedAt).then (compare (inserted a) (inserted b)))
    (s.runs.values.filter fun run => run.threadId = threadId)

/-- The open run of a thread, as its projection names it. -/
def openRun (s : InMemoryStore) (threadId : String) : Option RunRecord := do
  let thread ← s.threads.get? threadId
  let openRunId ← thread.openRunId
  let run ← s.runs.get? openRunId
  if run.threadId = threadId ∧ run.isResumableWaiting then some run else none

/-- `reusable_waiting_run_id`. -/
def reusableWaitingRunId (s : InMemoryStore) (threadId : String) : Option String :=
  match s.openRun threadId with
  | some run => some run.runId
  | none => ((s.latestRun threadId).filter RunRecord.isResumableWaiting).map RunRecord.runId

end InMemoryStore

namespace Mailbox

/-- `MAX_PENDING_FREEZE_ATTEMPTS`. -/
def maxPendingFreezeAttempts : Nat := 8

/-- `delivery_mode_for_dispatch`. -/
def deliveryModeForDispatch (boundary : DeliveryBoundary) (runId : String) : DeliveryMode :=
  match boundary with
  | .resumeInput =>
    { boundary := .resumeInput
      granularity := .batch
      barrier := false
      targetRunId := some runId
      fallbackToNewRun := false }
  | _ =>
    { boundary := boundary
      granularity := .batch
      barrier := false
      targetRunId := none
      fallbackToNewRun := true }

/-- The boundary in error texts. -/
def boundaryName : DeliveryBoundary → String
  | .interrupt => "Interrupt"
  | .nextStep => "NextStep"
  | .onNaturalEnd => "OnNaturalEnd"
  | .resumeInput => "ResumeInput"
  | .newRun => "NewRun"

/-! ## Preflight -/

/-- The placeholder of the submitted messages. -/
def placeholder (threadId : String) (pending : List PendingMessageRecord) :
    PendingMessageRecord where
  pendingId := "__preflight_foreground__"
  threadId := threadId
  position := pending.length + 1
  message := Message.user "" ""
  revision := 0
  deliveryMode := deliveryModeForDispatch .interrupt ""
  createdAt := none
  updatedAt := none

/-- `preflight_foreground_pending`: a foreground submit is refused when a freeze of the queue with
    a placeholder behind it would select nothing. -/
def preflightForegroundPending (s : InMemoryStore) (threadId : String) :
    Except MailboxError Unit :=
  match s.loadPendingMessageRecords threadId with
  | .error e => .error (.store (.storage e))
  | .ok pending =>
    if pending.isEmpty then .ok ()
    else
      let simulated := pending ++ [placeholder threadId pending]
      if !(selectPendingForFreezeForRun simulated .interrupt none).isEmpty then .ok ()
      else
        let blocking := (pending.find? fun entry => entry.deliveryMode.barrier).or pending.head?
        .error (.deliveryBlockedByBarrier ((blocking.map PendingMessageRecord.pendingId).getD ""))

/-! ## Freeze at a boundary -/

/-- `build_run_input`: the input of a run that ends at a sequence number. -/
def buildRunInput (threadId : String) (lastSeq : Nat) (triggerMessageIds : List String) :
    RunInputSnapshot where
  threadId := threadId
  range := MessageSeqRange.new 1 (UInt64.ofNat lastSeq)
  triggerMessageIds := triggerMessageIds
  selectedMessageIds := []
  contextPolicy := none
  compactedSnapshotId := none

/-- The input of a run record, as its activation has it. -/
def messageInput (input : RunInputSnapshot) : RunMessageInput where
  threadId := input.threadId
  range := input.range
  triggerMessageIds := input.triggerMessageIds
  selectedMessageIds := input.selectedMessageIds
  contextPolicy := input.contextPolicy
  compactedSnapshotId := input.compactedSnapshotId

/-- The trigger ids that an earlier freeze has recorded. -/
def priorTriggerIds (record : RunRecord) : List String :=
  match record.input with
  | some input => input.triggerMessageIds
  | none => []

/-- Add the ids that are not there yet. -/
def mergeTriggerIds (prior ids : List String) : List String :=
  ids.foldl (fun merged id => if id ∈ merged then merged else merged ++ [id]) prior

/-- The messages that a submit appends, and their delivery mode. -/
abbrev Append := Option (List Message × DeliveryMode)

/-- The queue with the messages a submit appends. -/
def simulatedPending (threadId : String) (pending : List PendingMessageRecord) (append : Append)
    (generated : Nat → Uuid) : List PendingMessageRecord :=
  match append with
  | none => pending
  | some (messages, mode) => pending ++ messages.mapIdx fun index message =>
      PendingMessageRecord.fromMessage threadId (pending.length + 1 + index) message mode
        (generated index)

/-- The message ids of selected records, each of which has one. -/
def triggerIds : List PendingMessageRecord → Except MailboxError (List String)
  | [] => .ok []
  | record :: records =>
    match record.message.id with
    | none => .error (.internal s!"pending message '{record.pendingId}' has no message id")
    | some messageId => (triggerIds records).map (messageId :: ·)

/-- What happens around one attempt: the calls of other clients, the clock, and the ids generated
    in the simulation and in the store. -/
structure Surroundings where
  beforeReads : List PendingOp
  betweenReads : List PendingOp
  beforeCommit : List PendingOp
  now : UInt64
  simulatedIds : Nat → Uuid
  generated : Nat → Uuid

/-- The record that an attempt stores with its freeze. -/
def attemptRecord (template : RunActivationSnapshot) (threadId : String) (lastSeq : Nat)
    (ids : List String) (now : UInt64) (record : RunRecord) : RunRecord :=
  let input := buildRunInput threadId lastSeq (mergeTriggerIds (priorTriggerIds record) ids)
  { record with
    activation := some { template with input := input }
    input := some (messageInput input)
    updatedAt := now / 1000 }

/-- The store call of an attempt. -/
def freezeCall (threadId : String) (boundary : DeliveryBoundary) (append : Append)
    (expectedVersion : Nat) (selectedPendingIds : List String) (run : RunRecord) (now : UInt64)
    (generated : Nat → Uuid) : Method Fault InMemoryStore (List MessageRecord) :=
  let version := some (UInt64.ofNat expectedVersion)
  match append with
  | some (messages, mode) =>
    InMemoryStore.appendAndFreezePendingMessageRecordsWithRun threadId messages mode boundary
      version selectedPendingIds run now generated
  | none =>
    InMemoryStore.freezePendingMessageRecordsWithRun threadId boundary version selectedPendingIds
      run now generated

/-- A conflict makes the mailbox try again. -/
def isConflict : Fault → Bool
  | .storage (.versionConflict _ _) => true
  | .storage (.pendingSelectionConflict _ _) => true
  | _ => false

/-- An attempt that is about to commit: the store it meets, the message version and the selection
    it expects, and the record it stores. -/
structure CommitPoint where
  store : InMemoryStore
  version : Nat
  selectedPendingIds : List String
  attempt : RunRecord

/-- An attempt is about to commit, or ends before that. -/
inductive Planned where
  | stopped (result : Except MailboxError (Option (List MessageRecord))) (store : InMemoryStore)
  | commits (point : CommitPoint)

/-- The plan of an attempt from what it has read. The store is the one it has read last. -/
def planFreeze (template : RunActivationSnapshot) (threadId : String)
    (boundary : DeliveryBoundary) (runId : String) (append : Append) (around : Surroundings)
    (committed : List Message) (pending : List PendingMessageRecord) (record : RunRecord)
    (s : InMemoryStore) : Planned :=
  let pending := simulatedPending threadId pending append around.simulatedIds
  let selected := (selectPendingForFreezeForRun pending boundary (some runId)).filterMap
    fun index => pending[index]?
  if selected.isEmpty then .stopped (.ok none) s
  else
    match triggerIds selected with
    | .error e => .stopped (.error e) s
    | .ok ids => .commits
        { store := InMemoryStore.pendingMachine.run s around.beforeCommit
          version := committed.length
          selectedPendingIds := selected.map PendingMessageRecord.pendingId
          attempt := attemptRecord template threadId (committed.length + selected.length) ids
            around.now record }

/-- The reads of an attempt and its plan. -/
def planAttempt (template : RunActivationSnapshot) (threadId : String)
    (boundary : DeliveryBoundary) (runId : String) (append : Append) (around : Surroundings)
    (record : RunRecord) (s : InMemoryStore) : Planned :=
  let s := InMemoryStore.pendingMachine.run s around.beforeReads
  match s.loadCommittedMessages threadId with
  | .error e => .stopped (.error (.store (.storage e))) s
  | .ok committed =>
    let s := InMemoryStore.pendingMachine.run s around.betweenReads
    match s.loadPendingMessageRecords threadId with
    | .error e => .stopped (.error (.store (.storage e))) s
    | .ok pending =>
      planFreeze template threadId boundary runId append around (committed.getD []) pending record s

/-- The commit of an attempt. -/
def commit (threadId : String) (boundary : DeliveryBoundary) (append : Append)
    (around : Surroundings) (point : CommitPoint) : Outcome (List MessageRecord) × InMemoryStore :=
  freezeCall threadId boundary append point.version point.selectedPendingIds point.attempt
    around.now around.generated point.store

/-- `prepare_pending_boundary_snapshot_for_run` from an attempt on. The caller's record is written
    when a freeze has succeeded. -/
def freezeAttempts (template : RunActivationSnapshot) (threadId : String)
    (boundary : DeliveryBoundary) (runId : String) (append : Append) :
    List Surroundings →
      Method MailboxError (RunRecord × InMemoryStore) (Option (List MessageRecord))
  | [], (record, s) =>
    (.error (.internal (s!"pending {boundaryName boundary} freeze exhausted "
      ++ s!"{maxPendingFreezeAttempts} retries under version conflict for thread '{threadId}'")),
      record, s)
  | around :: rest, (record, s) =>
    match planAttempt template threadId boundary runId append around record s with
    | .stopped result s => (result, record, s)
    | .commits point =>
      match commit threadId boundary append around point with
      | (.ok frozen, s) => (.ok (some frozen), point.attempt, s)
      | (.error fault, s) =>
        if isConflict fault then
          freezeAttempts template threadId boundary runId append rest (record, s)
        else (.error (.store fault), record, s)

/-- `prepare_pending_boundary_snapshot_for_run`. -/
def preparePendingBoundarySnapshotForRun (template : RunActivationSnapshot) (threadId : String)
    (boundary : DeliveryBoundary) (runId : String) (append : Append)
    (around : Nat → Surroundings) :
    Method MailboxError (RunRecord × InMemoryStore) (Option (List MessageRecord)) :=
  freezeAttempts template threadId boundary runId append
    ((List.range maxPendingFreezeAttempts).map around)

/-- `MailboxPendingBoundaryHandler::freeze_pending_boundary`: the record of the run is the stored
    one, and nothing is appended. -/
def freezePendingBoundary (template : RunActivationSnapshot) (threadId runId : String)
    (boundary : DeliveryBoundary) (around : Nat → Surroundings) :
    Method MailboxError InMemoryStore (Option (List MessageRecord)) := fun s =>
  match s.runs.get? runId with
  | none =>
    (.error (.internal s!"run '{runId}' not found while freezing pending {boundaryName boundary}"),
      s)
  | some record =>
    let frozen := preparePendingBoundarySnapshotForRun template threadId boundary runId none around
      (record, s)
    (frozen.1, frozen.2.2)

/-! ## Dispatch -/

/-- A submit without a run of its own goes on with the waiting run of its thread. -/
def routeToWaitingRun (s : InMemoryStore) (threadId : String) (request : RunActivation) :
    RunActivation :=
  if request.resumeRunId.isNone ∧ request.runIdHint.isNone then
    match s.reusableWaitingRunId threadId with
    | some waitingRunId =>
      { request with
        intent := { request.intent with kind := .hitlResume waitingRunId }
        runMode := .resume }
    | none => request
  else request

/-- The run id of a dispatch. -/
def dispatchRunId (request : RunActivation) (fresh : Uuid) : String :=
  ((request.resumeRunId.or request.runIdHint).filter fun id => !Str.isBlank id).getD fresh.text

/-- `normalize_message_ids`. -/
def normalizeMessageIds (messages : List Message) (generated : Nat → Uuid) : List Message :=
  messages.mapIdx fun index message =>
    if message.id.all String.isEmpty then { message with id := some (generated index).text }
    else message

/-- The record of a dispatched run: the stored one when it is open for dispatch, else a new one. -/
def dispatchRecord (s : InMemoryStore) (request : RunActivation) (threadId runId : String)
    (now : UInt64) : Except MailboxError RunRecord :=
  match s.runs.get? runId with
  | some existing =>
    if existing.threadId ≠ threadId then
      .error (.validation
        s!"run_id '{runId}' belongs to thread '{existing.threadId}', not '{threadId}'")
    else if existing.status ≠ .created ∧ existing.isResumableWaiting = false then
      .error (.validation s!"run_id '{runId}' is not open for dispatch")
    else .ok { existing with request := none }
  | none =>
    let previousAgent := (s.latestRun threadId).bind fun run =>
      if run.status ≠ .created ∧ Str.isBlank run.agentId = false then some run.agentId else none
    let agentId := (request.intent.agentId.or previousAgent).getD "default"
    .ok { RunRecord.new runId threadId agentId with
      parentRunId := request.trace.parentRunId
      status := .created
      updatedAt := now / 1000 }

/-- The boundary at which a dispatch stages its messages, unless it carries no user input. -/
def dispatchBoundary (request : RunActivation) : Option DeliveryBoundary :=
  match request.runMode with
  | .foreground => some .interrupt
  | .scheduled => some .newRun
  | .internalWake => none
  | .resume => if request.seededDecisions = [] then some .resumeInput else none

/-- `prepare_pending_messages_for_dispatch`. -/
def preparePendingMessagesForDispatch (request : RunActivation) (threadId : String)
    (messages : List Message) (runId resolutionId : String) (around : Nat → Surroundings) :
    Method MailboxError (RunRecord × InMemoryStore) (Option (List MessageRecord)) := fun state =>
  if messages = [] then (.ok none, state)
  else
    match dispatchBoundary request with
    | none => (.ok none, state)
    | some boundary =>
      let template := request.snapshot ⟨"", none, [], [], none, none⟩ (some resolutionId)
      match preparePendingBoundarySnapshotForRun template threadId boundary runId
          (some (messages, deliveryModeForDispatch boundary runId)) around state with
      | (.ok none, state) => (.error (.internal
          (s!"pending {boundaryName boundary} freeze found no eligible messages "
            ++ s!"for thread '{threadId}'")), state)
      | (result, state) => (result, state)

/-- `prepare_run_for_dispatch` up to the eager append, which is left to a dispatch that stages no
    pending messages. The resolution of the plan is an argument. -/
def prepareRunForDispatch (request : RunActivation) (threadId : String) (messages : List Message)
    (fresh : Uuid) (generated : Nat → Uuid) (resolution : Except MailboxError String) (now : UInt64)
    (around : Nat → Surroundings) :
    Method MailboxError InMemoryStore (String × Option (List MessageRecord)) := fun s =>
  let request := routeToWaitingRun s threadId request
  let runId := dispatchRunId request fresh
  match dispatchRecord s request threadId runId now, resolution with
  | .error e, _ => (.error e, s)
  | .ok _, .error e => (.error e, s)
  | .ok record, .ok resolutionId =>
    match preparePendingMessagesForDispatch request threadId
        (normalizeMessageIds messages generated) runId resolutionId around (record, s) with
    | (.ok frozen, _, s) => (.ok (runId, frozen), s)
    | (.error e, _, s) => (.error e, s)

end Mailbox

end Remo
