import Remo.ForStd.AssocMap
import Remo.ForStd.Machine
import Remo.Native.Mailbox.Contract

/-!
# The SQLite mailbox store

Dispatches in the rows of a table, and the calls of the store as statements on the tables.
-/

/-! ## Rows of the dispatch table

`run_dispatches` keeps a dispatch in text and 64-bit signed integer columns.
`rowToDispatch` decodes a row and ends with the persistence checks; it is the
only way the SQLite store reads a dispatch back. The JSON text of a termination
reason and the texts of driver errors come from other crates, so they are
parameters.
-/

namespace Remo

/-- A row of the table `run_dispatches`. `none` is SQL `NULL`. -/
structure DispatchRow where
  dispatchId : String
  threadId : String
  runId : String
  priority : Int64
  dedupeKey : Option String
  dispatchEpoch : Int64
  status : String
  availableAt : Int64
  attemptCount : Int64
  maxAttempts : Int64
  lastError : Option String
  claimToken : Option String
  claimedBy : Option String
  leaseUntil : Option Int64
  dispatchInstanceId : Option String
  runStatus : Option String
  termination : Option String
  runResponse : Option String
  runError : Option String
  completedAt : Option Int64
  createdAt : Int64
  updatedAt : Int64
deriving DecidableEq

/-- Why a column could not be converted. -/
inductive ConversionError where
  | debug (error : StorageError)
  | json (message : String)
  | storage (error : StorageError)
deriving Repr, DecidableEq

/-- The errors of the database driver that the store can meet. -/
inductive SqliteError where
  | fromSqlConversionFailure (column : Nat) (error : ConversionError)
  | invalidColumnType (column : Nat) (name : String)
  | queryReturnedNoRows
  | uniqueConstraintFailed (column : String)
  | datatypeMismatch
deriving Repr, DecidableEq

/-- What the store takes from other crates: the JSON text of a termination reason
    and the text of a driver error. Reading back the text that was written gives
    the reason again. -/
structure SqliteDriver where
  toJson : TerminationReason → String
  fromJson : String → Except String TerminationReason
  display : SqliteError → String
  fromJson_toJson : ∀ termination, fromJson (toJson termination) = .ok termination

/-! ## Column texts -/

def statusToStr : RunDispatchStatus → String
  | .queued => "Queued"
  | .claimed => "Claimed"
  | .acked => "Acked"
  | .cancelled => "Cancelled"
  | .superseded => "Superseded"
  | .deadLetter => "DeadLetter"

def strToStatus (s : String) : Except StorageError RunDispatchStatus :=
  if s = "Queued" then .ok .queued
  else if s = "Claimed" then .ok .claimed
  else if s = "Acked" then .ok .acked
  else if s = "Cancelled" then .ok .cancelled
  else if s = "Superseded" then .ok .superseded
  else if s = "DeadLetter" then .ok .deadLetter
  else .error (.io ("unknown RunDispatchStatus: " ++ s))

def runStatusToStr : RunStatus → String
  | .created => "created"
  | .running => "running"
  | .waiting => "waiting"
  | .done => "done"

def strToRunStatus (s : String) : Except StorageError RunStatus :=
  if s = "created" then .ok .created
  else if s = "running" then .ok .running
  else if s = "waiting" then .ok .waiting
  else if s = "done" then .ok .done
  else .error (.io ("unknown RunStatus: " ++ s))

/-- The texts of the terminal statuses, as the queries list them. -/
def terminalStatuses : List String := ["Acked", "Cancelled", "Superseded", "DeadLetter"]

/-! ## Decoding -/

/-- Validate a persisted dispatch after its columns are converted. -/
def RunDispatch.fromPersistedParts (parts : RunDispatch) : Except StorageError RunDispatch :=
  match parts.validateForPersist with
  | .error e => .error e
  | .ok () => .ok parts

namespace DispatchRow

variable (driver : SqliteDriver)

/-- The fields of a row once its text columns are converted. The casts drop the
    upper bits. -/
def parts (row : DispatchRow) (status : RunDispatchStatus) (runStatus : Option RunStatus)
    (termination : Option TerminationReason) : RunDispatch where
  dispatchId := row.dispatchId
  threadId := row.threadId
  runId := row.runId
  priority := row.priority.toUInt64.toUInt8
  dedupeKey := row.dedupeKey
  dispatchEpoch := row.dispatchEpoch.toUInt64
  status := status
  availableAt := row.availableAt.toUInt64
  attemptCount := row.attemptCount.toUInt64.toUInt32
  maxAttempts := row.maxAttempts.toUInt64.toUInt32
  lastError := row.lastError
  claimToken := row.claimToken
  claimedBy := row.claimedBy
  leaseUntil := row.leaseUntil.map Int64.toUInt64
  dispatchInstanceId := row.dispatchInstanceId
  runStatus := runStatus
  termination := termination
  runResponse := row.runResponse
  runError := row.runError
  completedAt := row.completedAt.map Int64.toUInt64
  createdAt := row.createdAt.toUInt64
  updatedAt := row.updatedAt.toUInt64

/-- Decode a row. -/
def rowToDispatch (row : DispatchRow) : Except SqliteError RunDispatch := do
  let status ← (strToStatus row.status).mapError fun e =>
    .fromSqlConversionFailure 11 (.debug e)
  let runStatus ← (row.runStatus.mapM strToRunStatus).mapError fun e =>
    .fromSqlConversionFailure 0 (.debug e)
  let termination ← (row.termination.mapM driver.fromJson).mapError fun e =>
    .fromSqlConversionFailure 0 (.json e)
  (row.parts status runStatus termination).fromPersistedParts.mapError fun e =>
    .fromSqlConversionFailure 0 (.storage e)

end DispatchRow

end Remo

/-! ## The SQLite mailbox store

`SqliteMailboxStore` keeps the dispatches in the table `run_dispatches` and the
epochs in `thread_dispatch_epochs`. Each statement commits on its own, and every
call holds the connection from its start to its end. A call that fails or panics
keeps what its earlier statements wrote.

The statements are modelled on the tables: `WHERE dispatch_id = ?` is a lookup by
primary key, `UPDATE` a change of the rows that match, `SELECT` without `ORDER BY`
a walk in scan order. Integers are bound as signed 64-bit values.
-/

namespace Remo

/-- An `INTEGER` column after arithmetic: a sum that leaves the 64-bit range is
    stored as a `REAL`. -/
inductive SqlNumber where
  | integer (value : Int64)
  | real
deriving DecidableEq

/-- The SQL expression `x + 1`. -/
def SqlNumber.succ : SqlNumber → SqlNumber
  | .integer value => if value = Int64.maxValue then .real else .integer (value + 1)
  | .real => .real

/-- Read the column as `i64`. -/
def SqlNumber.get (name : String) : SqlNumber → Except SqliteError Int64
  | .integer value => .ok value
  | .real => .error (.invalidColumnType 0 name)

/-- `LIMIT ?`: a negative limit is no limit. -/
def sqlLimit {α : Type} (limit : Int64) (rows : List α) : List α :=
  if limit < 0 then rows else rows.take limit.toUInt64.toNat

/-- `OFFSET ?`: a negative offset is no offset. -/
def sqlOffset {α : Type} (offset : Int64) (rows : List α) : List α :=
  if offset < 0 then rows else rows.drop offset.toUInt64.toNat

/-- The two tables of the store. -/
structure SqliteMailboxStore where
  runDispatches : AssocMap String DispatchRow
  threadDispatchEpochs : AssocMap String SqlNumber

namespace SqliteMailboxStore

/-- An empty database. -/
def new : SqliteMailboxStore := ⟨AssocMap.empty, AssocMap.empty⟩

/-! ## Statements -/

/-- `UPDATE run_dispatches SET .. WHERE dispatch_id = ?`. -/
def updateById (dispatchId : String) (set : DispatchRow → DispatchRow)
    (q : SqliteMailboxStore) : SqliteMailboxStore :=
  { q with runDispatches := q.runDispatches.modify dispatchId set }

/-- `SELECT * FROM run_dispatches WHERE ..` in scan order. -/
def selectWhere (q : SqliteMailboxStore) (cond : DispatchRow → Bool) : List DispatchRow :=
  q.runDispatches.values.filter cond

/-- `UPDATE run_dispatches SET .. WHERE ..`. -/
def updateWhere (cond : DispatchRow → Bool) (set : DispatchRow → DispatchRow)
    (q : SqliteMailboxStore) : SqliteMailboxStore :=
  { q with runDispatches := q.runDispatches.mapValues fun _ row => if cond row then set row else row }

section Calls

variable (driver : SqliteDriver)

/-- `map_err(|e| StorageError::Io(format!("{context}: {e}")))`. -/
def mapErr {α : Type} (context : String) : Except SqliteError α → Outcome α
  | .ok a => .ok a
  | .error e => Outcome.fail (.io (context ++ ": " ++ driver.display e))

/-- Decode the selected rows; the first row that does not decode is the error. -/
def decodeRows (context : String) (rows : List DispatchRow) : Outcome (List RunDispatch) :=
  mapErr driver context (rows.mapM (DispatchRow.rowToDispatch driver))

/-- `SELECT * FROM run_dispatches WHERE dispatch_id = ?`, with `optional()`. -/
def loadRow (q : SqliteMailboxStore) (context dispatchId : String) : Outcome (Option RunDispatch) :=
  mapErr driver context ((q.runDispatches.get? dispatchId).mapM (DispatchRow.rowToDispatch driver))

/-- `SELECT * FROM run_dispatches WHERE dispatch_id = ?` for a row that is there. -/
def reloadRow (q : SqliteMailboxStore) (context dispatchId : String) : Outcome RunDispatch :=
  match q.runDispatches.get? dispatchId with
  | none => mapErr driver context (.error .queryReturnedNoRows)
  | some row => mapErr driver context (row.rowToDispatch driver)

/-- The dispatch epoch of a thread, 0 for a thread without row. -/
def currentEpochForConn (q : SqliteMailboxStore) (threadId : String) : Outcome UInt64 :=
  match q.threadDispatchEpochs.get? threadId with
  | none => .ok 0
  | some epoch =>
    (mapErr driver "current dispatch_epoch select" (epoch.get "current_epoch")).map Int64.toUInt64

/-! ## Superseding -/

/-- `SET status = 'Superseded', dispatch_epoch = .., last_error = .., ..`. -/
def setSupersededAtEpoch (epoch : UInt64) (reason : String) (now : UInt64) (row : DispatchRow) :
    DispatchRow :=
  { row with
    status := "Superseded"
    dispatchEpoch := epoch.toInt64
    lastError := some reason
    claimToken := none
    claimedBy := none
    leaseUntil := none
    completedAt := some now.toInt64
    updatedAt := now.toInt64 }

/-- Supersede a loaded dispatch that is claimed under the token. -/
def supersedeClaimedLoaded (dispatch : RunDispatch) (claimToken : String) (now : UInt64)
    (reason : String) : Method Fault SqliteMailboxStore (Option RunDispatch) := fun q =>
  if dispatch.status ≠ .claimed then (.ok none, q)
  else if dispatch.claimToken ≠ some claimToken then (Outcome.fail (.versionConflict 0 1), q)
  else
    match q.currentEpochForConn driver dispatch.threadId with
    | .error f => (.error f, q)
    | .ok currentEpoch =>
      let terminalEpoch := max dispatch.dispatchEpoch currentEpoch
      let cond (row : DispatchRow) : Bool :=
        row.status == "Claimed" && row.claimToken == some claimToken
      let changed := (q.runDispatches.get? dispatch.dispatchId).any cond
      if !changed then (.ok none, q)
      else
        let q := q.updateById dispatch.dispatchId fun row =>
          if cond row then setSupersededAtEpoch terminalEpoch reason now row else row
        (q.loadRow driver "supersede claimed reload" dispatch.dispatchId, q)

/-- Supersede the queued dispatches of a thread whose epoch is behind. -/
def supersedeStaleQueuedForThread (threadId : String) (now : UInt64) :
    Method Fault SqliteMailboxStore Unit := fun q =>
  match q.currentEpochForConn driver threadId with
  | .error f => (.error f, q)
  | .ok currentEpoch =>
    (.ok (), q.updateWhere
      (fun row => row.threadId == threadId && row.status == "Queued"
        && decide (row.dispatchEpoch < currentEpoch.toInt64))
      (setSupersededAtEpoch currentEpoch MailboxState.reasonQueuedSupersededByEpoch now))

/-- Supersede a claimed dispatch whose epoch is behind, and say whether it was. -/
def supersedeStaleClaimedIfNeeded (dispatch : RunDispatch) (claimToken : String) (now : UInt64)
    (reason : String) : Method Fault SqliteMailboxStore Bool := fun q =>
  match q.currentEpochForConn driver dispatch.threadId with
  | .error f => (.error f, q)
  | .ok currentEpoch =>
    if currentEpoch ≤ dispatch.dispatchEpoch then (.ok false, q)
    else Method.map (fun _ => true)
      (supersedeClaimedLoaded driver dispatch claimToken now reason) q

/-! ## Enqueue -/

/-- Whether a non-terminal dispatch of the thread already has the dedupe key. -/
def hasDuplicate (q : SqliteMailboxStore) (dispatch : RunDispatch) : Bool :=
  match dispatch.dedupeKey with
  | none => false
  | some dk => q.runDispatches.values.any fun row =>
      row.threadId == dispatch.threadId && row.dedupeKey == some dk
        && !terminalStatuses.contains row.status

/-- The inserted row. Columns that the statement does not name are `NULL`. -/
def insertedRow (dispatch : RunDispatch) (dispatchEpoch : Int64) : DispatchRow where
  dispatchId := dispatch.dispatchId
  threadId := dispatch.threadId
  runId := dispatch.runId
  priority := dispatch.priority.toUInt64.toInt64
  dedupeKey := dispatch.dedupeKey
  dispatchEpoch := dispatchEpoch
  status := statusToStr .queued
  availableAt := dispatch.availableAt.toInt64
  attemptCount := dispatch.attemptCount.toUInt64.toInt64
  maxAttempts := dispatch.maxAttempts.toUInt64.toInt64
  lastError := dispatch.lastError
  claimToken := dispatch.claimToken
  claimedBy := dispatch.claimedBy
  leaseUntil := dispatch.leaseUntil.map UInt64.toInt64
  dispatchInstanceId := none
  runStatus := none
  termination := none
  runResponse := none
  runError := none
  completedAt := none
  createdAt := dispatch.createdAt.toInt64
  updatedAt := dispatch.updatedAt.toInt64

/-- Persist a dispatch under the current epoch of its thread. -/
def enqueue (dispatch : RunDispatch) : Method Fault SqliteMailboxStore Unit := fun q =>
  match dispatch.validateForEnqueue with
  | .error e => (Outcome.fail e, q)
  | .ok () =>
    if q.hasDuplicate dispatch then
      (Outcome.fail (.alreadyExists ("dedupe_key=" ++ dispatch.dedupeKey.getD "")), q)
    else
      -- Auto-create the epoch row; fetch the current epoch.
      let q := { q with
        threadDispatchEpochs := q.threadDispatchEpochs.orInsert dispatch.threadId (.integer 0) }
      let selected := ((q.threadDispatchEpochs.get? dispatch.threadId).elim
        (.error .queryReturnedNoRows) (SqlNumber.get "current_epoch"))
      match mapErr driver "dispatch_epoch select" selected with
      | .error f => (.error f, q)
      | .ok dispatchEpoch =>
        if dispatch.dispatchId ∈ q.runDispatches.keys then
          (mapErr driver "insert dispatch"
            (.error (.uniqueConstraintFailed "run_dispatches.dispatch_id")), q)
        else
          (.ok (), { q with
            runDispatches := q.runDispatches.insert dispatch.dispatchId
              (insertedRow dispatch dispatchEpoch) })

/-! ## Claim -/

/-- `SET status = 'Claimed', claim_token = .., claimed_by = .., ..`. -/
def setClaimed (claimToken consumerId : String) (leaseUntil now : UInt64) (row : DispatchRow) :
    DispatchRow :=
  { row with
    status := "Claimed"
    claimToken := some claimToken
    claimedBy := some consumerId
    leaseUntil := some leaseUntil.toInt64
    updatedAt := now.toInt64 }

/-- `ORDER BY priority ASC, created_at ASC`. -/
def queueLe (a b : DispatchRow) : Prop :=
  a.priority < b.priority ∨ (a.priority = b.priority ∧ a.createdAt ≤ b.createdAt)

instance : DecidableRel queueLe := fun a b =>
  inferInstanceAs (Decidable (a.priority < b.priority ∨
    (a.priority = b.priority ∧ a.createdAt ≤ b.createdAt)))

/-- Whether a dispatch of the thread is claimed. -/
def hasClaimed (q : SqliteMailboxStore) (threadId : String) : Bool :=
  q.runDispatches.values.any fun row => row.threadId == threadId && row.status == "Claimed"

/-- The ids `claim` hands out, in queue order. -/
def eligibleIds (q : SqliteMailboxStore) (threadId : String) (now limit : UInt64) : List String :=
  let found := q.selectWhere fun row => row.threadId == threadId && row.status == "Queued"
    && decide (row.availableAt ≤ now.toInt64)
  (sqlLimit limit.toInt64 (found.insertionSort queueLe)).map DispatchRow.dispatchId

/-- Claim the dispatches with the given ids and read them back. -/
def claimAll (consumerId : String) (leaseMs now : UInt64) (token : Uuid)
    (dispatchIds : List String) : Method Fault SqliteMailboxStore (List RunDispatch) := fun q =>
  if dispatchIds.isEmpty then (.ok [], q)
  else
    match Outcome.addU64 now leaseMs with
    | .error f => (.error f, q)
    | .ok leaseUntil =>
      let q := dispatchIds.foldl (fun q id =>
        q.updateById id (setClaimed token.text consumerId leaseUntil now)) q
      (dispatchIds.mapM fun id => q.reloadRow driver "claim reload" id, q)

/-- Claim up to `limit` queued dispatches of a thread. -/
def claim (threadId consumerId : String) (leaseMs now limit : UInt64) (token : Uuid) :
    Method Fault SqliteMailboxStore (List RunDispatch) :=
  Method.bind (supersedeStaleQueuedForThread driver threadId now) fun _ q =>
    -- Cannot claim while another dispatch is already Claimed for this thread.
    if q.hasClaimed threadId then (.ok [], q)
    else claimAll driver consumerId leaseMs now token (q.eligibleIds threadId now limit) q

/-- Whether another dispatch of the thread is claimed. -/
def hasOtherClaimed (q : SqliteMailboxStore) (threadId dispatchId : String) : Bool :=
  q.runDispatches.values.any fun row =>
    row.threadId == threadId && row.dispatchId != dispatchId && row.status == "Claimed"

/-- Claim a specific dispatch by id. -/
def claimDispatch (dispatchId consumerId : String) (leaseMs now : UInt64) (token : Uuid) :
    Method Fault SqliteMailboxStore (Option RunDispatch) := fun q =>
  match q.loadRow driver "claim_dispatch load" dispatchId with
  | .error f => (.error f, q)
  | .ok none => (.ok none, q)
  | .ok (some dispatch) =>
    if dispatch.status ≠ .queued then (.ok none, q)
    else
      match q.currentEpochForConn driver dispatch.threadId with
      | .error f => (.error f, q)
      | .ok currentEpoch =>
        if dispatch.dispatchEpoch < currentEpoch then
          (.ok none, q.updateById dispatchId fun row =>
            if row.status == "Queued" then
              setSupersededAtEpoch currentEpoch MailboxState.reasonQueuedSupersededByEpoch now row
            else row)
        else if q.hasOtherClaimed dispatch.threadId dispatchId then (.ok none, q)
        else
          match Outcome.addU64 now leaseMs with
          | .error f => (.error f, q)
          | .ok leaseUntil =>
            let q := q.updateById dispatchId (setClaimed token.text consumerId leaseUntil now)
            ((q.reloadRow driver "claim_dispatch reload" dispatchId).map some, q)

/-! ## Calls of a claim holder -/

/-- The shape of the calls a claim holder makes: load the dispatch, check that the
    caller owns it, supersede it when the thread epoch moved on, and run the
    statements of the call otherwise. -/
def withClaim {α : Type} (context dispatchId claimToken : String) (missing rejected : Outcome α)
    (stale : RunDispatch → SqliteMailboxStore → Outcome α) (owns : RunDispatch → Bool)
    (now : UInt64) (reason : String) (update : RunDispatch → Method Fault SqliteMailboxStore α) :
    Method Fault SqliteMailboxStore α := fun q =>
  match q.loadRow driver context dispatchId with
  | .error f => (.error f, q)
  | .ok none => (missing, q)
  | .ok (some dispatch) =>
    if !owns dispatch then (rejected, q)
    else Method.bind (supersedeStaleClaimedIfNeeded driver dispatch claimToken now reason)
      (fun superseded q => if superseded then (stale dispatch q, q) else update dispatch q) q

/-- The presented token is the current one. -/
def holdsToken (claimToken : String) (dispatch : RunDispatch) : Bool :=
  dispatch.claimToken == some claimToken

/-- The dispatch is claimed and the presented token is the current one. -/
def holdsClaim (claimToken : String) (dispatch : RunDispatch) : Bool :=
  dispatch.status == .claimed && dispatch.claimToken == some claimToken

/-- The conflict reported for a wrong token. -/
def tokenConflict {α : Type} : Outcome α := Outcome.fail (.versionConflict 0 1)

/-- The conflict reported for a stale epoch. -/
def epochConflict {α : Type} (dispatch : RunDispatch) (q : SqliteMailboxStore) : Outcome α := do
  let actual ← q.currentEpochForConn driver dispatch.threadId
  Outcome.fail (.versionConflict dispatch.dispatchEpoch actual)

/-- `SET status = 'Acked', ..`. -/
def setAcked (now : UInt64) (row : DispatchRow) : DispatchRow :=
  { row with
    status := "Acked"
    claimToken := none
    claimedBy := none
    leaseUntil := none
    completedAt := some now.toInt64
    updatedAt := now.toInt64 }

/-- Mark mailbox delivery as consumed and no longer retryable. -/
def ack (dispatchId claimToken : String) (now : UInt64) : Method Fault SqliteMailboxStore Unit :=
  withClaim driver "ack load" dispatchId claimToken (Outcome.fail (.notFound dispatchId))
    tokenConflict (epochConflict driver) (holdsToken claimToken) now
    MailboxState.reasonClaimedSupersededBeforeAck
    fun _ q => (.ok (), q.updateById dispatchId (setAcked now))

/-- `SET dispatch_instance_id = .., run_status = .., termination = NULL, ..`. -/
def setDispatchStart (dispatchInstanceId : String) (now : UInt64) (row : DispatchRow) :
    DispatchRow :=
  { row with
    dispatchInstanceId := some dispatchInstanceId
    runStatus := some (runStatusToStr .running)
    termination := none
    runResponse := none
    runError := none
    completedAt := none
    updatedAt := now.toInt64 }

/-- Record the runtime dispatch identity for a claimed dispatch. -/
def recordDispatchStart (dispatchId claimToken dispatchInstanceId : String) (now : UInt64) :
    Method Fault SqliteMailboxStore Unit :=
  withClaim driver "record_dispatch_start load" dispatchId claimToken
    (Outcome.fail (.notFound dispatchId)) tokenConflict (epochConflict driver)
    (holdsClaim claimToken) now MailboxState.reasonClaimedSupersededBeforeStart
    fun _ q => (.ok (), q.updateById dispatchId (setDispatchStart dispatchInstanceId now))

/-- `SET dispatch_instance_id = .., run_status = .., termination = .., ..`. -/
def setRunResult (result : RunDispatchResult) (now : UInt64) (row : DispatchRow) : DispatchRow :=
  { row with
    dispatchInstanceId := some result.dispatchInstanceId
    runStatus := some (runStatusToStr result.status)
    termination := result.termination.map driver.toJson
    runResponse := result.response
    runError := result.error
    completedAt := some now.toInt64
    updatedAt := now.toInt64 }

/-- Record the runtime result for a claimed dispatch. -/
def recordRunResult (dispatchId claimToken : String) (result : RunDispatchResult) (now : UInt64) :
    Method Fault SqliteMailboxStore Unit :=
  withClaim driver "record_run_result load" dispatchId claimToken
    (Outcome.fail (.notFound dispatchId)) tokenConflict (epochConflict driver)
    (holdsClaim claimToken) now MailboxState.reasonClaimedSupersededBeforeResult
    fun _ q => (.ok (), q.updateById dispatchId (setRunResult driver result now))

/-- `u32` addition of one, which panics on overflow. -/
def nextAttempt (attemptCount : UInt32) : Outcome UInt32 :=
  if attemptCount = 0xFFFFFFFF then .error (.panic .arithmeticOverflow) else .ok (attemptCount + 1)

/-- `SET status = 'DeadLetter', attempt_count = .., last_error = .., ..`. -/
def setNackDeadLetter (attemptCount : UInt32) (error : String) (now : UInt64) (row : DispatchRow) :
    DispatchRow :=
  { row with
    status := "DeadLetter"
    attemptCount := attemptCount.toUInt64.toInt64
    lastError := some error
    claimToken := none
    claimedBy := none
    leaseUntil := none
    completedAt := some now.toInt64
    updatedAt := now.toInt64 }

/-- `SET status = 'Queued', attempt_count = .., last_error = .., available_at = .., ..`. -/
def setNackRequeue (attemptCount : UInt32) (error : String) (retryAt now : UInt64)
    (row : DispatchRow) : DispatchRow :=
  { row with
    status := "Queued"
    attemptCount := attemptCount.toUInt64.toInt64
    lastError := some error
    availableAt := retryAt.toInt64
    claimToken := none
    claimedBy := none
    leaseUntil := none
    dispatchInstanceId := none
    runStatus := none
    termination := none
    runResponse := none
    runError := none
    updatedAt := now.toInt64 }

/-- Return a dispatch to the queue for retry, or dead-letter it. -/
def nack (dispatchId claimToken : String) (retryAt : UInt64) (error : String) (now : UInt64) :
    Method Fault SqliteMailboxStore Unit :=
  withClaim driver "nack load" dispatchId claimToken (Outcome.fail (.notFound dispatchId))
    tokenConflict (epochConflict driver) (holdsToken claimToken) now
    MailboxState.reasonClaimedSupersededBeforeNack fun dispatch q =>
      match nextAttempt dispatch.attemptCount with
      | .error f => (.error f, q)
      | .ok newAttemptCount =>
        if dispatch.maxAttempts ≤ newAttemptCount then
          (.ok (), q.updateById dispatchId (setNackDeadLetter newAttemptCount error now))
        else
          (.ok (), q.updateById dispatchId (setNackRequeue newAttemptCount error retryAt now))

/-- `SET status = 'DeadLetter', last_error = .., ..`. -/
def setDeadLetter (error : String) (now : UInt64) (row : DispatchRow) : DispatchRow :=
  { row with
    status := "DeadLetter"
    lastError := some error
    claimToken := none
    claimedBy := none
    leaseUntil := none
    completedAt := some now.toInt64
    updatedAt := now.toInt64 }

/-- Permanently fail a dispatch. -/
def deadLetter (dispatchId claimToken error : String) (now : UInt64) :
    Method Fault SqliteMailboxStore Unit :=
  withClaim driver "dead_letter load" dispatchId claimToken (Outcome.fail (.notFound dispatchId))
    tokenConflict (epochConflict driver) (holdsToken claimToken) now
    MailboxState.reasonClaimedSupersededBeforeDeadLetter
    fun _ q => (.ok (), q.updateById dispatchId (setDeadLetter error now))

/-- `SET lease_until = .., updated_at = ..`. -/
def setLease (leaseUntil now : UInt64) (row : DispatchRow) : DispatchRow :=
  { row with leaseUntil := some leaseUntil.toInt64, updatedAt := now.toInt64 }

/-- Extend an active lease. Everything but a live claim answers `false`. -/
def extendLease (dispatchId claimToken : String) (extensionMs now : UInt64) :
    Method Fault SqliteMailboxStore Bool :=
  withClaim driver "extend_lease load" dispatchId claimToken (.ok false) (.ok false)
    (fun _ _ => .ok false) (holdsClaim claimToken) now
    MailboxState.reasonClaimedSupersededDuringLeaseRenewal fun _ q =>
      match Outcome.addU64 now extensionMs with
      | .error f => (.error f, q)
      | .ok leaseUntil =>
        let cond (row : DispatchRow) : Bool :=
          row.status == "Claimed" && row.claimToken == some claimToken
        (.ok ((q.runDispatches.get? dispatchId).any cond),
          q.updateById dispatchId fun row => if cond row then setLease leaseUntil now row else row)

/-- `SET status = 'Cancelled', ..`. -/
def setCancelled (now : UInt64) (row : DispatchRow) : DispatchRow :=
  { row with
    status := "Cancelled"
    claimToken := none
    claimedBy := none
    leaseUntil := none
    completedAt := some now.toInt64
    updatedAt := now.toInt64 }

/-- Cancel a queued dispatch. -/
def cancel (dispatchId : String) (now : UInt64) :
    Method Fault SqliteMailboxStore (Option RunDispatch) := fun q =>
  match q.loadRow driver "cancel load" dispatchId with
  | .error f => (.error f, q)
  | .ok none => (.ok none, q)
  | .ok (some dispatch) =>
    if dispatch.status ≠ .queued then (.ok none, q)
    else
      let q := q.updateById dispatchId (setCancelled now)
      ((q.reloadRow driver "cancel reload" dispatchId).map some, q)

/-- Terminalize a claimed dispatch as superseded. -/
def supersedeClaimed (dispatchId claimToken : String) (now : UInt64) (reason : String) :
    Method Fault SqliteMailboxStore (Option RunDispatch) := fun q =>
  match q.loadRow driver "supersede claimed load" dispatchId with
  | .error f => (.error f, q)
  | .ok none => (.ok none, q)
  | .ok (some dispatch) => supersedeClaimedLoaded driver dispatch claimToken now reason q

/-! ## Interrupt -/

/-- `SET status = 'Superseded', last_error = .., ..`: the epoch stays. -/
def setInterrupted (reason : String) (now : UInt64) (row : DispatchRow) : DispatchRow :=
  { row with
    status := "Superseded"
    lastError := some reason
    claimToken := none
    claimedBy := none
    leaseUntil := none
    completedAt := some now.toInt64
    updatedAt := now.toInt64 }

/-- The records an interrupt reports as superseded. -/
def reportSuperseded (now : UInt64) (dispatch : RunDispatch) : Outcome RunDispatch :=
  let marked := MailboxState.markSuperseded now
    (some MailboxState.reasonQueuedSupersededByInterrupt) dispatch
  marked.1.map fun _ => marked.2

/-- `INSERT .. VALUES (?1, 1) ON CONFLICT DO UPDATE SET current_epoch = current_epoch + 1`. -/
def bumpEpoch (threadId : String) (q : SqliteMailboxStore) : SqliteMailboxStore :=
  { q with
    threadDispatchEpochs := match q.threadDispatchEpochs.get? threadId with
      | none => q.threadDispatchEpochs.insert threadId (.integer 1)
      | some _ => q.threadDispatchEpochs.modify threadId SqlNumber.succ }

/-- Bump the thread epoch, supersede the queued dispatches and report the claimed
    one. -/
def interruptDetailed (threadId : String) (now : UInt64) :
    Method Fault SqliteMailboxStore MailboxInterruptDetails := fun q =>
  let q := q.bumpEpoch threadId
  let selected := (q.threadDispatchEpochs.get? threadId).elim (.error .queryReturnedNoRows)
    (SqlNumber.get "current_epoch")
  match mapErr driver "interrupt dispatch_epoch select" selected with
  | .error f => (.error f, q)
  | .ok newDispatchEpoch =>
    let cond (row : DispatchRow) : Bool :=
      row.threadId == threadId && row.status == "Queued"
        && decide (row.dispatchEpoch < newDispatchEpoch)
    match decodeRows driver "interrupt superseded collect" (q.selectWhere cond) with
    | .error f => (.error f, q)
    | .ok supersededCandidates =>
      let supersededCount := (q.selectWhere cond).length
      let q := q.updateWhere cond
        (setInterrupted MailboxState.reasonQueuedSupersededByInterrupt now)
      (do
        let supersededDispatches ← supersededCandidates.mapM (reportSuperseded now)
        let active := (q.selectWhere fun row =>
          row.threadId == threadId && row.status == "Claimed").head?
        let activeDispatch ← mapErr driver "interrupt active"
          (active.mapM (DispatchRow.rowToDispatch driver))
        return {
          newDispatchEpoch := newDispatchEpoch.toUInt64
          activeDispatch := activeDispatch
          supersededCount := supersededCount
          supersededDispatches := supersededDispatches.take supersededCount }, q)

/-- The summary form of `interruptDetailed`. -/
def interrupt (threadId : String) (now : UInt64) :
    Method Fault SqliteMailboxStore MailboxInterrupt :=
  Method.map MailboxInterruptDetails.intoSummary (interruptDetailed driver threadId now)

/-! ## Reads -/

/-- Fetch with `LIMIT` and `OFFSET` written into the statement. A literal beyond
    the 64-bit range is a `REAL`, which neither clause accepts. -/
def fetchLiteral {α : Type} (limit offset : UInt64) (rows : List α) : Except SqliteError (List α) :=
  if limit.toNat < 0x8000000000000000 ∧ offset.toNat < 0x8000000000000000 then
    .ok (sqlLimit limit.toInt64 (sqlOffset offset.toInt64 rows))
  else .error .datatypeMismatch

/-- List the dispatches of a thread in queue order. -/
def listDispatches (q : SqliteMailboxStore) (threadId : String)
    (statusFilter : Option (List RunDispatchStatus)) (limit offset : UInt64) :
    Outcome (List RunDispatch) :=
  if statusFilter = some [] then .ok []
  else
    let found := q.selectWhere fun row =>
      row.threadId == threadId &&
        statusFilter.all fun statuses => (statuses.map statusToStr).contains row.status
    mapErr driver "list_dispatches row" do
      let rows ← fetchLiteral limit offset (found.insertionSort queueLe)
      rows.mapM (DispatchRow.rowToDispatch driver)

/-- Count the dispatches of a status. -/
def countDispatchesByStatus (q : SqliteMailboxStore) (status : RunDispatchStatus) : Nat :=
  (q.selectWhere fun row => row.status == statusToStr status).length

/-- `ORDER BY updated_at ASC, created_at ASC, dispatch_id ASC`. -/
def terminalLe (a b : DispatchRow) : Prop :=
  a.updatedAt < b.updatedAt ∨ (a.updatedAt = b.updatedAt ∧
    (a.createdAt < b.createdAt ∨ (a.createdAt = b.createdAt ∧ a.dispatchId ≤ b.dispatchId)))

instance : DecidableRel terminalLe := fun a b =>
  inferInstanceAs (Decidable (a.updatedAt < b.updatedAt ∨ (a.updatedAt = b.updatedAt ∧
    (a.createdAt < b.createdAt ∨ (a.createdAt = b.createdAt ∧ a.dispatchId ≤ b.dispatchId)))))

/-- List terminal dispatches across all threads. -/
def listTerminalDispatches (q : SqliteMailboxStore) (limit offset : UInt64) :
    Outcome (List RunDispatch) :=
  let found := q.selectWhere fun row => terminalStatuses.contains row.status
  decodeRows driver "list_terminal_dispatches collect"
    (sqlLimit limit.toInt64 (sqlOffset offset.toInt64 (found.insertionSort terminalLe)))

/-- The threads that hold a queued dispatch, sorted. -/
def queuedThreadIds (q : SqliteMailboxStore) : List String :=
  let ids := (q.selectWhere fun row => row.status == "Queued").map DispatchRow.threadId
  ids.dedup.insertionSort (· ≤ ·)

/-! ## Maintenance -/

/-- `SET status = 'Queued', attempt_count = .., ..` after a lease expiry. -/
def setReclaimRequeue (attemptCount : UInt32) (now : UInt64) (row : DispatchRow) : DispatchRow :=
  { row with
    status := "Queued"
    attemptCount := attemptCount.toUInt64.toInt64
    claimToken := none
    claimedBy := none
    leaseUntil := none
    dispatchInstanceId := none
    runStatus := none
    termination := none
    runResponse := none
    runError := none
    updatedAt := now.toInt64 }

/-- `SET status = 'DeadLetter', attempt_count = .., ..` after a lease expiry. -/
def setReclaimDeadLetter (attemptCount : UInt32) (now : UInt64) (row : DispatchRow) :
    DispatchRow :=
  { row with
    status := "DeadLetter"
    attemptCount := attemptCount.toUInt64.toInt64
    claimToken := none
    claimedBy := none
    leaseUntil := none
    dispatchInstanceId := none
    runStatus := none
    termination := none
    runResponse := none
    runError := none
    completedAt := some now.toInt64
    updatedAt := now.toInt64 }

/-- Take back one expired dispatch. -/
def reclaimOne (now : UInt64) (dispatch : RunDispatch) : Method Fault SqliteMailboxStore Unit :=
  fun q =>
    match dispatch.claimToken with
    | none => (.ok (), q)
    | some claimToken =>
      Method.bind (supersedeStaleClaimedIfNeeded driver dispatch claimToken now
          MailboxState.reasonClaimedLeaseExpiredAfterInterrupt)
        (fun superseded q =>
          if superseded then (.ok (), q)
          else
            match nextAttempt dispatch.attemptCount with
            | .error f => (.error f, q)
            | .ok newAttempt =>
              if dispatch.maxAttempts ≤ newAttempt then
                (.ok (), q.updateById dispatch.dispatchId (setReclaimDeadLetter newAttempt now))
              else
                (.ok (), q.updateById dispatch.dispatchId (setReclaimRequeue newAttempt now))) q

/-- The rows of the claimed dispatches whose lease has run out, in scan order. -/
def expired (q : SqliteMailboxStore) (now : UInt64) : List DispatchRow :=
  q.selectWhere fun row => row.status == "Claimed"
    && row.leaseUntil.any fun leaseUntil => decide (leaseUntil < now.toInt64)

/-- Reclaim dispatches whose lease has run out. -/
def reclaimExpiredLeases (now limit : UInt64) :
    Method Fault SqliteMailboxStore (List RunDispatch) := fun q =>
  match decodeRows driver "reclaim collect" (sqlLimit limit.toInt64 (q.expired now)) with
  | .error f => (.error f, q)
  | .ok expired =>
    if expired.isEmpty then (.ok [], q)
    else Method.bind (Method.forEach (reclaimOne driver now) expired)
      (fun _ q =>
        ((expired.mapM fun dispatch => q.reloadRow driver "reclaim reload" dispatch.dispatchId).map
          (·.filter fun dispatch => dispatch.status != .superseded), q)) q

/-- Purge terminal dispatches older than the cutoff. -/
def purgeTerminal (olderThan : UInt64) : Method Fault SqliteMailboxStore Nat := fun q =>
  let cond (row : DispatchRow) : Bool :=
    terminalStatuses.contains row.status && decide (row.updatedAt < olderThan.toInt64)
  (.ok (q.selectWhere cond).length,
    { q with runDispatches := q.runDispatches.retain fun _ row => !cond row })

/-! ## The store as a machine -/

/-- Run one call. -/
def call : MailboxOp → Method Fault SqliteMailboxStore MailboxReply
  | .enqueue dispatch => Method.map (fun _ => .unit) (enqueue driver dispatch)
  | .claim threadId consumerId leaseMs now limit token =>
    Method.map .dispatches (claim driver threadId consumerId leaseMs now limit token)
  | .claimDispatch dispatchId consumerId leaseMs now token =>
    Method.map .dispatch (claimDispatch driver dispatchId consumerId leaseMs now token)
  | .ack dispatchId claimToken now =>
    Method.map (fun _ => .unit) (ack driver dispatchId claimToken now)
  | .recordDispatchStart dispatchId claimToken dispatchInstanceId now =>
    Method.map (fun _ => .unit)
      (recordDispatchStart driver dispatchId claimToken dispatchInstanceId now)
  | .recordRunResult dispatchId claimToken result now =>
    Method.map (fun _ => .unit) (recordRunResult driver dispatchId claimToken result now)
  | .nack dispatchId claimToken retryAt error now =>
    Method.map (fun _ => .unit) (nack driver dispatchId claimToken retryAt error now)
  | .deadLetter dispatchId claimToken error now =>
    Method.map (fun _ => .unit) (deadLetter driver dispatchId claimToken error now)
  | .cancel dispatchId now => Method.map .dispatch (cancel driver dispatchId now)
  | .extendLease dispatchId claimToken extensionMs now =>
    Method.map .flag (extendLease driver dispatchId claimToken extensionMs now)
  | .interrupt threadId now => Method.map .interrupt (interrupt driver threadId now)
  | .interruptDetailed threadId now =>
    Method.map .interruptDetails (interruptDetailed driver threadId now)
  | .currentDispatchEpoch threadId => fun q =>
    ((q.currentEpochForConn driver threadId).map .epoch, q)
  | .supersedeClaimed dispatchId claimToken now reason =>
    Method.map .dispatch (supersedeClaimed driver dispatchId claimToken now reason)
  | .loadDispatch dispatchId => fun q =>
    ((q.loadRow driver "load_dispatch" dispatchId).map .dispatch, q)
  | .listDispatches threadId statusFilter limit offset => fun q =>
    ((q.listDispatches driver threadId statusFilter limit offset).map .dispatches, q)
  | .countDispatchesByStatus status => fun q => (.ok (.count (q.countDispatchesByStatus status)), q)
  | .listTerminalDispatches limit offset => fun q =>
    ((q.listTerminalDispatches driver limit offset).map .dispatches, q)
  | .reclaimExpiredLeases now limit =>
    Method.map .dispatches (reclaimExpiredLeases driver now limit)
  | .purgeTerminal olderThan => Method.map .count (purgeTerminal olderThan)
  | .queuedThreadIds => fun q => (.ok (.threadIds q.queuedThreadIds), q)

/-- Put a scan order of the dispatch table in force. -/
def reorder (q : SqliteMailboxStore) (order : String → Nat) : SqliteMailboxStore :=
  { q with runDispatches := q.runDispatches.reorder order }

/-- The store answering one call after the other, each under an arbitrary scan
    order of its dispatch table. -/
def machine : Machine SqliteMailboxStore MailboxEvent (Outcome MailboxReply) where
  step q e := call driver e.op (q.reorder e.order)

end Calls

end SqliteMailboxStore

end Remo
