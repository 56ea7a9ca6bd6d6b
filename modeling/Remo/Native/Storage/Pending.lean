import Remo.ForStd.Machine
import Remo.Native.Storage.Memory

/-!
# The pending message store

The pending message calls of the in-memory store. A call holds the locks of the
maps it writes from its first check to its last write, so a run of the store is
a sequence of whole calls. The three freezes move the selected records of a
queue to the committed log in the same way; they differ in what they check and
in what else they write.
-/

namespace Remo

namespace InMemoryStore

/-! ## Queue operations -/

/-- Number the records of a queue from 1 on. -/
def normalizePendingPositions (pending : List PendingMessageRecord) : List PendingMessageRecord :=
  pending.mapIdx fun index record => { record with position := index + 1 }

/-- The ids of the records at the selected indexes. -/
def selectedPendingIds (pending : List PendingMessageRecord) (selectedIndexes : List Nat) :
    List String :=
  selectedIndexes.filterMap fun index => (pending[index]?).map PendingMessageRecord.pendingId

/-- The messages of the records at the selected indexes. -/
def selectedMessages (pending : List PendingMessageRecord) (selectedIndexes : List Nat) :
    List Message :=
  selectedIndexes.filterMap fun index => (pending[index]?).map PendingMessageRecord.message

/-- Remove the records at the given indexes one after the other, collecting them. -/
def removeRecords : List Nat → List PendingMessageRecord × List PendingMessageRecord →
    List PendingMessageRecord × List PendingMessageRecord
  | [], (selected, pending) => (selected, pending)
  | index :: indexes, (selected, pending) =>
    removeRecords indexes (selected ++ (pending[index]?).toList, pending.eraseIdx index)

/-- Take the selected records out of a queue, highest index first. The first
    component lists them in queue order, the second is what stays. -/
def drainSelected (pending : List PendingMessageRecord) (selectedIndexes : List Nat) :
    List PendingMessageRecord × List PendingMessageRecord :=
  let drained := removeRecords selectedIndexes.reverse ([], pending)
  (drained.1.reverse, drained.2)

/-- The first record of the queue with the id, and its index. -/
def locate (pending : List PendingMessageRecord) (pendingId : String) :
    Option (PendingMessageRecord × Nat) :=
  pending.zipIdx.find? fun p => p.1.pendingId == pendingId

/-! ## Checks -/

/-- An optimistic guard: the expected value, where one is given, is the actual one. -/
def checkExpected (expected : Option UInt64) (actual : UInt64) : Except StorageError Unit :=
  match expected with
  | none => .ok ()
  | some expected =>
    if expected ≠ actual then .error (.versionConflict expected actual) else .ok ()

/-- An optimistic guard on the number of committed messages, which always fits
    64 bits. -/
def checkMessageVersion (expected : Option UInt64) (actual : Nat) : Except StorageError Unit :=
  match expected with
  | none => .ok ()
  | some expected =>
    if expected.toNat ≠ actual then .error (.versionConflict expected (UInt64.ofNat actual))
    else .ok ()

def pendingNotFound (threadId pendingId : String) : StorageError :=
  .notFound s!"pending message '{pendingId}' in thread '{threadId}'"

def alreadyConsumed (pendingId : String) : StorageError :=
  .validation s!"pending message '{pendingId}' is already consumed"

def duplicatePendingId (pendingId : String) : StorageError :=
  .validation s!"pending message '{pendingId}' already exists"

/-- Why a record that is not pending cannot be edited. -/
def missingPending (s : InMemoryStore) (threadId pendingId : String) : StorageError :=
  if s.committedMessageExists threadId pendingId then alreadyConsumed pendingId
  else pendingNotFound threadId pendingId

/-! ## Append -/

/-- The records of new messages behind a queue of the given length. -/
def newRecords (threadId : String) (queued : Nat) (messages : List Message)
    (deliveryMode : DeliveryMode) (now : UInt64) (generated : Nat → Uuid) :
    List PendingMessageRecord :=
  messages.mapIdx fun index message =>
    { PendingMessageRecord.fromMessage threadId (queued + 1 + index) message deliveryMode
        (generated index) with
      createdAt := some now
      updatedAt := some now }

/-- Every new record is valid, and its id is neither queued, nor named twice, nor
    committed. -/
def checkNewRecords (committed : List Message) :
    List String → List PendingMessageRecord → Except StorageError Unit
  | _, [] => .ok ()
  | seen, record :: records => do
    validatePendingMessageRecord record
    if record.pendingId ∈ seen then throw (duplicatePendingId record.pendingId)
    if committed.any fun message => message.id == some record.pendingId then
      throw (alreadyConsumed record.pendingId)
    checkNewRecords committed (record.pendingId :: seen) records

/-- Queue new messages, or none of them. -/
def appendPendingMessageRecords (threadId : String) (messages : List Message)
    (deliveryMode : DeliveryMode) (now : UInt64) (generated : Nat → Uuid) :
    Method Fault InMemoryStore (List PendingMessageRecord) := fun s =>
  let s := s.pendingEntry threadId
  let queue := s.pending threadId
  let records := newRecords threadId queue.length messages deliveryMode (now / 1000) generated
  match checkNewRecords (s.committed threadId) (queue.map PendingMessageRecord.pendingId)
      records with
  | .error e => (Outcome.fail e, s)
  | .ok () => (.ok records, s.setPending threadId (queue ++ records))

/-! ## Update, retract, reorder -/

/-- A new payload takes the pending id, and may not name another. -/
def adoptPendingId (pendingId : String) (message : Message) : Except StorageError Message :=
  match message.id with
  | some messageId =>
    if messageId ≠ pendingId then
      .error (.validation
        s!"pending message '{pendingId}' cannot change message id to '{messageId}'")
    else .ok message
  | none => .ok { message with id := some pendingId }

/-- Write a new payload into a record. The payload is written before the revision
    is counted up. -/
def rewriteRecord (message : Message) (now : UInt64) :
    Method Fault PendingMessageRecord PendingMessageRecord := fun record =>
  let record := { record with message := message }
  match Outcome.addU64 record.revision 1 with
  | .error f => (.error f, record)
  | .ok revision =>
    let record := { record with revision := revision, updatedAt := some (now / 1000) }
    (.ok record, record)

/-- Replace the payload of a pending record. -/
def updatePendingMessageRecordChecked (threadId pendingId : String)
    (expectedRevision : Option UInt64) (message : Message) (now : UInt64) :
    Method Fault InMemoryStore PendingMessageRecord := fun s =>
  let queue := s.pending threadId
  match locate queue pendingId with
  | none => (Outcome.fail (s.missingPending threadId pendingId), s)
  | some (record, index) =>
    let checked : Except StorageError Message := do
      checkExpected expectedRevision record.revision
      let message ← adoptPendingId pendingId message
      validatePendingMessageRecord { record with message := message }
      pure message
    match checked with
    | .error e => (Outcome.fail e, s)
    | .ok message =>
      let rewritten := rewriteRecord message now record
      (rewritten.1, s.setPending threadId (queue.set index rewritten.2))

/-- Take a record out of the queue. -/
def retractPendingMessageRecordChecked (threadId pendingId : String)
    (expectedRevision : Option UInt64) : Method Fault InMemoryStore PendingMessageRecord := fun s =>
  let queue := s.pending threadId
  match locate queue pendingId with
  | none => (Outcome.fail (s.missingPending threadId pendingId), s)
  | some (record, index) =>
    match checkExpected expectedRevision record.revision with
    | .error e => (Outcome.fail e, s)
    | .ok () =>
      (.ok record, s.setPending threadId (normalizePendingPositions (queue.eraseIdx index)))

/-- The records of a queue by id. -/
def recordsById (queue : List PendingMessageRecord) : AssocMap String PendingMessageRecord :=
  queue.foldl (fun byId record => byId.insert record.pendingId record) AssocMap.empty

/-- Take the records with the given ids out of a map, in the order of the ids. -/
def takeRecords : List String → AssocMap String PendingMessageRecord →
    Except StorageError (List PendingMessageRecord × AssocMap String PendingMessageRecord)
  | [], byId => .ok ([], byId)
  | pendingId :: pendingIds, byId =>
    match byId.get? pendingId with
    | none => .error (.notFound pendingId)
    | some record => do
      let taken ← takeRecords pendingIds (byId.retain fun id _ => id ≠ pendingId)
      pure (record :: taken.1, taken.2)

/-- Count up the revision of a record that moved. -/
def bumpRevision (now : UInt64) (record : PendingMessageRecord) : Outcome PendingMessageRecord :=
  (Outcome.addU64 record.revision 1).map fun revision =>
    { record with revision := revision, updatedAt := some (now / 1000) }

/-- The queue has not changed, and the ids are as many as its records and all of them pending. -/
def checkReorder (s : InMemoryStore) (threadId : String) (queue : List PendingMessageRecord)
    (expectedQueueRevision : Option UInt64) (orderedPendingIds : List String) :
    Except StorageError Unit := do
  checkExpected expectedQueueRevision (pendingQueueRevision queue)
  match orderedPendingIds.find? fun id => id ∉ queue.map PendingMessageRecord.pendingId with
  | some id =>
    if s.committedMessageExists threadId id then throw (alreadyConsumed id)
    else throw (.notFound id)
  | none => pure ()
  if queue.length ≠ orderedPendingIds.length then
    throw (.versionConflict (UInt64.ofNat orderedPendingIds.length) (UInt64.ofNat queue.length))

/-- The records of a queue in the order of the ids, which have to name each of them once. -/
def permuteRecords (threadId : String) (queue : List PendingMessageRecord)
    (orderedPendingIds : List String) : Except StorageError (List PendingMessageRecord) :=
  match takeRecords orderedPendingIds (recordsById queue) with
  | .error e => .error e
  | .ok (reordered, left) =>
    if left.entries.isEmpty then .ok reordered
    else .error (.validation s!"reorder for thread '{threadId}' omitted pending ids")

/-- The reordered queue, numbered anew and with every revision counted up. -/
def reorderedRecords (s : InMemoryStore) (threadId : String) (queue : List PendingMessageRecord)
    (expectedQueueRevision : Option UInt64) (orderedPendingIds : List String) (now : UInt64) :
    Outcome (List PendingMessageRecord) := do
  Outcome.ofResult (s.checkReorder threadId queue expectedQueueRevision orderedPendingIds)
  let reordered ← Outcome.ofResult (permuteRecords threadId queue orderedPendingIds)
  (normalizePendingPositions reordered).mapM (bumpRevision now)

/-- Put the queue into the order of the given ids. -/
def reorderPendingMessageRecordsChecked (threadId : String)
    (expectedQueueRevision : Option UInt64) (orderedPendingIds : List String) (now : UInt64) :
    Method Fault InMemoryStore (List PendingMessageRecord) := fun s =>
  match s.pendingMessages.get? threadId with
  | none =>
    match orderedPendingIds.find? (s.committedMessageExists threadId) with
    | some id => (Outcome.fail (alreadyConsumed id), s)
    | none => (Outcome.fail (.notFound threadId), s)
  | some queue =>
    match s.reorderedRecords threadId queue expectedQueueRevision orderedPendingIds now with
    | .error f => (.error f, s)
    | .ok reordered => (.ok reordered, s.setPending threadId reordered)

/-! ## Freeze -/

/-- Move the selected records from the queue to the end of the committed log. -/
def moveSelected (threadId : String) (selectedIndexes : List Nat) (generated : Nat → Uuid) :
    Method Fault InMemoryStore (List MessageRecord) := fun s =>
  let queue := s.pending threadId
  let committed := s.committed threadId
  match validateAppendOnlyDelta committed (selectedMessages queue selectedIndexes) with
  | .error e => (Outcome.fail e, s)
  | .ok () =>
    let drained := drainSelected queue selectedIndexes
    let messages := drained.1.map PendingMessageRecord.message
    (.ok (messages.mapIdx fun index message =>
        MessageRecord.fromMessage threadId (committed.length + 1 + index) message
          (generated index)),
      (s.setPending threadId (normalizePendingPositions drained.2)).setCommitted threadId
        (committed ++ messages))

/-- Freeze the messages a boundary consumes. -/
def freezePendingMessageRecords (threadId : String) (boundary : DeliveryBoundary)
    (expectedMessageVersion : Option UInt64) (generated : Nat → Uuid) :
    Method Fault InMemoryStore (List MessageRecord) := fun s =>
  let s := s.messagesEntry threadId
  match checkMessageVersion expectedMessageVersion (s.committed threadId).length with
  | .error e => (Outcome.fail e, s)
  | .ok () =>
    let selectedIndexes := selectPendingForFreeze (s.pending threadId) boundary
    if selectedIndexes.isEmpty then (.ok [], s)
    else moveSelected threadId selectedIndexes generated s

/-- What a freeze with a run checks before it looks at the queue. -/
def checkFreezeWithRun (s : InMemoryStore) (threadId : String)
    (expectedMessageVersion : Option UInt64) (run : RunRecord) : Except StorageError Unit := do
  run.validateForPersist
  validateThreadHierarchyMap s.threads threadId
    (checkpointParentThreadId (s.threads.get? threadId) run)
  checkMessageVersion expectedMessageVersion (s.committed threadId).length

/-- Freeze the messages a boundary consumes for a run, provided they are the
    expected ones, and store the run. -/
def freezeSelectionWithRun (threadId : String) (boundary : DeliveryBoundary)
    (expectedPendingIds : List String) (run : RunRecord) (now : UInt64)
    (generated : Nat → Uuid) : Method Fault InMemoryStore (List MessageRecord) := fun s =>
  let queue := s.pending threadId
  let selectedIndexes := selectPendingForFreezeForRun queue boundary (some run.runId)
  let selectedIds := selectedPendingIds queue selectedIndexes
  if selectedIds ≠ expectedPendingIds then
    (Outcome.fail (.pendingSelectionConflict expectedPendingIds selectedIds), s)
  else
    Method.bind (moveSelected threadId selectedIndexes generated)
      (fun appended s => (.ok appended, s.recordRun threadId run now)) (s.messagesEntry threadId)

def freezePendingMessageRecordsWithRun (threadId : String) (boundary : DeliveryBoundary)
    (expectedMessageVersion : Option UInt64) (expectedPendingIds : List String)
    (run : RunRecord) (now : UInt64) (generated : Nat → Uuid) :
    Method Fault InMemoryStore (List MessageRecord) := fun s =>
  match s.checkFreezeWithRun threadId expectedMessageVersion run with
  | .error e => (Outcome.fail e, s)
  | .ok () =>
    freezeSelectionWithRun threadId boundary expectedPendingIds run now generated
      (s.pendingEntry threadId)

/-- Queue new messages, then freeze. The new messages stay queued when the freeze
    behind them fails. -/
def appendAndFreezePendingMessageRecordsWithRun (threadId : String) (newMessages : List Message)
    (appendDeliveryMode : DeliveryMode) (boundary : DeliveryBoundary)
    (expectedMessageVersion : Option UInt64) (expectedPendingIds : List String)
    (run : RunRecord) (now : UInt64) (generated : Nat → Uuid) :
    Method Fault InMemoryStore (List MessageRecord) := fun s =>
  match s.checkFreezeWithRun threadId expectedMessageVersion run with
  | .error e => (Outcome.fail e, s)
  | .ok () =>
    Method.bind
      (appendPendingMessageRecords threadId newMessages appendDeliveryMode now generated)
      (fun _ => freezeSelectionWithRun threadId boundary expectedPendingIds run now generated) s

/-! ## Reads -/

/-- The pending queue of a thread, unless one of its records is not valid. -/
def loadPendingMessageRecords (s : InMemoryStore) (threadId : String) :
    Except StorageError (List PendingMessageRecord) := do
  validatePendingMessageRecords (s.pending threadId)
  pure (s.pending threadId)

/-- The threads with pending messages in ascending order, after a cursor. -/
def listThreadsWithPendingMessages (s : InMemoryStore) (limit : UInt64) (after : Option String) :
    List String :=
  let found := (s.pendingMessages.retain fun _ records => !records.isEmpty).keys.filter
    fun threadId => after.all fun cursor => decide (cursor < threadId)
  let ids := found.insertionSort fun a b => a ≤ b
  if 0 < limit then ids.take limit.toNat else ids

end InMemoryStore

/-! ## Machine -/

/-- The calls of the pending message store. A call carries the clock it reads, in
    milliseconds, and the message ids generated in it. -/
inductive PendingOp where
  | load (threadId : String)
  | listThreads (limit : UInt64) (after : Option String)
  | append (threadId : String) (messages : List Message) (deliveryMode : DeliveryMode)
      (now : UInt64) (generated : Nat → Uuid)
  | update (threadId pendingId : String) (expectedRevision : Option UInt64) (message : Message)
      (now : UInt64)
  | retract (threadId pendingId : String) (expectedRevision : Option UInt64)
  | reorder (threadId : String) (expectedQueueRevision : Option UInt64)
      (orderedPendingIds : List String) (now : UInt64)
  | freeze (threadId : String) (boundary : DeliveryBoundary)
      (expectedMessageVersion : Option UInt64) (generated : Nat → Uuid)
  | freezeWithRun (threadId : String) (boundary : DeliveryBoundary)
      (expectedMessageVersion : Option UInt64) (expectedPendingIds : List String)
      (run : RunRecord) (now : UInt64) (generated : Nat → Uuid)
  | appendAndFreezeWithRun (threadId : String) (newMessages : List Message)
      (appendDeliveryMode : DeliveryMode) (boundary : DeliveryBoundary)
      (expectedMessageVersion : Option UInt64) (expectedPendingIds : List String)
      (run : RunRecord) (now : UInt64) (generated : Nat → Uuid)

/-- What the calls return. -/
inductive PendingReply where
  | threadIds (ids : List String)
  | pendings (records : List PendingMessageRecord)
  | pending (record : PendingMessageRecord)
  | messages (records : List MessageRecord)
deriving Repr, DecidableEq

namespace InMemoryStore

/-- One pending message call. -/
def callPending : PendingOp → Method Fault InMemoryStore PendingReply
  | .load threadId => fun s =>
    (Outcome.ofResult ((s.loadPendingMessageRecords threadId).map .pendings), s)
  | .listThreads limit after => fun s =>
    (.ok (.threadIds (s.listThreadsWithPendingMessages limit after)), s)
  | .append threadId messages deliveryMode now generated =>
    Method.map .pendings (appendPendingMessageRecords threadId messages deliveryMode now generated)
  | .update threadId pendingId expectedRevision message now =>
    Method.map .pending
      (updatePendingMessageRecordChecked threadId pendingId expectedRevision message now)
  | .retract threadId pendingId expectedRevision =>
    Method.map .pending (retractPendingMessageRecordChecked threadId pendingId expectedRevision)
  | .reorder threadId expectedQueueRevision orderedPendingIds now =>
    Method.map .pendings (reorderPendingMessageRecordsChecked threadId expectedQueueRevision
      orderedPendingIds now)
  | .freeze threadId boundary expectedMessageVersion generated =>
    Method.map .messages
      (freezePendingMessageRecords threadId boundary expectedMessageVersion generated)
  | .freezeWithRun threadId boundary expectedMessageVersion expectedPendingIds run now generated =>
    Method.map .messages (freezePendingMessageRecordsWithRun threadId boundary
      expectedMessageVersion expectedPendingIds run now generated)
  | .appendAndFreezeWithRun threadId newMessages appendDeliveryMode boundary
      expectedMessageVersion expectedPendingIds run now generated =>
    Method.map .messages (appendAndFreezePendingMessageRecordsWithRun threadId newMessages
      appendDeliveryMode boundary expectedMessageVersion expectedPendingIds run now generated)

/-- The in-memory store as a machine over its pending message calls. -/
def pendingMachine : Machine InMemoryStore PendingOp (Outcome PendingReply) where
  step s op := callPending op s

end InMemoryStore

end Remo
