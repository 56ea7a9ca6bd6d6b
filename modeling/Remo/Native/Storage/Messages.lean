import Remo.Native.Message.Effective
import Remo.Native.Storage.Pending

/-!
# Committed messages of the in-memory store

Writers append to the committed log of a thread or overwrite it. Readers return
the log with the filter for unpaired tool calls applied; records are numbered
when they are read.
-/

namespace Remo

/-! ## Queries -/

/-- Message visibility filter for storage queries. -/
inductive MessageVisibilityFilter where
  | any
  | external
  | internal
deriving Repr, DecidableEq

/-- Message sequence ordering. -/
inductive MessageOrder where
  | asc
  | desc
deriving Repr, DecidableEq

/-- Pagination/filter query for listing messages. -/
structure MessageQuery where
  offset : UInt64
  limit : UInt64
  after : Option UInt64
  before : Option UInt64
  order : MessageOrder
  visibility : MessageVisibilityFilter
  runId : Option String
deriving Repr, DecidableEq

/-- What a message cursor stands for. -/
structure MessageCursorToken where
  offset : Nat
  after : Option UInt64
  before : Option UInt64
  order : MessageOrder
  visibility : MessageVisibilityFilter
  runId : Option String
deriving Repr, DecidableEq

namespace MessageQuery

/-- The query with contract-level pagination limits applied. -/
def normalized (self : MessageQuery) : MessageQuery := { self with limit := min self.limit 200 }

/-- The cursor for continuing this exact query. -/
def encodeCursor (self : MessageQuery) (offset : Nat) : MessageCursorToken :=
  let normalized := self.normalized
  ⟨offset, normalized.after, normalized.before, normalized.order, normalized.visibility,
    normalized.runId⟩

/-- A record passes the query filters. -/
def matchesRecord (self : MessageQuery) (record : MessageRecord) : Bool :=
  if self.after.any fun after => decide (record.seq ≤ after.toNat) then false
  else if self.before.any fun before => decide (before.toNat ≤ record.seq) then false
  else if self.runId.any fun runId => decide (record.producedByRunId ≠ some runId) then false
  else
    match self.visibility with
    | .any => true
    | .external => record.message.visibility != .internal
    | .internal => record.message.visibility == .internal

end MessageQuery

/-- Paginated message record response. The cursors are given by what they encode. -/
structure MessagePage where
  records : List MessageRecord
  total : Nat
  hasMore : Bool
  nextCursor : Option MessageCursorToken
  prevCursor : Option MessageCursorToken
deriving Repr, DecidableEq

/-- Empty page for a missing thread or message log. -/
def MessagePage.empty : MessagePage := ⟨[], 0, false, none, none⟩

/-- Apply message filters and offset pagination to a record set. -/
def paginateMessageRecords (records : List MessageRecord) (query : MessageQuery) : MessagePage :=
  let query := query.normalized
  let records := records.filter query.matchesRecord
  let records :=
    match query.order with
    | .asc => records.insertionSort fun (a b : MessageRecord) => a.seq ≤ b.seq
    | .desc => records.insertionSort fun (a b : MessageRecord) => b.seq ≤ a.seq
  let total := records.length
  let start := min query.offset.toNat total
  let pageRecords := (records.drop start).take query.limit.toNat
  let nextOffset := start + pageRecords.length
  let hasMore := decide (0 < query.limit) && decide (nextOffset < total)
  { records := pageRecords
    total := total
    hasMore := hasMore
    nextCursor := if hasMore then some (query.encodeCursor nextOffset) else none
    prevCursor :=
      if 0 < query.limit ∧ 0 < start then
        some (query.encodeCursor (start - query.limit.toNat))
      else none }

/-! ## Validation of stored messages -/

def validateCommittedMessages (messages : List Message) : Except StorageError Unit :=
  validateAppendOnlyDelta [] messages

/-- The record belongs to the thread, has the next sequence number and names its message. -/
def validateCommittedMessageRecord (threadId : String) (expectedSeq : Nat)
    (record : MessageRecord) : Except StorageError Unit := do
  if record.threadId ≠ threadId then
    throw (.validation (s!"committed message '{record.messageId}' belongs to thread "
      ++ s!"'{record.threadId}', expected '{threadId}'"))
  if record.seq ≠ expectedSeq then
    throw (.serialization (s!"committed message seq must be continuous: expected {expectedSeq}, "
      ++ s!"got {record.seq}"))
  match record.message.id with
  | some messageId =>
    if messageId ≠ record.messageId then
      throw (.validation (s!"committed message record '{record.messageId}' cannot carry message "
        ++ s!"id '{messageId}'"))
  | none =>
    throw (.validation s!"committed message record '{record.messageId}' must carry message id")

def validateCommittedMessageRecords (threadId : String) (records : List MessageRecord) :
    Except StorageError Unit := do
  records.zipIdx.forM fun p => validateCommittedMessageRecord threadId (p.2 + 1) p.1
  validateCommittedMessages (records.map MessageRecord.message)

/-- Append a checkpoint delta to the committed messages. -/
def mergeCheckpointAppendMessages (existing delta : List Message) :
    Except StorageError (List Message) := do
  validateAppendOnlyDelta existing delta
  pure (existing ++ delta)

namespace InMemoryStore

/-! ## Readers -/

/-- The committed messages of a thread behind the filter for unpaired tool calls. -/
def loadMessages (s : InMemoryStore) (threadId : String) :
    Except StorageError (Option (List Message)) :=
  match s.messages.get? threadId with
  | none => .ok none
  | some messages => do
    validateCommittedMessages messages
    pure (some (stripUnpairedToolCallsFromView messages))

/-- The committed messages of a thread as they were written. -/
def loadCommittedMessages (s : InMemoryStore) (threadId : String) :
    Except StorageError (Option (List Message)) :=
  match s.messages.get? threadId with
  | none => .ok none
  | some messages => do
    validateCommittedMessages messages
    pure (some messages)

/-- List message records with filtering and page metadata. The records are numbered
    behind the filter, and the numbered records are checked again. -/
def listMessageRecords (s : InMemoryStore) (threadId : String) (query : MessageQuery)
    (generated : Nat → Uuid) : Except StorageError MessagePage :=
  match s.messages.get? threadId with
  | none => .ok MessagePage.empty
  | some messages => do
    validateCommittedMessages messages
    let records := committedRecords threadId (stripUnpairedToolCallsFromView messages) generated
    validateCommittedMessageRecords threadId records
    pure (paginateMessageRecords records query)

/-- The records of a thread, numbered behind the filter. -/
def loadMessageRecords (s : InMemoryStore) (threadId : String) (generated : Nat → Uuid) :
    Except StorageError (Option (List MessageRecord)) := do
  let messages ← s.loadMessages threadId
  pure (messages.map fun messages => committedRecords threadId messages generated)

/-- Load message records by inclusive sequence range. -/
def loadMessageRecordsRange (s : InMemoryStore) (threadId : String) (range : MessageSeqRange)
    (generated : Nat → Uuid) : Except StorageError (List MessageRecord) := do
  let records ← s.loadMessageRecords threadId generated
  pure ((records.getD []).filter fun record =>
    decide (range.fromSeq.toNat ≤ record.seq) && decide (record.seq ≤ range.toSeq.toNat))

/-! ## Writers -/

/-- Persist messages for a thread (full overwrite). -/
def saveMessages (threadId : String) (messages : List Message) :
    Method Fault InMemoryStore Unit := fun s =>
  match validateCommittedMessages messages with
  | .error e => (Outcome.fail e, s)
  | .ok () => (.ok (), s.setCommitted threadId messages)

/-- Append messages to the committed log and return their records. -/
def appendMessageRecords (threadId : String) (messages : List Message) (generated : Nat → Uuid) :
    Method Fault InMemoryStore (List MessageRecord) := fun s =>
  let s := s.messagesEntry threadId
  let existing := s.committed threadId
  match validateAppendOnlyDelta existing messages with
  | .error e => (Outcome.fail e, s)
  | .ok () =>
    let startSeq := existing.length + 1
    (.ok (messages.mapIdx fun index message =>
        MessageRecord.fromMessage threadId (startSeq + index) message (generated index)),
      s.setCommitted threadId (existing ++ messages))

/-- What both checkpoints check about the run. -/
def checkRun (s : InMemoryStore) (threadId : String) (run : RunRecord) :
    Except StorageError Unit :=
  validateThreadHierarchyMap s.threads threadId
    (checkpointParentThreadId (s.threads.get? threadId) run)

/-- Overwrite the committed messages and store the run. -/
def checkpoint (threadId : String) (messages : List Message) (run : RunRecord) (now : UInt64) :
    Method Fault InMemoryStore Unit := fun s =>
  let checked : Except StorageError Unit := do
    run.validateForPersist
    validateCommittedMessages messages
    s.checkRun threadId run
  match checked with
  | .error e => (Outcome.fail e, s)
  | .ok () => (.ok (), (s.setCommitted threadId messages).recordRun threadId run now)

/-- Append to the committed messages, guarded by their number, and store the run.
    Returns the new number of committed messages. -/
def checkpointAppend (threadId : String) (messages : List Message)
    (expectedVersion : Option UInt64) (run : RunRecord) (now : UInt64) :
    Method Fault InMemoryStore Nat := fun s =>
  let checked : Except StorageError Unit := do
    run.validateForPersist
    s.checkRun threadId run
    checkMessageVersion expectedVersion (s.committed threadId).length
  match checked with
  | .error e => (Outcome.fail e, s)
  | .ok () =>
    let s := s.messagesEntry threadId
    match mergeCheckpointAppendMessages (s.committed threadId) messages with
    | .error e => (Outcome.fail e, s)
    | .ok committed =>
      (.ok committed.length, (s.setCommitted threadId committed).recordRun threadId run now)

end InMemoryStore

end Remo
