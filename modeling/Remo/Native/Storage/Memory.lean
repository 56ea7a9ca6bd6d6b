import Remo.ForStd.AssocMap
import Remo.Native.Message.Append
import Remo.Native.Storage.RunRecord

/-!
# Threads and their store

Thread records, and the maps that keep threads, runs, committed and pending messages.
-/

/-! ## Threads

A thread record points at its runs and at its parent thread. A parent has to
exist, and walking up from it must not come back to a thread already seen.
-/

namespace Remo

/-- Normalize a lineage identifier by trimming it and treating blanks as absent. -/
def normalizeLineageId (value : Option String) : Option String :=
  (value.map Str.trim).filter fun trimmed => !trimmed.isEmpty

/-- Thread timestamps. -/
structure ThreadMetadata where
  createdAt : Option UInt64
  updatedAt : Option UInt64
deriving Repr, DecidableEq

/-- A persistent conversation thread (metadata only). -/
structure Thread where
  id : String
  resourceId : Option String
  parentThreadId : Option String
  metadata : ThreadMetadata
  activeRunId : Option String
  openRunId : Option String
  latestRunId : Option String
  latestRunUpdatedAt : Option UInt64
deriving Repr, DecidableEq

namespace Thread

/-- A new thread with a specific identifier. -/
def withId (id : String) : Thread where
  id := id
  resourceId := none
  parentThreadId := none
  metadata := ⟨none, none⟩
  activeRunId := none
  openRunId := none
  latestRunId := none
  latestRunUpdatedAt := none

/-- Normalize both lineage identifiers. -/
def normalizeLineage (self : Thread) : Thread :=
  { self with
    resourceId := normalizeLineageId self.resourceId
    parentThreadId := normalizeLineageId self.parentThreadId }

/-- Initialize the creation time and mark the thread as updated. -/
def touch (self : Thread) (now : UInt64) : Thread :=
  { self with metadata := ⟨self.metadata.createdAt.or (some now), some now⟩ }

/-- Drop the pointers to a run that is done. -/
def clearRunProjectionIfMatches (self : Thread) (runId : String) : Thread :=
  { self with
    activeRunId := if self.activeRunId = some runId then none else self.activeRunId
    openRunId := if self.openRunId = some runId then none else self.openRunId }

/-- Update the thread's run pointers from a durable run record. -/
def applyRunProjection (self : Thread) (run : RunRecord) : Thread :=
  if self.latestRunUpdatedAt.all fun latest => decide (latest ≤ run.updatedAt) then
    let self := { self with
      latestRunId := some run.runId
      latestRunUpdatedAt := some run.updatedAt
      parentThreadId := self.parentThreadId.or
        (normalizeLineageId (run.request.bind RunRequestSnapshot.parentThreadId)) }
    match run.status with
    | .created => { self with activeRunId := none, openRunId := some run.runId }
    | .running => { self with activeRunId := some run.runId, openRunId := some run.runId }
    | .waiting => { self with activeRunId := none, openRunId := some run.runId }
    | .done => self.clearRunProjectionIfMatches run.runId
  else if run.status = .done then self.clearRunProjectionIfMatches run.runId
  else self

end Thread

/-- Parent thread that should be materialized by a checkpoint projection. -/
def checkpointParentThreadId (existingThread : Option Thread) (run : RunRecord) : Option String :=
  (existingThread.bind Thread.parentThreadId).or
    (run.request.bind RunRequestSnapshot.parentThreadId)

/-! ## Hierarchy -/

/-- The stored threads a walk has not been to. -/
def unvisited (threads : AssocMap String Thread) (visited : List String) : List String :=
  threads.keys.filter (· ∉ visited)

/-- Visiting a stored thread leaves fewer threads unvisited. -/
theorem length_unvisited_lt {threads : AssocMap String Thread} {visited : List String}
    {current : String} {thread : Thread} (hnew : current ∉ visited)
    (hthread : threads.get? current = some thread) :
    (unvisited threads (current :: visited)).length < (unvisited threads visited).length := by
  have hmem : current ∈ unvisited threads visited := by
    simpa [unvisited, hnew] using AssocMap.mem_keys.mpr ⟨thread, hthread⟩
  have hsub : unvisited threads (current :: visited) =
      (unvisited threads visited).filter (· ≠ current) := by
    rw [unvisited, unvisited, List.filter_filter]
    refine List.filter_congr fun k _ => ?_
    simp [not_or]
  rw [hsub]
  exact List.length_filter_lt_length_iff_exists.mpr ⟨current, hmem, by simp⟩

/-- The ancestor walk from a thread. Every pass marks another stored thread as
    visited, so the walk ends. -/
def walkAncestors (threads : AssocMap String Thread) (rootParentThreadId : String)
    (visited : List String) (currentThreadId : String) : Except StorageError Unit :=
  if hvisited : currentThreadId ∈ visited then
    .error (.validation s!"thread hierarchy cycle detected at '{currentThreadId}'")
  else
    match hthread : threads.get? currentThreadId with
    | none =>
      .error (.validation
        (if currentThreadId = rootParentThreadId then
          s!"parent thread not found: {rootParentThreadId}"
        else s!"thread hierarchy references missing ancestor '{currentThreadId}'"))
    | some thread =>
      match normalizeLineageId thread.parentThreadId with
      | none => .ok ()
      | some next =>
        have := length_unvisited_lt hvisited hthread
        walkAncestors threads rootParentThreadId (currentThreadId :: visited) next
termination_by (unvisited threads visited).length

/-- Reject a parent that is the thread itself, that is missing, or whose
    ancestors run in a cycle. -/
def validateThreadHierarchyMap (threads : AssocMap String Thread) (threadId : String)
    (parentThreadId : Option String) : Except StorageError Unit :=
  match normalizeLineageId parentThreadId with
  | none => .ok ()
  | some parentThreadId =>
    if parentThreadId = threadId then
      .error (.validation s!"thread '{threadId}' cannot parent itself")
    else walkAncestors threads parentThreadId [threadId] parentThreadId

end Remo

/-! ## The in-memory thread store

`InMemoryStore` keeps threads, runs, committed messages and pending messages in
hash maps. A missing message list reads as the empty one; `entry` makes it
explicit where a call does so.
-/

namespace Remo

/-- In-memory storage: thread and run records, and two message lists per thread. -/
structure InMemoryStore where
  threads : AssocMap String Thread
  runs : AssocMap String RunRecord
  /-- Insertion sequence of the runs, a tie-break of the run listing. -/
  runInsertion : AssocMap String UInt64
  runSeq : UInt64
  messages : AssocMap String (List Message)
  pendingMessages : AssocMap String (List PendingMessageRecord)

namespace InMemoryStore

/-- A new empty store. -/
def new : InMemoryStore where
  threads := AssocMap.empty
  runs := AssocMap.empty
  runInsertion := AssocMap.empty
  runSeq := 0
  messages := AssocMap.empty
  pendingMessages := AssocMap.empty

/-- The committed messages of a thread, oldest first. -/
def committed (s : InMemoryStore) (threadId : String) : List Message :=
  (s.messages.get? threadId).getD []

/-- The pending queue of a thread. -/
def pending (s : InMemoryStore) (threadId : String) : List PendingMessageRecord :=
  (s.pendingMessages.get? threadId).getD []

/-- The committed messages of a thread get an entry. -/
def messagesEntry (s : InMemoryStore) (threadId : String) : InMemoryStore :=
  { s with messages := s.messages.orInsert threadId [] }

/-- The pending queue of a thread gets an entry. -/
def pendingEntry (s : InMemoryStore) (threadId : String) : InMemoryStore :=
  { s with pendingMessages := s.pendingMessages.orInsert threadId [] }

/-- Replace the pending queue of a thread. -/
def setPending (s : InMemoryStore) (threadId : String) (pending : List PendingMessageRecord) :
    InMemoryStore :=
  { s with pendingMessages := s.pendingMessages.insert threadId pending }

/-- Replace the committed messages of a thread. -/
def setCommitted (s : InMemoryStore) (threadId : String) (messages : List Message) :
    InMemoryStore :=
  { s with messages := s.messages.insert threadId messages }

/-- Whether a message with the id is committed. -/
def committedMessageExists (s : InMemoryStore) (threadId messageId : String) : Bool :=
  (s.committed threadId).any fun message => message.id == some messageId

/-- Store a run record and point its thread at it. -/
def recordRun (s : InMemoryStore) (threadId : String) (run : RunRecord) (now : UInt64) :
    InMemoryStore :=
  let thread := (s.threads.get? threadId).getD (Thread.withId threadId)
  { s with
    threads := s.threads.insert threadId
      ((thread.touch now).applyRunProjection run).normalizeLineage
    runs := s.runs.insert run.runId run
    runInsertion := s.runInsertion.insert run.runId s.runSeq
    runSeq := s.runSeq + 1 }

end InMemoryStore

end Remo
