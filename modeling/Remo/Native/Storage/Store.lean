import Remo.Native.Storage.Messages

/-!
# The in-memory store

Thread records, and the calls of the store as those of a machine.
-/

/-! ## Thread records of the in-memory store

Saving a thread checks its parent against the stored threads; deleting one rejects,
detaches or deletes its children.
-/

namespace Remo

/-- Validate model-level invariants before persisting a thread projection. -/
def Thread.validateForPersist (self : Thread) : Except StorageError Unit := do
  requireNonEmpty "thread id" self.id
  requireOptionalNonEmpty "thread resource_id" self.resourceId
  requireOptionalNonEmpty "thread parent_thread_id" self.parentThreadId
  requireOptionalNonEmpty "thread active_run_id" self.activeRunId
  requireOptionalNonEmpty "thread open_run_id" self.openRunId
  requireOptionalNonEmpty "thread latest_run_id" self.latestRunId
  if normalizeLineageId self.parentThreadId = some (Str.trim self.id) then
    throw (.validation s!"thread '{self.id}' cannot parent itself")

/-- How deleting a thread should treat direct and transitive child threads. -/
inductive ChildThreadDeleteStrategy where
  | reject
  | detach
  | cascade
deriving Repr, DecidableEq

/-- The ids of the direct children of a thread, sorted. -/
def collectChildIds (threads : AssocMap String Thread) (parentThreadId : String) : List String :=
  ((threads.values.filter fun thread => thread.parentThreadId == some parentThreadId).map
    Thread.id).insertionSort fun a b => a ≤ b

/-! ## Deleting with descendants -/

/-- The ids a cascading delete can come to. -/
def cascadeIds (threads : AssocMap String Thread) (threadId : String) : List String :=
  threadId :: threads.values.map Thread.id

theorem mem_cascadeIds_of_child {threads : AssocMap String Thread}
    {threadId parentId childId : String} (h : childId ∈ collectChildIds threads parentId) :
    childId ∈ cascadeIds threads threadId := by
  unfold collectChildIds at h
  rw [List.mem_insertionSort, List.mem_map] at h
  obtain ⟨thread, hthread, rfl⟩ := h
  exact List.mem_cons_of_mem _ (List.mem_map_of_mem (List.mem_of_mem_filter hthread))

/-- An entry of the delete stack: a thread and whether its children were pushed. -/
abbrev CascadeEntry (threads : AssocMap String Thread) (threadId : String) :=
  { id : String // id ∈ cascadeIds threads threadId } × Bool

/-- The children of a thread as stack entries. -/
def childEntries (threads : AssocMap String Thread) (threadId currentThreadId : String) :
    List (CascadeEntry threads threadId) :=
  (collectChildIds threads currentThreadId).attach.map fun child =>
    (⟨child.1, mem_cascadeIds_of_child child.2⟩, false)

/-- The ids not visited yet. -/
def unvisitedIds (ids visited : List String) : List String := ids.filter (· ∉ visited)

/-- Visiting a new id leaves fewer ids unvisited. -/
theorem length_unvisitedIds_lt {ids visited : List String} {id : String} (hid : id ∈ ids)
    (hnew : id ∉ visited) :
    (unvisitedIds ids (id :: visited)).length < (unvisitedIds ids visited).length := by
  have hsub : unvisitedIds ids (id :: visited) = (unvisitedIds ids visited).filter (· ≠ id) := by
    unfold unvisitedIds
    rw [List.filter_filter]
    apply List.filter_congr
    intro k _
    simp [not_or]
  have hmem : id ∈ unvisitedIds ids visited := List.mem_filter.mpr ⟨hid, by simpa using hnew⟩
  rw [hsub]
  exact List.length_filter_lt_length_iff_exists.mpr ⟨id, hmem, by simp⟩

/-- The stack loop of a cascading delete. Returns the ids in the order they are
    deleted, children first. -/
def cascadeOrder (threads : AssocMap String Thread) (threadId : String) (visited : List String)
    (stack : List (CascadeEntry threads threadId)) (deleteOrder : List String) :
    Except StorageError (List String) :=
  match stack with
  | [] => .ok deleteOrder
  | (current, true) :: stack =>
    cascadeOrder threads threadId visited stack (deleteOrder ++ [current.1])
  | (current, false) :: stack =>
    if hvisited : current.1 ∈ visited then
      .error (.validation s!"thread hierarchy cycle detected while deleting '{threadId}'")
    else
      have := length_unvisitedIds_lt current.2 hvisited
      cascadeOrder threads threadId (current.1 :: visited)
        (childEntries threads threadId current.1 ++ (current, true) :: stack) deleteOrder
termination_by ((unvisitedIds (cascadeIds threads threadId) visited).length, stack.length)

namespace InMemoryStore

/-! ## Operations -/

/-- Save a thread whose parent is stored and does not descend from it. -/
def saveThreadValidated (thread : Thread) : Method Fault InMemoryStore Unit := fun s =>
  let normalized := thread.normalizeLineage
  let checked : Except StorageError Unit := do
    normalized.validateForPersist
    validateThreadHierarchyMap s.threads normalized.id normalized.parentThreadId
  match checked with
  | .error e => (Outcome.fail e, s)
  | .ok () => (.ok (), { s with threads := s.threads.insert normalized.id normalized })

/-- Remove a thread with its committed and pending messages. -/
def removeThread (s : InMemoryStore) (threadId : String) : InMemoryStore :=
  { s with
    threads := s.threads.retain fun id _ => id ≠ threadId
    messages := s.messages.retain fun id _ => id ≠ threadId
    pendingMessages := s.pendingMessages.retain fun id _ => id ≠ threadId }

/-- A child without its parent. -/
def detachThread (updatedAt : UInt64) (child : Thread) : Thread :=
  let child := { child with parentThreadId := none }.normalizeLineage
  { child with metadata := { child.metadata with updatedAt := some updatedAt } }

/-- Delete a thread and treat its children as the strategy says. -/
def deleteThreadWithStrategy (threadId : String) (strategy : ChildThreadDeleteStrategy)
    (now : UInt64) : Method Fault InMemoryStore Unit := fun s =>
  if (s.threads.get? threadId).isNone then (Outcome.fail (.notFound threadId), s)
  else
    match strategy with
    | .reject =>
      if !(collectChildIds s.threads threadId).isEmpty then
        (Outcome.fail (.validation
          s!"thread '{threadId}' has child threads; choose 'detach' or 'cascade'"), s)
      else (.ok (), s.removeThread threadId)
    | .detach =>
      let threads := (collectChildIds s.threads threadId).foldl
        (fun threads childId => threads.modify childId (detachThread now)) s.threads
      (.ok (), { s with threads := threads }.removeThread threadId)
    | .cascade =>
      match cascadeOrder s.threads threadId [] [(⟨threadId, List.mem_cons_self⟩, false)] [] with
      | .error e => (Outcome.fail e, s)
      | .ok deleteOrder => (.ok (), deleteOrder.foldl removeThread s)

end InMemoryStore

end Remo

/-! ## The in-memory store as a machine

The calls that write threads, committed messages and runs, with the calls of the
pending queue among them. Every call takes its locks for all it reads and writes, so
calls of several writers come one after the other.
-/

namespace Remo

/-- The writing calls of the thread and run store. A call carries the clock it reads
    and the message ids generated in it. -/
inductive StoreOp where
  | saveThreadValidated (thread : Thread)
  | deleteThreadWithStrategy (threadId : String) (strategy : ChildThreadDeleteStrategy)
      (now : UInt64)
  | saveMessages (threadId : String) (messages : List Message)
  | appendMessageRecords (threadId : String) (messages : List Message) (generated : Nat → Uuid)
  | checkpoint (threadId : String) (messages : List Message) (run : RunRecord) (now : UInt64)
  | checkpointAppend (threadId : String) (messages : List Message)
      (expectedVersion : Option UInt64) (run : RunRecord) (now : UInt64)
  | pending (op : PendingOp)

/-- What the calls return. -/
inductive StoreReply where
  | done
  | version (version : Nat)
  | records (records : List MessageRecord)
  | pending (reply : PendingReply)
deriving Repr, DecidableEq

namespace InMemoryStore

/-- One call of the store. -/
def callStore : StoreOp → Method Fault InMemoryStore StoreReply
  | .saveThreadValidated thread => Method.map (fun _ => .done) (saveThreadValidated thread)
  | .deleteThreadWithStrategy threadId strategy now =>
    Method.map (fun _ => .done) (deleteThreadWithStrategy threadId strategy now)
  | .saveMessages threadId messages =>
    Method.map (fun _ => .done) (saveMessages threadId messages)
  | .appendMessageRecords threadId messages generated =>
    Method.map .records (appendMessageRecords threadId messages generated)
  | .checkpoint threadId messages run now =>
    Method.map (fun _ => .done) (checkpoint threadId messages run now)
  | .checkpointAppend threadId messages expectedVersion run now =>
    Method.map .version (checkpointAppend threadId messages expectedVersion run now)
  | .pending op => Method.map .pending (callPending op)

/-- The in-memory store as a machine over its writing calls. -/
def storeMachine : Machine InMemoryStore StoreOp (Outcome StoreReply) where
  step s op := callStore op s

end InMemoryStore

end Remo
