import Remo.Native.Message.Message
import Remo.Native.State.Store

/-!
# The background task manager

The manager hands out task ids, holds the handles of live tasks and writes the metadata of its
tasks to a state store. The futures themselves, inboxes and the events sent to them are left out.
A task is signalled when its cancellation handle is.
-/

namespace Remo

/-- Unique identifier for a background task. -/
abbrev TaskId := String

inductive TaskStatus where
  | running
  | completed
  | failed
  | cancelled
deriving Repr, DecidableEq

def TaskStatus.isTerminal : TaskStatus → Bool
  | .running => false
  | _ => true

/-- Result produced by a background task on completion. -/
inductive TaskResult where
  | success (value : Json)
  | failed (error : String)
  | cancelled
deriving Repr, DecidableEq

/-- Parent execution context for background task lineage tracking. -/
structure TaskParentContext where
  taskId : Option String
  runId : Option String
  callId : Option String
  agentId : Option String
deriving Repr, DecidableEq

/-- Persisted metadata for a single background task. -/
structure PersistedTaskMeta where
  taskId : TaskId
  ownerThreadId : String
  taskType : String
  name : Option String
  description : String
  status : TaskStatus
  error : Option String
  result : Option Json
  createdAtMs : UInt64
  completedAtMs : Option UInt64
  parentContext : TaskParentContext
deriving Repr, DecidableEq

/-- Persisted state for all background tasks. -/
structure BackgroundTaskStateSnapshot where
  tasks : AssocMap TaskId PersistedTaskMeta

/-- Actions applied to the persisted background task state. -/
inductive BackgroundTaskStateAction where
  | upsert (taskMeta : PersistedTaskMeta)
  | replaceAll (tasks : AssocMap TaskId PersistedTaskMeta)

namespace BackgroundTaskStateSnapshot

def default : BackgroundTaskStateSnapshot := ⟨AssocMap.empty⟩

def reduce (self : BackgroundTaskStateSnapshot) :
    BackgroundTaskStateAction → BackgroundTaskStateSnapshot
  | .upsert taskMeta => ⟨self.tasks.insert taskMeta.taskId taskMeta⟩
  | .replaceAll tasks => ⟨tasks⟩

end BackgroundTaskStateSnapshot

/-- The state keys of the manager: `BackgroundTaskStateKey`. -/
def backgroundKeys : StateKeys where
  Key := Unit
  decEq := inferInstance
  key _ := "background_task_state"
  merge _ := .exclusive
  Value _ := BackgroundTaskStateSnapshot
  Update _ := BackgroundTaskStateAction
  default _ := BackgroundTaskStateSnapshot.default
  apply _ := BackgroundTaskStateSnapshot.reduce

/-- The store a manager is bound to. -/
abbrev BackgroundStore := StateStore backgroundKeys

namespace BackgroundStore

/-- `store.read::<BackgroundTaskStateKey>()`. -/
def read (store : BackgroundStore) : Option BackgroundTaskStateSnapshot := store.inner.ext ()

end BackgroundStore

/-- Errors from task spawn operations. -/
inductive SpawnError where
  | reservedName (name : String)
  | duplicateName (name : String)
  | storeNotConfigured
  | state (error : StateError)
  | parentRunCancelled (runId : String)
deriving Repr, DecidableEq

inductive MetaCommitError where
  | storeUnavailable
  | state (error : StateError)
deriving Repr, DecidableEq

def MetaCommitError.toSpawnError : MetaCommitError → SpawnError
  | .storeUnavailable => .storeNotConfigured
  | .state e => .state e

/-- Runtime-only handle for a live background task, and whether it was cancelled. -/
structure TaskHandle where
  taskId : TaskId
  ownerThreadId : String
  cancelled : Bool
deriving Repr, DecidableEq

/-- Thread-scoped handle table for background tasks. -/
structure BackgroundTaskManager where
  handles : AssocMap TaskId TaskHandle
  counter : UInt64
  store : Option BackgroundStore
  cancelledRunIds : List String

/-- The id of the `n`-th task. -/
def taskIdOf (n : UInt64) : TaskId := "bg_" ++ toString n.toNat

namespace BackgroundTaskManager

/-- `BackgroundTaskManager::new`. -/
def new : BackgroundTaskManager := ⟨AssocMap.empty, 0, none, []⟩

/-- Provide the state store, once. -/
def setStore (self : BackgroundTaskManager) (store : BackgroundStore) : BackgroundTaskManager :=
  match self.store with
  | some _ => self
  | none => { self with store := some store }

/-- The task metadata in the store, if a store is set and holds any. -/
def snapshot (self : BackgroundTaskManager) : Option BackgroundTaskStateSnapshot :=
  self.store.bind BackgroundStore.read

/-- The metadata of the tasks, none when there is no snapshot. -/
def tasks (self : BackgroundTaskManager) : AssocMap TaskId PersistedTaskMeta :=
  (self.snapshot.map BackgroundTaskStateSnapshot.tasks).getD AssocMap.empty

def reservedNames : List String := ["parent", "self", "all", "broadcast"]

/-- Validate a task name: reserved names, and uniqueness among the running tasks of the thread. -/
def validateName (self : BackgroundTaskManager) (name ownerThreadId : String) :
    Except SpawnError Unit :=
  if name ∈ reservedNames then .error (.reservedName name)
  else if self.tasks.values.any fun taskMeta => taskMeta.ownerThreadId == ownerThreadId &&
      !taskMeta.status.isTerminal && taskMeta.name == some name then
    .error (.duplicateName name)
  else .ok ()

/-- Hand out the next task id. The counter wraps. -/
def nextTaskId (self : BackgroundTaskManager) : TaskId × BackgroundTaskManager :=
  (taskIdOf self.counter, { self with counter := self.counter + 1 })

/-- Commit a state update to the store. -/
def commitMeta (self : BackgroundTaskManager) (action : BackgroundTaskStateAction) :
    Except MetaCommitError BackgroundTaskManager :=
  match self.store with
  | none => .error .storeUnavailable
  | some store =>
    match store.commit (MutationBatch.new.update () action) with
    | .error e => .error (.state e)
    | .ok (_, store) => .ok { self with store := some store }

/-- Commit a state update, or go on without. -/
def commitMetaOrWarn (self : BackgroundTaskManager) (action : BackgroundTaskStateAction) :
    BackgroundTaskManager :=
  match self.commitMeta action with
  | .error _ => self
  | .ok self => self

/-! ## Cancelled runs -/

/-- The run of a parent context, unless it is blank. -/
def parentRunId (parentContext : TaskParentContext) : Option String :=
  (parentContext.runId.map Str.trim).filter fun runId => !runId.isEmpty

/-- The parent run, if it has been cancelled. -/
def isParentRunCancelled (self : BackgroundTaskManager) (parentContext : TaskParentContext) :
    Option String :=
  (parentRunId parentContext).filter fun runId => decide (runId ∈ self.cancelledRunIds)

/-- Signal a task, if it has a handle. -/
def signal (self : BackgroundTaskManager) (taskId : TaskId) : BackgroundTaskManager :=
  { self with
    handles := self.handles.modify taskId fun handle => { handle with cancelled := true } }

def insertHandleAndCancelIfParentRunCancelled (self : BackgroundTaskManager) (taskId : TaskId)
    (handle : TaskHandle) (parentContext : TaskParentContext) : BackgroundTaskManager :=
  let self := { self with handles := self.handles.insert taskId handle }
  if (self.isParentRunCancelled parentContext).isSome then self.signal taskId else self

/-! ## Restore -/

/-- Restore one task of a snapshot, unless it is in the store. -/
def restoreTask (ownerThreadId : String) (existing : BackgroundTaskStateSnapshot)
    (self : BackgroundTaskManager) (entry : TaskId × PersistedTaskMeta) : BackgroundTaskManager :=
  let (taskId, taskMeta) := entry
  if taskId ∈ existing.tasks.keys then self
  else
    let self :=
      match (Str.stripPrefix "bg_" taskId).bind parseU64 with
      | some n =>
        { self with
          counter := max self.counter (if n = 0xFFFFFFFFFFFFFFFF then n else n + 1) }
      | none => self
    let orphaned := taskMeta.status = .running ∧ taskId ∉ self.handles.keys
    let toStore := { taskMeta with ownerThreadId := ownerThreadId }
    let toStore :=
      if orphaned then
        { toStore with
          status := .failed
          error := some "task orphaned: runtime restarted while running" }
      else toStore
    self.commitMetaOrWarn (.upsert toStore)

/-- Restore persisted task metadata from a snapshot into the store. -/
def restoreForThread (self : BackgroundTaskManager) (ownerThreadId : String)
    (snapshot : BackgroundTaskStateSnapshot) : BackgroundTaskManager :=
  match self.store with
  | none => self
  | some store =>
    let existing := store.read.getD BackgroundTaskStateSnapshot.default
    snapshot.tasks.entries.foldl (restoreTask ownerThreadId existing) self

/-- Returns true if any task for the given thread is still running. -/
def hasRunning (self : BackgroundTaskManager) (ownerThreadId : String) : Bool :=
  match self.snapshot with
  | some snapshot => snapshot.tasks.values.any fun taskMeta =>
      taskMeta.ownerThreadId == ownerThreadId && !taskMeta.status.isTerminal
  | none => self.handles.values.any fun handle => handle.ownerThreadId == ownerThreadId

end BackgroundTaskManager

end Remo
