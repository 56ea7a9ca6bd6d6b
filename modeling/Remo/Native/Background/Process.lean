import Remo.ForStd.ParentTree
import Remo.Native.Background.Manager

/-!
# Background tasks in a process

Spawns, completions and the sweep that cancels the descendants of a run, one shared access at a
time.
-/

/-! ## Spawns and completions in a process

A spawn reads and writes shared state at several places: the name check, the check for a cancelled
parent run, the id counter, the store and the handle table. What happens between them is up to the
other calls, so every call goes on one access at a time. The clock is an argument.
-/

namespace Remo

/-- The lineage of a tool call. -/
structure ToolLineageContext where
  runId : String
  callId : String
  agentId : String
deriving Repr, DecidableEq

/-- The background task whose future a call is made in. -/
structure BackgroundTaskExecutionContext where
  taskId : TaskId
  runId : Option String
deriving Repr, DecidableEq

/-- `merge_ambient_parent_context`. -/
def mergeAmbientParentContext (parentContext : TaskParentContext)
    (task : Option BackgroundTaskExecutionContext) (tool : Option ToolLineageContext) :
    TaskParentContext :=
  let parentContext :=
    match parentContext.taskId, task with
    | none, some context =>
      { parentContext with
        runId := parentContext.runId.or context.runId
        taskId := some context.taskId }
    | _, _ => parentContext
  match tool with
  | some context =>
    { parentContext with
      runId := parentContext.runId.or (some context.runId)
      callId := parentContext.callId.or
        (if context.callId.isEmpty then none else some context.callId)
      agentId := parentContext.agentId.or
        (if context.agentId.isEmpty then none else some context.agentId) }
  | none => parentContext

/-- `spawn` reserves its id first, `spawn_agent_with_context` after its checks. -/
inductive SpawnKind where
  | task (taskType : String)
  | agent
deriving Repr, DecidableEq

def SpawnKind.taskType : SpawnKind → String
  | .task taskType => taskType
  | .agent => "sub_agent"

/-- The arguments of a spawn, and the contexts it is made in. -/
structure SpawnCall where
  kind : SpawnKind
  ownerThreadId : String
  name : Option String
  description : String
  parentContext : TaskParentContext
  task : Option BackgroundTaskExecutionContext
  tool : Option ToolLineageContext
deriving Repr, DecidableEq

namespace SpawnCall

/-- The parent context that the checks and the metadata have. -/
def context (call : SpawnCall) : TaskParentContext :=
  mergeAmbientParentContext call.parentContext call.task call.tool

/-- The initial metadata. -/
def runningMeta (call : SpawnCall) (taskId : TaskId) (now : UInt64) : PersistedTaskMeta where
  taskId := taskId
  ownerThreadId := call.ownerThreadId
  taskType := call.kind.taskType
  name := call.name
  description := call.description
  status := .running
  error := none
  result := none
  createdAtMs := now
  completedAtMs := none
  parentContext := call.context

end SpawnCall

/-- How far a spawn has got. -/
inductive SpawnStage where
  | entered
  | named
  | checked
  | committed (taskMeta : PersistedTaskMeta)
  | started (taskMeta : PersistedTaskMeta)
deriving Repr, DecidableEq

/-- A spawn on its way, with its id once it has one. -/
structure Spawning where
  call : SpawnCall
  taskId : Option TaskId
  stage : SpawnStage
deriving Repr, DecidableEq

/-- Where the next access of a spawn leads. -/
inductive SpawnProgress where
  | goesOn (next : Spawning)
  | starts (taskMeta : PersistedTaskMeta) (next : Spawning)
  | returns (result : Except SpawnError TaskId)

namespace Spawning

/-- A call enters: a task reserves its id. -/
def enter (call : SpawnCall) (manager : BackgroundTaskManager) :
    Spawning × BackgroundTaskManager :=
  match call.kind with
  | .task _ => (⟨call, some manager.nextTaskId.1, .entered⟩, manager.nextTaskId.2)
  | .agent => (⟨call, none, .entered⟩, manager)

/-- `validate_name`. -/
def checkName (self : Spawning) (manager : BackgroundTaskManager) : SpawnProgress :=
  match self.call.name with
  | none => .goesOn { self with stage := .named }
  | some name =>
    match manager.validateName name self.call.ownerThreadId with
    | .error e => .returns (.error e)
    | .ok () => .goesOn { self with stage := .named }

/-- `is_parent_run_cancelled`. -/
def checkRun (self : Spawning) (manager : BackgroundTaskManager) : SpawnProgress :=
  match manager.isParentRunCancelled self.call.context with
  | some runId => .returns (.error (.parentRunCancelled runId))
  | none => .goesOn { self with stage := .checked }

/-- The initial metadata is committed. -/
def commit (self : Spawning) (taskId : TaskId) (now : UInt64) (manager : BackgroundTaskManager) :
    SpawnProgress × BackgroundTaskManager :=
  let taskMeta := self.call.runningMeta taskId now
  match manager.commitMeta (.upsert taskMeta) with
  | .error e => (.returns (.error e.toSpawnError), manager)
  | .ok manager => (.goesOn { self with stage := .committed taskMeta }, manager)

/-- The next access of a spawn. -/
def advance (now : UInt64) (self : Spawning) (manager : BackgroundTaskManager) :
    SpawnProgress × BackgroundTaskManager :=
  match self.stage with
  | .entered => (self.checkName manager, manager)
  | .named => (self.checkRun manager, manager)
  | .checked =>
    match self.taskId with
    | none => (.goesOn { self with taskId := some manager.nextTaskId.1 }, manager.nextTaskId.2)
    | some taskId => self.commit taskId now manager
  | .committed taskMeta => (.starts taskMeta { self with stage := .started taskMeta }, manager)
  | .started taskMeta =>
    (.returns (.ok taskMeta.taskId),
      manager.insertHandleAndCancelIfParentRunCancelled taskMeta.taskId
        ⟨taskMeta.taskId, taskMeta.ownerThreadId, false⟩ taskMeta.parentContext)

end Spawning

/-- The metadata of a task that has ended. -/
def PersistedTaskMeta.ended (taskMeta : PersistedTaskMeta) (result : TaskResult) (now : UInt64) :
    PersistedTaskMeta :=
  match result with
  | .success value =>
    { taskMeta with
      status := .completed, error := none, result := some value, completedAtMs := some now }
  | .failed error =>
    { taskMeta with
      status := .failed, error := some error, result := none, completedAtMs := some now }
  | .cancelled =>
    { taskMeta with
      status := .cancelled, error := none, result := none, completedAtMs := some now }

/-- A manager, the spawns on their way and the tasks that are executing. -/
structure BackgroundProcess where
  manager : BackgroundTaskManager
  spawning : List Spawning
  executing : List PersistedTaskMeta

/-- What happens in a process. -/
inductive ProcessOp where
  | enter (call : SpawnCall)
  | advance (index : Nat) (now : UInt64)
  | complete (index : Nat) (result : TaskResult) (now : UInt64)

namespace BackgroundProcess

/-- The spawn at an index makes its next access. -/
def advance (self : BackgroundProcess) (index : Nat) (now : UInt64) : BackgroundProcess :=
  match self.spawning[index]? with
  | none => self
  | some spawning =>
    match spawning.advance now self.manager with
    | (.goesOn next, manager) =>
      { self with manager := manager, spawning := self.spawning.set index next }
    | (.starts taskMeta next, manager) =>
      { manager := manager
        spawning := self.spawning.set index next
        executing := self.executing ++ [taskMeta] }
    | (.returns _, manager) =>
      { self with manager := manager, spawning := self.spawning.eraseIdx index }

/-- The task at an index ends. -/
def complete (self : BackgroundProcess) (index : Nat) (result : TaskResult) (now : UInt64) :
    BackgroundProcess :=
  match self.executing[index]? with
  | none => self
  | some taskMeta =>
    { self with
      manager := self.manager.commitMetaOrWarn (.upsert (taskMeta.ended result now))
      executing := self.executing.eraseIdx index }

def step (self : BackgroundProcess) : ProcessOp → BackgroundProcess
  | .enter call =>
    { self with
      manager := (Spawning.enter call self.manager).2
      spawning := self.spawning ++ [(Spawning.enter call self.manager).1] }
  | .advance index now => self.advance index now
  | .complete index result now => self.complete index result now

end BackgroundProcess

/-! ## Restart -/

/-- The `RunStart` part of `BackgroundTaskSyncHook::run`: the snapshot is the one of the store the
    manager is bound to. -/
def BackgroundTaskManager.onRunStart (self : BackgroundTaskManager) (threadId : String) :
    BackgroundTaskManager :=
  self.restoreForThread threadId (self.snapshot.getD BackgroundTaskStateSnapshot.default)

/-- A store with the key of the background plugin. -/
def BackgroundStore.new : BackgroundStore :=
  ⟨⟨0, StateMap.empty⟩, ⟨AssocMap.empty.insert "background_task_state" .exclusive⟩⟩

/-- `restore_thread_scoped` for the key of the background plugin. -/
def BackgroundStore.restore (store : BackgroundStore)
    (persisted : Option BackgroundTaskStateSnapshot) : BackgroundStore :=
  match persisted with
  | none => store
  | some snapshot =>
    { store with inner := { store.inner with
        ext := Function.update store.inner.ext () (some snapshot) } }

/-- A new process: a fresh manager on a fresh store with the persisted tasks, behind the `RunStart`
    hook. -/
def BackgroundProcess.restart (threadId : String)
    (persisted : Option BackgroundTaskStateSnapshot) : BackgroundProcess where
  manager := ((BackgroundTaskManager.new.setStore
    (BackgroundStore.new.restore persisted)).onRunStart threadId)
  spawning := []
  executing := []

end Remo

/-! ## Cancelling the descendants of a run

The sweep marks the run, reads the live roots of the run once and then cancels the tree of each
root: it reads the tree from the store and signals the tasks of it under the lock of the handles.
Spawns and completions happen between these accesses.
-/

namespace Remo

namespace BackgroundTaskManager

/-- Retain a cancelled run id. -/
def markRunCancelled (self : BackgroundTaskManager) (parentRunId : String) :
    BackgroundTaskManager :=
  { self with cancelledRunIds := self.cancelledRunIds.insert parentRunId }

/-- The live tasks that the run has spawned itself. -/
def rootTaskIds (self : BackgroundTaskManager) (parentRunId : String) : List TaskId :=
  (self.tasks.values.filter fun taskMeta => !taskMeta.status.isTerminal &&
    taskMeta.parentContext.runId == some parentRunId &&
    taskMeta.parentContext.taskId.isNone).map PersistedTaskMeta.taskId

/-- The ids of a task and of its descendants. Every pass pops one id, and every task is pushed at
    most once. -/
def taskTreeIds (self : BackgroundTaskManager) (taskId : TaskId) : Option (List TaskId) :=
  match self.snapshot with
  | none => none
  | some snapshot =>
    if taskId ∉ snapshot.tasks.keys then none
    else
      some (ParentTree.walk PersistedTaskMeta.taskId (fun taskMeta => taskMeta.parentContext.taskId)
        snapshot.tasks.values (snapshot.tasks.values.length + 1) [taskId] [])

/-- The task is terminal in the store. -/
def isTerminalTask (self : BackgroundTaskManager) (taskId : TaskId) : Bool :=
  ((self.tasks.get? taskId).map fun taskMeta => taskMeta.status.isTerminal).getD false

/-- The part of `cancel_tree` under the lock: signal the tasks that have a handle and are not
    terminal, and count them. -/
def signalLive : List TaskId → BackgroundTaskManager → Nat × BackgroundTaskManager
  | [], self => (0, self)
  | taskId :: taskIds, self =>
    if taskId ∈ self.handles.keys ∧ self.isTerminalTask taskId = false then
      let (count, self) := signalLive taskIds (self.signal taskId)
      (count + 1, self)
    else signalLive taskIds self

end BackgroundTaskManager

/-- How far `cancel_descendants_for_run` has got. -/
inductive SweepStage where
  | idle
  | marked
  | trees (rootTaskIds : List TaskId) (cancelled : Nat)
  | signalling (taskIds rootTaskIds : List TaskId) (cancelled : Nat)
  | returned (cancelled : Nat)
deriving Repr, DecidableEq

namespace SweepStage

/-- The next access of the sweep. -/
def advance (parentRunId : String) (manager : BackgroundTaskManager) :
    SweepStage → SweepStage × BackgroundTaskManager
  | .idle => (.marked, manager.markRunCancelled parentRunId)
  | .marked => (.trees (manager.rootTaskIds parentRunId) 0, manager)
  | .trees [] cancelled => (.returned cancelled, manager)
  | .trees (taskId :: rootTaskIds) cancelled =>
    match manager.taskTreeIds taskId with
    | none => (.trees rootTaskIds cancelled, manager)
    | some taskIds => (.signalling taskIds rootTaskIds cancelled, manager)
  | .signalling taskIds rootTaskIds cancelled =>
    let (count, manager) := BackgroundTaskManager.signalLive taskIds manager
    (.trees rootTaskIds (cancelled + count), manager)
  | .returned cancelled => (.returned cancelled, manager)

end SweepStage

end Remo
