import Mathlib.Data.List.FinRange
import Remo.ForStd.Method
import Remo.Native.State.Store

/-!
# The phase engine

The hooks of a phase are run on one snapshot, their commands are merged and committed, and
the hooks whose commands do not fit together are run again one by one.
-/

namespace Remo

/-! ## The action queue -/

structure ScheduledActionEnvelope where
  id : Nat
  action : ScheduledAction

inductive ScheduledActionQueueUpdate where
  | push (entry : ScheduledActionEnvelope)
  | remove (id : Nat)

/-- `PendingScheduledActions::apply`. -/
def applyQueueUpdate (value : List ScheduledActionEnvelope) :
    ScheduledActionQueueUpdate → List ScheduledActionEnvelope
  | .push entry => value ++ [entry]
  | .remove id => value.filter fun entry => entry.id != id

/-- The state keys under a phase runtime: `PendingScheduledActions`, which is `none`, and
    the keys of the program. -/
def runtimeKeys (keys : StateKeys) : StateKeys where
  Key := Option keys.Key
  decEq := inferInstance
  key
    | none => "__runtime.pending_scheduled_actions"
    | some K => keys.key K
  merge
    | none => .exclusive
    | some K => keys.merge K
  Value
    | none => List ScheduledActionEnvelope
    | some K => keys.Value K
  Update
    | none => ScheduledActionQueueUpdate
    | some K => keys.Update K
  default
    | none => ([] : List ScheduledActionEnvelope)
    | some K => keys.default K
  apply
    | none => applyQueueUpdate
    | some K => keys.apply K

/-- The key of the queue. -/
def pendingScheduledActions (keys : StateKeys) : (runtimeKeys keys).Key :=
  (none : Option keys.Key)

/-- A key of the program. -/
def programKey {keys : StateKeys} (K : keys.Key) : (runtimeKeys keys).Key := some K

/-- An update of the queue. -/
def queueUpdate (keys : StateKeys) (update : ScheduledActionQueueUpdate) :
    (runtimeKeys keys).Update (pendingScheduledActions keys) :=
  update

/-- The entries of the queue. -/
def queueEntries {keys : StateKeys} (map : StateMap (runtimeKeys keys)) :
    List ScheduledActionEnvelope :=
  (map (pendingScheduledActions keys)).getD ((runtimeKeys keys).default _)

/-! ## Hooks and handlers -/

variable {keys : StateKeys}

/-- What a hook is given. -/
structure PhaseContext (keys : StateKeys) where
  phase : Phase
  activeHookFilter : List String
  snapshot : Snapshot (runtimeKeys keys)

def PhaseContext.withSnapshot (self : PhaseContext keys) (snapshot : Snapshot (runtimeKeys keys)) :
    PhaseContext keys :=
  { self with snapshot }

/-- A phase hook with its owning plugin id. -/
structure TaggedPhaseHook (keys : StateKeys) where
  pluginId : String
  run : PhaseContext keys → Except StateError (StateCommand (runtimeKeys keys))

/-- Per-run execution environment. An effect handler tells whether it succeeded. -/
structure ExecutionEnv (keys : StateKeys) where
  phaseHooks : Phase → List (TaggedPhaseHook keys)
  scheduledActionHandlers : String → Bool
  effectHandlers : String → Option (Value → Snapshot (runtimeKeys keys) → Bool)

structure EffectDispatchReport where
  attempted : Nat
  dispatched : Nat
  failed : Nat
deriving Repr, DecidableEq

namespace EffectDispatchReport

def zero : EffectDispatchReport := ⟨0, 0, 0⟩

def add (self other : EffectDispatchReport) : EffectDispatchReport :=
  ⟨self.attempted + other.attempted, self.dispatched + other.dispatched,
    self.failed + other.failed⟩

end EffectDispatchReport

structure SubmitCommandReport where
  revision : Nat
  effectReport : EffectDispatchReport

structure PhaseRuntime (keys : StateKeys) where
  store : StateStore (runtimeKeys keys)
  nextId : Nat

/-- What the methods of the runtime return and leave. -/
abbrev PhaseMethod (keys : StateKeys) (α : Type) := Method StateError (PhaseRuntime keys) α

/-- Hand the effects to their handlers. -/
def dispatchEffects (env : ExecutionEnv keys) (effects : List TypedEffect)
    (snapshot : Snapshot (runtimeKeys keys)) : EffectDispatchReport :=
  effects.foldl (fun report effect =>
    match env.effectHandlers effect.key with
    | none => report.add ⟨1, 0, 1⟩
    | some handler =>
      if handler effect.payload snapshot then report.add ⟨1, 1, 0⟩ else report.add ⟨1, 0, 1⟩) .zero

/-- The actions of a command with their ids. -/
def envelopes (nextId : Nat) (actions : List ScheduledAction) : List ScheduledActionEnvelope :=
  actions.zipIdx.map fun entry => ⟨nextId + entry.2, entry.1⟩

/-- The patch with a push for every action. -/
def enqueue (patch : MutationBatch (runtimeKeys keys)) (entries : List ScheduledActionEnvelope) :
    MutationBatch (runtimeKeys keys) :=
  entries.foldl (fun patch entry =>
    patch.update (pendingScheduledActions keys) (queueUpdate keys (.push entry))) patch

/-- Check the handlers, enqueue the actions, commit, and dispatch the effects. -/
def submitCommandInner (env : ExecutionEnv keys) (command : StateCommand (runtimeKeys keys)) :
    PhaseMethod keys SubmitCommandReport := fun runtime =>
  match command.scheduledActions.find? fun action => !env.scheduledActionHandlers action.key with
  | some action => (.error (.unknownScheduledActionHandler action.key), runtime)
  | none =>
    match command.effects.find? fun effect => (env.effectHandlers effect.key).isNone with
    | some effect => (.error (.unknownEffectHandler effect.key), runtime)
    | none =>
      let patch := enqueue command.patch (envelopes runtime.nextId command.scheduledActions)
      let nextId := runtime.nextId + command.scheduledActions.length + command.effects.length
      match runtime.store.commit patch with
      | .error e => (.error e, { runtime with nextId })
      | .ok (revision, store) =>
        (.ok ⟨revision, dispatchEffects env command.effects store.snapshot⟩, { store, nextId })

/-! ## Gathering -/

/-- The hooks of the phase that are active. -/
def filterHooks (env : ExecutionEnv keys) (ctx : PhaseContext keys) :
    List (TaggedPhaseHook keys) :=
  (env.phaseHooks ctx.phase).filter fun tagged =>
    ctx.activeHookFilter.isEmpty || tagged.pluginId ∈ ctx.activeHookFilter

/-- Run a hook on a snapshot. A command without base revision gets the one of the
    snapshot. -/
def runHook (tagged : TaggedPhaseHook keys) (baseCtx : PhaseContext keys)
    (snapshot : Snapshot (runtimeKeys keys)) :
    Except StateError (StateCommand (runtimeKeys keys)) := do
  let cmd ← tagged.run (baseCtx.withSnapshot snapshot)
  .ok (if cmd.patch.baseRevision.isNone then cmd.withBaseRevision snapshot.revision else cmd)

/-- Run hooks, returning hook indices with the commands that are not empty. -/
def runHooksIndexed (hooks : List (TaggedPhaseHook keys)) (baseCtx : PhaseContext keys)
    (snapshot : Snapshot (runtimeKeys keys)) :
    Except StateError (List (Fin hooks.length × StateCommand (runtimeKeys keys))) := do
  let results ← (List.finRange hooks.length).mapM fun i => do
    let cmd ← runHook (hooks.get i) baseCtx snapshot
    .ok (i, cmd)
  .ok (results.filter fun result => !result.2.isEmpty)

/-- Whether an exclusive key occurs again among the keys. -/
def overlapFrom (strategy : String → MergeStrategy) (seen : List String) : List String → Bool
  | [] => false
  | key :: rest =>
    if strategy key = .exclusive then
      if key ∈ seen then true else overlapFrom strategy (key :: seen) rest
    else overlapFrom strategy seen rest

/-- Check whether any exclusive key appears more than once in the commands. -/
def hasExclusiveKeyOverlap {n : Nat} (commands : List (Fin n × StateCommand (runtimeKeys keys)))
    (strategy : String → MergeStrategy) : Bool :=
  overlapFrom strategy [] (commands.flatMap fun entry => entry.2.patch.touchedKeys)

/-- Greedily partition commands into a compatible batch and deferred hook indices. -/
def partitionCommands {n : Nat} (strategy : String → MergeStrategy)
    (batchExclusiveKeys : List String) :
    List (Fin n × StateCommand (runtimeKeys keys)) →
      List (StateCommand (runtimeKeys keys)) × List (Fin n)
  | [] => ([], [])
  | (hookIdx, cmd) :: rest =>
    if cmd.patch.touchedKeys.any fun k => strategy k = .exclusive && k ∈ batchExclusiveKeys then
      let (batch, deferred) := partitionCommands strategy batchExclusiveKeys rest
      (batch, hookIdx :: deferred)
    else
      let added := cmd.patch.touchedKeys.filter fun k => strategy k = .exclusive
      let (batch, deferred) := partitionCommands strategy (added ++ batchExclusiveKeys) rest
      (cmd :: batch, deferred)

/-- The effects generated so far with their report. -/
abbrev GatherTotal := Nat × EffectDispatchReport

/-- Submit a command that is not empty, and add up its effects. -/
def submitCounted (env : ExecutionEnv keys) (cmd : StateCommand (runtimeKeys keys))
    (total : GatherTotal) : PhaseMethod keys GatherTotal :=
  if cmd.isEmpty then fun runtime => (.ok total, runtime)
  else
    Method.map (fun r => (total.1 + cmd.effects.length, total.2.add r.effectReport))
      (submitCommandInner env cmd)

/-- Merge commands and commit them once. -/
def commitBatch (env : ExecutionEnv keys) (commands : List (StateCommand (runtimeKeys keys)))
    (total : GatherTotal) : PhaseMethod keys GatherTotal := fun runtime =>
  match runtime.store.mergeAllCommands commands with
  | .error e => (.error e, runtime)
  | .ok merged => submitCounted env merged total runtime

/-- Re-run deferred hooks serially, each against a fresh snapshot. -/
def rerunDeferred (env : ExecutionEnv keys) (hooks : List (TaggedPhaseHook keys))
    (baseCtx : PhaseContext keys) : List (Fin hooks.length) → GatherTotal →
      PhaseMethod keys GatherTotal
  | [], total => fun runtime => (.ok total, runtime)
  | hookIdx :: rest, total => fun runtime =>
    match runHook (hooks.get hookIdx) baseCtx runtime.store.snapshot with
    | .error e => (.error e, runtime)
    | .ok cmd =>
      Method.bind (submitCounted env cmd total)
        (fun total => rerunDeferred env hooks baseCtx rest total) runtime

/-- Run phase hooks with Exclusive conflict auto-fallback. -/
def gatherAndCommitHooks (env : ExecutionEnv keys) (baseCtx : PhaseContext keys) :
    PhaseMethod keys GatherTotal := fun runtime =>
  let hooks := filterHooks env baseCtx
  if hooks.isEmpty then (.ok (0, .zero), runtime)
  else
    match runHooksIndexed hooks baseCtx runtime.store.snapshot with
    | .error e => (.error e, runtime)
    | .ok indexed =>
      if indexed.isEmpty then (.ok (0, .zero), runtime)
      else if !hasExclusiveKeyOverlap indexed runtime.store.registry.mergeStrategy then
        commitBatch env (indexed.map Prod.snd) (0, .zero) runtime
      else
        let (batch, deferred) :=
          partitionCommands runtime.store.registry.mergeStrategy [] indexed
        Method.bind
          (if batch.isEmpty then fun runtime => (.ok (0, .zero), runtime)
          else commitBatch env batch (0, .zero))
          (fun total => rerunDeferred env hooks baseCtx deferred total) runtime

end Remo
