import Remo.Native.Phase.Engine
import Remo.Spec.State.Merge

/-!
# Submitted commands

What one commit of the phase runtime does to the state: the patches of the commands run one
after another, and their actions are queued.

Key results:
* `submit_ok`      a submitted command that is accepted
* `submit_error`   why a command on the current revision is refused
* `commitBatch_ok` compatible commands on one snapshot are committed together
-/

namespace Remo

variable {keys : StateKeys}

/-! ## Single keys -/

/-- What an operation does to a key depends on the value of that key alone. -/
theorem MutationOp.apply_congr {map map' : StateMap keys} {K : keys.Key} (h : map K = map' K)
    (op : MutationOp keys) : op.apply map K = op.apply map' K := by
  cases op with
  | keyPatch K' u =>
    show map.update K' u K = map'.update K' u K
    by_cases hk : K = K'
    · subst hk
      rw [StateMap.update_self, StateMap.update_self, h]
    · rw [StateMap.update_of_ne _ _ hk, StateMap.update_of_ne _ _ hk, h]
  | clearKey K' =>
    show map.remove K' K = map'.remove K' K
    by_cases hk : K = K'
    · subst hk
      rw [StateMap.remove_self, StateMap.remove_self]
    · rw [StateMap.remove_of_ne _ hk, StateMap.remove_of_ne _ hk, h]

/-- The key an operation is about. -/
def MutationOp.target : MutationOp keys → keys.Key
  | keyPatch K _ => K
  | clearKey K => K

theorem MutationOp.apply_of_ne (map : StateMap keys) {K : keys.Key} {op : MutationOp keys}
    (h : op.target ≠ K) : op.apply map K = map K := by
  cases op with
  | keyPatch K' u => exact StateMap.update_of_ne map u (Ne.symm h)
  | clearKey K' => exact StateMap.remove_of_ne map (Ne.symm h)

theorem foldl_apply_congr {map map' : StateMap keys} {K : keys.Key} (h : map K = map' K)
    (ops : List (MutationOp keys)) :
    ops.foldl MutationOp.apply map K = ops.foldl MutationOp.apply map' K := by
  induction ops generalizing map map' with
  | nil => exact h
  | cons op ops ih => exact ih (op.apply_congr h)

theorem foldl_apply_of_ne (map : StateMap keys) {K : keys.Key} {ops : List (MutationOp keys)}
    (h : ∀ op ∈ ops, op.target ≠ K) : ops.foldl MutationOp.apply map K = map K := by
  induction ops generalizing map with
  | nil => rfl
  | cons op ops ih =>
    rw [List.foldl_cons, ih _ fun op' hop => h op' (List.mem_cons_of_mem _ hop)]
    exact MutationOp.apply_of_ne map (h op List.mem_cons_self)

/-- The patches of commands, one after another. -/
def runAll (commands : List (StateCommand keys)) (map : StateMap keys) : StateMap keys :=
  commands.foldl (fun map cmd => cmd.patch.run map) map

theorem runAll_append (commands commands' : List (StateCommand keys)) (map : StateMap keys) :
    runAll (commands ++ commands') map = runAll commands' (runAll commands map) :=
  List.foldl_append

theorem runAll_congr {map map' : StateMap keys} {K : keys.Key} (h : map K = map' K)
    (commands : List (StateCommand keys)) : runAll commands map K = runAll commands map' K := by
  induction commands generalizing map map' with
  | nil => exact h
  | cons cmd commands ih => exact ih (foldl_apply_congr h _)

theorem run_concat (base : Option Nat) (commands : List (StateCommand keys))
    (map : StateMap keys) :
    (StateCommand.concat base commands).patch.run map = runAll commands map := by
  show (commands.flatMap _).foldl _ map = _
  induction commands generalizing map with
  | nil => rfl
  | cons cmd commands ih =>
    rw [List.flatMap_cons, List.foldl_append]
    exact ih _

/-! ## The queue -/

/-- The actions that wait in the queue. -/
def pendingActions (map : StateMap (runtimeKeys keys)) : List ScheduledAction :=
  (queueEntries map).map ScheduledActionEnvelope.action

/-- The command leaves the queue to the runtime. -/
def StateCommand.KeepsQueue (cmd : StateCommand (runtimeKeys keys)) : Prop :=
  ∀ op ∈ cmd.patch.ops, op.target ≠ pendingScheduledActions keys

theorem programKey_ne (K : keys.Key) : programKey K ≠ pendingScheduledActions keys :=
  Option.some_ne_none K

theorem enqueue_cons (patch : MutationBatch (runtimeKeys keys)) (entry : ScheduledActionEnvelope)
    (entries : List ScheduledActionEnvelope) :
    enqueue patch (entry :: entries) =
      enqueue (patch.update (pendingScheduledActions keys) (queueUpdate keys (.push entry)))
        entries := rfl

theorem run_update {keys : StateKeys} (patch : MutationBatch keys) (K : keys.Key)
    (u : keys.Update K) (map : StateMap keys) :
    (patch.update K u).run map = (patch.run map).update K u := by
  simp [MutationBatch.run, MutationBatch.update, MutationOp.apply]

/-- Queueing actions does not change the keys of the program. -/
theorem run_enqueue_programKey (patch : MutationBatch (runtimeKeys keys))
    (entries : List ScheduledActionEnvelope) (map : StateMap (runtimeKeys keys)) (K : keys.Key) :
    (enqueue patch entries).run map (programKey K) = patch.run map (programKey K) := by
  induction entries generalizing patch with
  | nil => rfl
  | cons entry entries ih =>
    rw [enqueue_cons, ih, run_update, StateMap.update_of_ne _ _ (programKey_ne K)]

theorem pendingActions_push (map : StateMap (runtimeKeys keys)) (entry : ScheduledActionEnvelope) :
    pendingActions (map.update (pendingScheduledActions keys) (queueUpdate keys (.push entry))) =
      pendingActions map ++ [entry.action] := by
  have hentries : queueEntries
      (map.update (pendingScheduledActions keys) (queueUpdate keys (.push entry))) =
        queueEntries map ++ [entry] := by
    unfold queueEntries
    rw [StateMap.update_self, Option.getD_some]
    rfl
  rw [pendingActions, hentries, List.map_append]
  rfl

theorem pendingActions_run_enqueue (patch : MutationBatch (runtimeKeys keys))
    (entries : List ScheduledActionEnvelope) (map : StateMap (runtimeKeys keys)) :
    pendingActions ((enqueue patch entries).run map) =
      pendingActions (patch.run map) ++ entries.map ScheduledActionEnvelope.action := by
  induction entries generalizing patch with
  | nil => simp [enqueue]
  | cons entry entries ih =>
    rw [enqueue_cons, ih, run_update, pendingActions_push]
    simp

/-- The queue depends on its own value alone. -/
theorem pendingActions_congr {map map' : StateMap (runtimeKeys keys)}
    (h : map (pendingScheduledActions keys) = map' (pendingScheduledActions keys)) :
    pendingActions map = pendingActions map' := by
  unfold pendingActions queueEntries
  rw [h]

/-- Commands that leave the queue alone. -/
theorem pendingActions_runAll (map : StateMap (runtimeKeys keys))
    {commands : List (StateCommand (runtimeKeys keys))} (h : ∀ cmd ∈ commands, cmd.KeepsQueue) :
    pendingActions (runAll commands map) = pendingActions map := by
  apply pendingActions_congr
  induction commands generalizing map with
  | nil => rfl
  | cons cmd commands ih =>
    have hrest := ih (cmd.patch.run map) fun c hc => h c (List.mem_cons_of_mem _ hc)
    exact hrest.trans (foldl_apply_of_ne map (h cmd List.mem_cons_self))

theorem map_action_envelopes (nextId : Nat) (actions : List ScheduledAction) :
    (envelopes nextId actions).map ScheduledActionEnvelope.action = actions := by
  simp [envelopes, Function.comp_def, List.zipIdx_map_fst]

theorem ops_enqueue (patch : MutationBatch (runtimeKeys keys))
    (entries : List ScheduledActionEnvelope) :
    (enqueue patch entries).ops = patch.ops ++ entries.map fun entry =>
      .keyPatch (pendingScheduledActions keys) (queueUpdate keys (.push entry)) := by
  induction entries generalizing patch with
  | nil => simp [enqueue]
  | cons entry entries ih =>
    rw [enqueue_cons, ih]
    simp [MutationBatch.update]

theorem enqueue_baseRevision (patch : MutationBatch (runtimeKeys keys))
    (entries : List ScheduledActionEnvelope) :
    (enqueue patch entries).baseRevision = patch.baseRevision := by
  induction entries generalizing patch with
  | nil => rfl
  | cons entry entries ih => exact ih _

/-! ## Submitting -/

/-- The command writes nothing and schedules nothing. -/
def StateCommand.Quiet (cmd : StateCommand keys) : Prop :=
  cmd.patch.ops = [] ∧ cmd.scheduledActions = []

/-- A state after commands: their patches one after another, and their actions queued. -/
structure Applied (before : StateMap (runtimeKeys keys))
    (commands : List (StateCommand (runtimeKeys keys))) (after : StateMap (runtimeKeys keys)) :
    Prop where
  values : ∀ K : keys.Key, after (programKey K) = runAll commands before (programKey K)
  queue : (∀ cmd ∈ commands, cmd.KeepsQueue) →
    pendingActions after =
      pendingActions before ++ commands.flatMap StateCommand.scheduledActions

theorem Applied.nil (map : StateMap (runtimeKeys keys)) : Applied map [] map :=
  ⟨fun _ => rfl, fun _ => (List.append_nil _).symm⟩

/-- Commands after commands. -/
theorem Applied.append {a b c : StateMap (runtimeKeys keys)}
    {commands commands' : List (StateCommand (runtimeKeys keys))} (h : Applied a commands b)
    (h' : Applied b commands' c) : Applied a (commands ++ commands') c where
  values K := by
    rw [h'.values, runAll_append]
    exact runAll_congr (h.values K) commands'
  queue hkeeps := by
    rw [h'.queue fun cmd hmem => hkeeps cmd (List.mem_append_right _ hmem),
      h.queue fun cmd hmem => hkeeps cmd (List.mem_append_left _ hmem), List.flatMap_append,
      List.append_assoc]

/-- One commit of commands. -/
structure Submits (before after : PhaseRuntime keys)
    (commands : List (StateCommand (runtimeKeys keys))) : Prop where
  registry : after.store.registry = before.store.registry
  revision : (∀ cmd ∈ commands, cmd.Quiet) ∧ after.store.revision = before.store.revision ∨
    (∃ cmd ∈ commands, ¬ cmd.Quiet) ∧ after.store.revision = before.store.revision + 1
  applied : Applied before.store.inner.ext commands after.store.inner.ext

/-- Failures of optimistic concurrency: of a merge, or of a commit on another revision. -/
def StateError.isConflict : StateError → Bool
  | .parallelMergeConflict _ => true
  | .revisionConflict _ _ => true
  | .mutationBaseRevisionMismatch _ _ => true
  | .unknownKey _ => false
  | .phaseRunLoopExceeded _ _ => false
  | .unknownScheduledActionHandler _ => false
  | .unknownEffectHandler _ => false
  | .cancelled => false

variable {env : ExecutionEnv keys} {runtime : PhaseRuntime keys}

/-- The patch of a submitted command is empty when the command is quiet. -/
theorem isEmpty_enqueue {cmd : StateCommand (runtimeKeys keys)} {nextId : Nat} :
    (enqueue cmd.patch (envelopes nextId cmd.scheduledActions)).isEmpty = true ↔ cmd.Quiet := by
  simp [MutationBatch.isEmpty, ops_enqueue, StateCommand.Quiet, envelopes]

/-- A command that was accepted is in the state. -/
theorem submit_ok {cmd : StateCommand (runtimeKeys keys)} {report : SubmitCommandReport}
    {after : PhaseRuntime keys}
    (h : submitCommandInner env cmd runtime = (.ok report, after)) :
    Submits runtime after [cmd] := by
  unfold submitCommandInner at h
  split at h
  next => cases h
  next =>
    split at h
    next => cases h
    next =>
      dsimp only at h
      split at h
      next => cases h
      next revision store hcommit =>
        cases h
        obtain ⟨hregistry, hext, hrevision⟩ := commits_of_ok hcommit
        constructor
        · exact hregistry
        · by_cases hquiet : cmd.Quiet
          · left
            rw [if_pos (isEmpty_enqueue.mpr hquiet)] at hrevision
            exact ⟨by simpa using hquiet, hrevision⟩
          · right
            rw [if_neg (mt isEmpty_enqueue.mp hquiet)] at hrevision
            exact ⟨⟨cmd, List.mem_cons_self, hquiet⟩, hrevision⟩
        · constructor
          · intro K
            show store.inner.ext _ = _
            rw [hext, run_enqueue_programKey]
            rfl
          · intro hkeeps
            show pendingActions store.inner.ext = _
            rw [hext, pendingActions_run_enqueue, map_action_envelopes]
            have hrun := pendingActions_runAll runtime.store.inner.ext hkeeps
            simpa [runAll] using hrun

/-- The command can be carried out: its actions and effects have handlers, and its keys are
    registered, the queue among them. -/
structure StateCommand.Served (cmd : StateCommand (runtimeKeys keys)) (env : ExecutionEnv keys)
    (registry : PluginRegistry) : Prop where
  actions : ∀ action ∈ cmd.scheduledActions, env.scheduledActionHandlers action.key = true
  effects : ∀ effect ∈ cmd.effects, (env.effectHandlers effect.key).isSome = true
  touched : ∀ key ∈ cmd.patch.touchedKeys, (registry.keysByName.get? key).isSome = true
  queue : (registry.keysByName.get?
    ((runtimeKeys keys).key (pendingScheduledActions keys))).isSome = true

theorem touchedKeys_enqueue (patch : MutationBatch (runtimeKeys keys))
    (entries : List ScheduledActionEnvelope) :
    (enqueue patch entries).touchedKeys = patch.touchedKeys ++
      entries.map fun _ => (runtimeKeys keys).key (pendingScheduledActions keys) := by
  induction entries generalizing patch with
  | nil => simp [enqueue]
  | cons entry entries ih =>
    rw [enqueue_cons, ih]
    simp [MutationBatch.update]

/-- A command on the current revision is refused for a handler or a key that is not known. -/
theorem submit_error {cmd : StateCommand (runtimeKeys keys)} {e : StateError}
    (hbase : ∀ base ∈ cmd.patch.baseRevision, runtime.store.revision = base)
    (h : (submitCommandInner env cmd runtime).1 = .error e) :
    e.isConflict = false ∧ ¬ cmd.Served env runtime.store.registry := by
  unfold submitCommandInner at h
  split at h
  next action hfind =>
    cases h
    constructor
    · rfl
    · intro hserved
      have hunknown := List.find?_some hfind
      simp [hserved.actions action (List.mem_of_find?_eq_some hfind)] at hunknown
  next =>
    split at h
    next effect hfind =>
      cases h
      constructor
      · rfl
      · intro hserved
        have hknown := hserved.effects effect (List.mem_of_find?_eq_some hfind)
        have hunknown := List.find?_some hfind
        rw [Option.isNone_iff_eq_none] at hunknown
        simp [hunknown] at hknown
    next =>
      dsimp only at h
      split at h
      next e' hcommit =>
        cases h
        have hbase' : ∀ base ∈ (enqueue cmd.patch
            (envelopes runtime.nextId cmd.scheduledActions)).baseRevision,
              runtime.store.revision = base := by
          rw [enqueue_baseRevision]
          exact hbase
        obtain ⟨key, hmem, hunknown, rfl⟩ := commit_error hbase' hcommit
        constructor
        · rfl
        · intro hserved
          rw [touchedKeys_enqueue, List.mem_append] at hmem
          cases hmem with
          | inl h => simp [hserved.touched key h] at hunknown
          | inr h =>
            obtain ⟨_, _, rfl⟩ := List.mem_map.mp h
            simp [hserved.queue] at hunknown
      next => cases h

/-- Submitting nothing changes nothing. -/
theorem submits_of_quiet {cmd : StateCommand (runtimeKeys keys)} (h : cmd.Quiet) :
    Submits runtime runtime [cmd] where
  registry := rfl
  revision := by simp [h]
  applied :=
    { values := fun K => by simp [runAll, MutationBatch.run, h.1]
      queue := fun _ => by simp [h.2] }

theorem submitCounted_ok {cmd : StateCommand (runtimeKeys keys)} {total total' : GatherTotal}
    {after : PhaseRuntime keys} (h : submitCounted env cmd total runtime = (.ok total', after)) :
    Submits runtime after [cmd] := by
  unfold submitCounted at h
  split at h
  next hempty =>
    cases h
    apply submits_of_quiet
    simp only [StateCommand.isEmpty, Bool.and_eq_true, List.isEmpty_iff] at hempty
    exact ⟨List.isEmpty_iff.mp hempty.1.1, hempty.1.2⟩
  next =>
    obtain ⟨report, hreport, -⟩ := Method.map_ok (congrArg Prod.fst h)
    have hafter : (submitCommandInner env cmd runtime).2 = after := congrArg Prod.snd h
    exact submit_ok (Prod.ext hreport hafter)

theorem submitCounted_error {cmd : StateCommand (runtimeKeys keys)} {total : GatherTotal}
    {e : StateError} (hbase : ∀ base ∈ cmd.patch.baseRevision, runtime.store.revision = base)
    (h : (submitCounted env cmd total runtime).1 = .error e) :
    e.isConflict = false ∧ ¬ cmd.Served env runtime.store.registry := by
  unfold submitCounted at h
  split at h
  next => cases h
  next => exact submit_error hbase (Method.map_error h)

/-! ## Batches -/

variable {commands : List (StateCommand (runtimeKeys keys))}

/-- Commands committed as one are committed together. -/
theorem submits_of_concat {after : PhaseRuntime keys} {base : Option Nat}
    (h : Submits runtime after [.concat base commands]) : Submits runtime after commands := by
  have hquiet : (StateCommand.concat base commands).Quiet ↔ ∀ cmd ∈ commands, cmd.Quiet := by
    simp only [StateCommand.Quiet, StateCommand.concat, List.flatMap_eq_nil_iff]
    exact ⟨fun h cmd hmem => ⟨h.1 cmd hmem, h.2 cmd hmem⟩,
      fun h => ⟨fun cmd hmem => (h cmd hmem).1, fun cmd hmem => (h cmd hmem).2⟩⟩
  constructor
  · exact h.registry
  · cases h.revision with
    | inl h =>
      left
      exact ⟨hquiet.mp (h.1 _ List.mem_cons_self), h.2⟩
    | inr h =>
      right
      obtain ⟨⟨cmd, hmem, hnot⟩, hrevision⟩ := h
      obtain rfl := List.mem_singleton.mp hmem
      rw [hquiet] at hnot
      exact ⟨by simpa using hnot, hrevision⟩
  · constructor
    · intro K
      rw [h.applied.values K]
      show (StateCommand.concat base commands).patch.run _ _ = _
      rw [run_concat]
    · intro hkeeps
      have hkeeps' : (StateCommand.concat base commands).KeepsQueue := by
        intro op hop
        obtain ⟨cmd, hmem, hop⟩ := List.mem_flatMap.mp hop
        exact hkeeps cmd hmem op hop
      rw [h.applied.queue (by simpa using hkeeps')]
      simp [StateCommand.concat]

/-- Compatible commands on one revision are merged. -/
theorem mergeAllCommands_of_compatible {store : StateStore (runtimeKeys keys)} {revision : Nat}
    (hbase : ∀ cmd ∈ commands, cmd.patch.baseRevision = some revision)
    (hcompatible : commands.Pairwise (StateCommand.Compatible store.registry.mergeStrategy)) :
    ∃ base, store.mergeAllCommands commands = .ok (.concat base commands) ∧
      ∀ b ∈ base, revision = b := by
  have hbases : ∃ base, reconcileAll none (commands.map fun c => c.patch.baseRevision) = .ok base ∧
      ∀ b ∈ base, revision = b := by
    cases commands with
    | nil => exact ⟨none, rfl, by simp⟩
    | cons cmd rest =>
      use some revision
      constructor
      · apply reconcileAll_eq_ok.mpr
        intro r
        constructor
        · intro hr
          have hfirst := hbase cmd List.mem_cons_self
          simp [hfirst, hr]
        · intro hr
          simp only [List.mem_cons, List.mem_map, reduceCtorEq, false_or] at hr
          obtain ⟨c, hc, hcr⟩ := hr
          rw [← hcr]
          exact (hbase c (by simpa using hc)).symm
      · simp
  obtain ⟨base, hbase, hrevision⟩ := hbases
  exact ⟨base, mergeAllCommands_eq_ok.mpr ⟨base, hbase, hcompatible, rfl⟩, hrevision⟩

theorem commitBatch_ok {total total' : GatherTotal} {after : PhaseRuntime keys}
    (h : commitBatch env commands total runtime = (.ok total', after)) :
    Submits runtime after commands := by
  unfold commitBatch at h
  split at h
  next => cases h
  next merged hmerge =>
    obtain ⟨base, -, -, rfl⟩ := mergeAllCommands_eq_ok.mp hmerge
    exact submits_of_concat (submitCounted_ok h)

/-- Commands that can be carried out are carried out together. -/
theorem served_concat {base : Option Nat} {registry : PluginRegistry} (hne : commands ≠ [])
    (h : ∀ cmd ∈ commands, cmd.Served env registry) :
    (StateCommand.concat base commands).Served env registry where
  actions action hmem := by
    obtain ⟨cmd, hcmd, hmem⟩ := List.mem_flatMap.mp hmem
    exact (h cmd hcmd).actions action hmem
  effects effect hmem := by
    obtain ⟨cmd, hcmd, hmem⟩ := List.mem_flatMap.mp hmem
    exact (h cmd hcmd).effects effect hmem
  touched key hmem := by
    obtain ⟨cmd, hcmd, hmem⟩ := List.mem_flatMap.mp hmem
    exact (h cmd hcmd).touched key hmem
  queue := by
    obtain ⟨cmd, hcmd⟩ := List.exists_mem_of_ne_nil commands hne
    exact (h cmd hcmd).queue

theorem commitBatch_error {total : GatherTotal} {e : StateError} (hne : commands ≠ [])
    (hbase : ∀ cmd ∈ commands, cmd.patch.baseRevision = some runtime.store.revision)
    (hcompatible :
      commands.Pairwise (StateCommand.Compatible runtime.store.registry.mergeStrategy))
    (h : (commitBatch env commands total runtime).1 = .error e) :
    e.isConflict = false ∧ ∃ cmd ∈ commands, ¬ cmd.Served env runtime.store.registry := by
  obtain ⟨base, hmerge, hrevision⟩ := mergeAllCommands_of_compatible hbase hcompatible
  unfold commitBatch at h
  rw [hmerge] at h
  obtain ⟨hconflict, hserved⟩ := submitCounted_error hrevision h
  constructor
  · exact hconflict
  · by_contra hall
    apply hserved
    apply served_concat hne
    simpa using hall

end Remo
