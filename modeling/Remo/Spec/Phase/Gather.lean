import Remo.Spec.Phase.Submit

/-!
# Gathering hooks

The hooks of a phase against one snapshot: which of their commands are committed together,
which hooks are run again, and that nothing is lost.

Key results:
* `partition_spec`   the greedy partition keeps every command, and its batch is compatible
* `rerunDeferred_ok` the deferred hooks, one after another
* `gatherAndCommitHooks_law` no conflict, one run for each hook, and the state after them
-/

namespace Remo

variable {keys : StateKeys} {strategy : String → MergeStrategy}

/-! ## Conflict tests -/

/-- The exclusive ones among the keys. -/
def exclusiveKeys (strategy : String → MergeStrategy) (touched : List String) : List String :=
  touched.filter fun key => strategy key = .exclusive

theorem mem_exclusiveKeys {touched : List String} {key : String} :
    key ∈ exclusiveKeys strategy touched ↔ key ∈ touched ∧ strategy key = .exclusive := by
  simp [exclusiveKeys]

theorem compatible_iff_disjoint {a b : StateCommand keys} :
    a.Compatible strategy b ↔ (exclusiveKeys strategy a.patch.touchedKeys).Disjoint
      (exclusiveKeys strategy b.patch.touchedKeys) := by
  unfold StateCommand.Compatible List.Disjoint
  simp only [mem_exclusiveKeys, ← ne_exclusive]
  grind

/-- Without overlap no exclusive key occurs twice, nor is one that was seen before. -/
theorem overlapFrom_eq_false {seen l : List String} :
    overlapFrom strategy seen l = false ↔
      (exclusiveKeys strategy l).Nodup ∧ (exclusiveKeys strategy l).Disjoint seen := by
  induction l generalizing seen with
  | nil => simp [overlapFrom, exclusiveKeys]
  | cons key l ih =>
    by_cases hexcl : strategy key = .exclusive
    · have hkeys : exclusiveKeys strategy (key :: l) = key :: exclusiveKeys strategy l := by
        simp [exclusiveKeys, hexcl]
      rw [overlapFrom, if_pos hexcl, hkeys]
      by_cases hseen : key ∈ seen
      · simp [hseen]
      · rw [if_neg hseen, ih]
        simp only [List.nodup_cons, List.disjoint_cons_left, List.disjoint_cons_right]
        grind
    · have hkeys : exclusiveKeys strategy (key :: l) = exclusiveKeys strategy l := by
        simp [exclusiveKeys, hexcl]
      rw [overlapFrom, if_neg hexcl, hkeys, ih]

/-- Commands without overlap are compatible. -/
theorem pairwise_of_no_overlap {n : Nat}
    {commands : List (Fin n × StateCommand (runtimeKeys keys))}
    (h : hasExclusiveKeyOverlap commands strategy = false) :
    (commands.map Prod.snd).Pairwise (StateCommand.Compatible strategy) := by
  have hnodup := (overlapFrom_eq_false.mp h).1
  have hflat : exclusiveKeys strategy (commands.flatMap fun entry => entry.2.patch.touchedKeys) =
      commands.flatMap fun entry => exclusiveKeys strategy entry.2.patch.touchedKeys := by
    simp [exclusiveKeys, List.filter_flatMap]
  rw [hflat, List.nodup_flatMap] at hnodup
  rw [List.pairwise_map]
  exact hnodup.2.imp fun h => compatible_iff_disjoint.mpr h

/-- The partition keeps every command, in the batch or by its index, and the batch is
    compatible and free of the exclusive keys that were taken before. -/
theorem partition_spec {n : Nat} (taken : List String)
    (commands : List (Fin n × StateCommand (runtimeKeys keys))) :
    ∃ batch deferred : List (Fin n × StateCommand (runtimeKeys keys)),
      partitionCommands strategy taken commands = (batch.map Prod.snd, deferred.map Prod.fst) ∧
      (batch ++ deferred).Perm commands ∧
      (batch.map Prod.snd).Pairwise (StateCommand.Compatible strategy) ∧
      ∀ entry ∈ batch, (exclusiveKeys strategy entry.2.patch.touchedKeys).Disjoint taken := by
  induction commands generalizing taken with
  | nil => exact ⟨[], [], rfl, .refl _, .nil, by simp⟩
  | cons entry commands ih =>
    obtain ⟨hookIdx, cmd⟩ := entry
    unfold partitionCommands
    split
    next hconflict =>
      obtain ⟨batch, deferred, hsplit, hperm, hpair, hfree⟩ := ih taken
      refine ⟨batch, (hookIdx, cmd) :: deferred, ?_, ?_, hpair, hfree⟩
      · rw [hsplit]
        rfl
      · exact List.perm_middle.trans (hperm.cons _)
    next hfits =>
      obtain ⟨batch, deferred, hsplit, hperm, hpair, hfree⟩ :=
        ih (exclusiveKeys strategy cmd.patch.touchedKeys ++ taken)
      refine ⟨(hookIdx, cmd) :: batch, deferred, ?_, hperm.cons _, ?_, ?_⟩
      · have hsplit' : partitionCommands strategy
            ((cmd.patch.touchedKeys.filter fun k => strategy k = .exclusive) ++ taken) commands =
              (batch.map Prod.snd, deferred.map Prod.fst) := hsplit
        dsimp only
        rw [hsplit']
        rfl
      · rw [List.map_cons, List.pairwise_cons]
        constructor
        · intro c hc
          obtain ⟨entry, hentry, rfl⟩ := List.mem_map.mp hc
          have hdisjoint := List.disjoint_append_right.mp (hfree entry hentry)
          exact compatible_iff_disjoint.mpr hdisjoint.1.symm
        · exact hpair
      · intro entry hentry
        cases List.mem_cons.mp hentry with
        | inl h =>
          -- the command was taken for it shares no key with those taken before
          subst h
          intro key hkey htaken
          obtain ⟨htouched, hexcl⟩ := mem_exclusiveKeys.mp hkey
          apply hfits
          simp only [List.any_eq_true, Bool.and_eq_true, decide_eq_true_eq]
          exact ⟨key, htouched, hexcl, htaken⟩
        | inr h => exact (List.disjoint_append_right.mp (hfree entry h)).2

/-! ## Hooks run again -/

/-- A run of a hook on a snapshot, with its command. -/
structure HookRun (keys : StateKeys) (n : Nat) where
  hook : Fin n
  snapshot : Snapshot (runtimeKeys keys)
  command : StateCommand (runtimeKeys keys)

/-- A pure hook: it returns a command, leaves the base revision unset, and touches the keys
    of its operations, which are registered. -/
def TaggedPhaseHook.Pure (tagged : TaggedPhaseHook keys) (registry : PluginRegistry) : Prop :=
  ∀ ctx, ∃ cmd, tagged.run ctx = .ok cmd ∧ cmd.patch.baseRevision = none ∧
    cmd.patch.Recorded ∧
    ∀ key ∈ cmd.patch.touchedKeys, (registry.keysByName.get? key).isSome = true

variable {hooks : List (TaggedPhaseHook keys)} {baseCtx : PhaseContext keys}
  {env : ExecutionEnv keys}

/-- The command of a pure hook is on the revision of its snapshot. -/
theorem runHook_of_pure {tagged : TaggedPhaseHook keys} {registry : PluginRegistry}
    (hpure : tagged.Pure registry) (baseCtx : PhaseContext keys)
    (snapshot : Snapshot (runtimeKeys keys)) :
    ∃ cmd, runHook tagged baseCtx snapshot = .ok cmd ∧
      cmd.patch.baseRevision = some snapshot.revision ∧ cmd.patch.Recorded := by
  obtain ⟨cmd, hrun, hbase, hrecorded, -⟩ := hpure (baseCtx.withSnapshot snapshot)
  use cmd.withBaseRevision snapshot.revision
  constructor
  · unfold runHook
    rw [hrun]
    show Except.ok _ = _
    rw [hbase]
    rfl
  · exact ⟨rfl, hrecorded⟩

/-- Whatever the hook returns can be carried out. -/
def TaggedPhaseHook.Served (tagged : TaggedPhaseHook keys) (env : ExecutionEnv keys)
    (registry : PluginRegistry) : Prop :=
  ∀ ctx cmd, tagged.run ctx = .ok cmd → cmd.Served env registry

theorem served_runHook {tagged : TaggedPhaseHook keys} {registry : PluginRegistry}
    (hserved : tagged.Served env registry) {snapshot : Snapshot (runtimeKeys keys)}
    {cmd : StateCommand (runtimeKeys keys)} (h : runHook tagged baseCtx snapshot = .ok cmd) :
    cmd.Served env registry := by
  obtain ⟨cmd', hrun, h⟩ := exists_of_bind_ok h
  obtain ⟨hactions, heffects, htouched, hqueue⟩ := hserved _ _ hrun
  obtain rfl := Except.ok.inj h
  split
  next => exact ⟨hactions, heffects, htouched, hqueue⟩
  next => exact ⟨hactions, heffects, htouched, hqueue⟩

/-- Hooks run one after another, each on the state the ones before it left. -/
inductive Reruns (hooks : List (TaggedPhaseHook keys)) (baseCtx : PhaseContext keys) :
    PhaseRuntime keys → List (HookRun keys hooks.length) → PhaseRuntime keys → Prop
  | nil (runtime : PhaseRuntime keys) : Reruns hooks baseCtx runtime [] runtime
  | cons {before middle after : PhaseRuntime keys} {i : Fin hooks.length}
      {cmd : StateCommand (runtimeKeys keys)} {runs : List (HookRun keys hooks.length)} :
      runHook (hooks.get i) baseCtx before.store.snapshot = .ok cmd → Submits before middle [cmd] →
      Reruns hooks baseCtx middle runs after →
      Reruns hooks baseCtx before (⟨i, before.store.snapshot, cmd⟩ :: runs) after

theorem rerunDeferred_ok {deferred : List (Fin hooks.length)} {total total' : GatherTotal}
    {runtime after : PhaseRuntime keys}
    (h : rerunDeferred env hooks baseCtx deferred total runtime = (.ok total', after)) :
    ∃ runs, Reruns hooks baseCtx runtime runs after ∧ runs.map HookRun.hook = deferred := by
  induction deferred generalizing total runtime with
  | nil =>
    cases h
    exact ⟨[], .nil _, rfl⟩
  | cons i deferred ih =>
    unfold rerunDeferred at h
    split at h
    next => cases h
    next cmd hcmd =>
      unfold Method.bind at h
      split at h
      next => cases h
      next total₁ middle hsubmit =>
        obtain ⟨runs, hruns, hhooks⟩ := ih h
        have hreruns := Reruns.cons hcmd (submitCounted_ok hsubmit) hruns
        exact ⟨_, hreruns, by rw [List.map_cons, hhooks]⟩

theorem rerunDeferred_error {registry : PluginRegistry}
    (hpure : ∀ tagged ∈ hooks, tagged.Pure registry) {deferred : List (Fin hooks.length)}
    {total : GatherTotal} {runtime : PhaseRuntime keys} {e : StateError}
    (h : (rerunDeferred env hooks baseCtx deferred total runtime).1 = .error e) :
    e.isConflict = false ∧ ¬ ∀ tagged ∈ hooks, tagged.Served env runtime.store.registry := by
  induction deferred generalizing total runtime with
  | nil => cases h
  | cons i deferred ih =>
    have hmem : hooks.get i ∈ hooks := List.get_mem _ _
    obtain ⟨cmd, hrun, hbase, -⟩ :=
      runHook_of_pure (hpure _ hmem) baseCtx runtime.store.snapshot
    unfold rerunDeferred at h
    rw [hrun] at h
    unfold Method.bind at h
    dsimp only at h
    split at h
    next e' _ hsubmit =>
      cases h
      have hcurrent : ∀ base ∈ cmd.patch.baseRevision, runtime.store.revision = base := by
        intro base hmem
        rw [hbase] at hmem
        exact Option.some.inj hmem
      obtain ⟨hconflict, hunserved⟩ := submitCounted_error hcurrent (congrArg Prod.fst hsubmit)
      exact ⟨hconflict, fun hall => hunserved (served_runHook (hall _ hmem) hrun)⟩
    next total' middle hsubmit =>
      have hregistry := (submitCounted_ok hsubmit).registry
      rw [← hregistry]
      exact ih h

namespace Reruns

variable {before after : PhaseRuntime keys} {runs : List (HookRun keys hooks.length)}

theorem computed (h : Reruns hooks baseCtx before runs after) :
    ∀ run ∈ runs, runHook (hooks.get run.hook) baseCtx run.snapshot = .ok run.command := by
  induction h with
  | nil _ => simp
  | cons hcmd _ _ ih =>
    intro run hrun
    cases List.mem_cons.mp hrun with
    | inl h =>
      subst h
      exact hcmd
    | inr h => exact ih run h

theorem applied (h : Reruns hooks baseCtx before runs after) :
    Applied before.store.inner.ext (runs.map HookRun.command) after.store.inner.ext := by
  induction h with
  | nil runtime => exact .nil _
  | cons _ hsubmit _ ih => exact hsubmit.applied.append ih

/-- The snapshot of a run holds the commands of the runs before it. -/
theorem serial (h : Reruns hooks baseCtx before runs after)
    {pre post : List (HookRun keys hooks.length)} {run : HookRun keys hooks.length}
    (hsplit : runs = pre ++ run :: post) :
    Applied before.store.inner.ext (pre.map HookRun.command) run.snapshot.ext := by
  induction h generalizing pre with
  | nil _ => simp at hsplit
  | @cons before middle after i cmd runs hcmd hsubmit hrest ih =>
    cases pre with
    | nil =>
      obtain ⟨rfl, -⟩ := List.cons.inj hsplit
      exact .nil _
    | cons first pre =>
      rw [List.cons_append] at hsplit
      obtain ⟨rfl, hrest'⟩ := List.cons.inj hsplit
      exact hsubmit.applied.append (ih hrest')

theorem revision_le (h : Reruns hooks baseCtx before runs after) :
    ∀ run ∈ runs, before.store.revision ≤ run.snapshot.revision := by
  induction h with
  | nil _ => simp
  | @cons before middle after i cmd runs hcmd hsubmit hrest ih =>
    have hmiddle : before.store.revision ≤ middle.store.revision := by
      cases hsubmit.revision with
      | inl h => omega
      | inr h => omega
    intro run hrun
    cases List.mem_cons.mp hrun with
    | inl h =>
      subst h
      exact Nat.le_refl _
    | inr h => exact hmiddle.trans (ih run h)

end Reruns

/-- A command that writes nothing is compatible with any other. -/
theorem compatible_of_quiet {a b : StateCommand keys} (hrecorded : a.patch.Recorded)
    (h : a.Quiet) : a.Compatible strategy b := by
  intro key _ hkey
  rw [hrecorded, h.1] at hkey
  cases hkey

/-- Commands computed on one revision share no exclusive key. -/
def HookRun.Fenced {n : Nat} (strategy : String → MergeStrategy) (a b : HookRun keys n) : Prop :=
  a.snapshot.revision = b.snapshot.revision → a.command.Compatible strategy b.command

/-- What was committed between two snapshots sets them apart, unless it wrote nothing. -/
theorem fenced_of_submits {n : Nat} {before middle : PhaseRuntime keys}
    {commands : List (StateCommand (runtimeKeys keys))} (hsubmit : Submits before middle commands)
    {a b : HookRun keys n} (hmem : a.command ∈ commands) (hrecorded : a.command.patch.Recorded)
    (ha : a.snapshot.revision = before.store.revision)
    (hb : middle.store.revision ≤ b.snapshot.revision) : a.Fenced strategy b := by
  intro hsame
  cases hsubmit.revision with
  | inl h => exact compatible_of_quiet hrecorded (h.1 _ hmem)
  | inr h =>
    have := h.2
    omega

theorem Reruns.fenced {before after : PhaseRuntime keys}
    {runs : List (HookRun keys hooks.length)} (h : Reruns hooks baseCtx before runs after)
    (hrecorded : ∀ run ∈ runs, run.command.patch.Recorded) :
    runs.Pairwise (HookRun.Fenced strategy) := by
  induction h with
  | nil _ => exact .nil
  | cons hcmd hsubmit hrest ih =>
    apply List.pairwise_cons.mpr
    constructor
    · intro run hrun
      exact fenced_of_submits hsubmit List.mem_cons_self (hrecorded _ List.mem_cons_self) rfl
        (hrest.revision_le run hrun)
    · exact ih fun run hrun => hrecorded run (List.mem_cons_of_mem _ hrun)

/-! ## The first runs -/

/-- The hook returns a command on the snapshot that is not empty. -/
def respondsOn (hooks : List (TaggedPhaseHook keys)) (baseCtx : PhaseContext keys)
    (snapshot : Snapshot (runtimeKeys keys)) (i : Fin hooks.length) : Bool :=
  match runHook (hooks.get i) baseCtx snapshot with
  | .ok cmd => !cmd.isEmpty
  | .error _ => false

theorem mapM_runHook {snapshot : Snapshot (runtimeKeys keys)} {l : List (Fin hooks.length)}
    {results : List (Fin hooks.length × StateCommand (runtimeKeys keys))}
    (h : (l.mapM fun i => do
      let cmd ← runHook (hooks.get i) baseCtx snapshot
      .ok (i, cmd)) = .ok results) :
    (results.filter fun result => !result.2.isEmpty).map Prod.fst =
        l.filter (respondsOn hooks baseCtx snapshot) ∧
      ∀ result ∈ results, runHook (hooks.get result.1) baseCtx snapshot = .ok result.2 := by
  induction l generalizing results with
  | nil =>
    obtain rfl : [] = results := Except.ok.inj h
    simp
  | cons i l ih =>
    rw [List.mapM_cons] at h
    obtain ⟨result, hresult, h⟩ := exists_of_bind_ok h
    obtain ⟨rest, hrest, h⟩ := exists_of_bind_ok h
    obtain rfl : result :: rest = results := Except.ok.inj h
    obtain ⟨cmd, hcmd, hpair⟩ := exists_of_bind_ok hresult
    obtain rfl : (i, cmd) = result := Except.ok.inj hpair
    obtain ⟨hindices, hruns⟩ := ih hrest
    constructor
    · have hresponds : respondsOn hooks baseCtx snapshot i = !cmd.isEmpty := by
        unfold respondsOn
        rw [hcmd]
      rw [List.filter_cons, List.filter_cons, hresponds]
      cases cmd.isEmpty <;> simp [hindices]
    · intro result hmem
      cases List.mem_cons.mp hmem with
      | inl h =>
        subst h
        exact hcmd
      | inr h => exact hruns result h

theorem mapM_runHook_of_pure {registry : PluginRegistry}
    (hpure : ∀ tagged ∈ hooks, tagged.Pure registry) (baseCtx : PhaseContext keys)
    (snapshot : Snapshot (runtimeKeys keys)) (l : List (Fin hooks.length)) :
    ∃ results, (l.mapM fun i => do
      let cmd ← runHook (hooks.get i) baseCtx snapshot
      .ok (i, cmd)) = .ok results := by
  induction l with
  | nil => exact ⟨[], rfl⟩
  | cons i l ih =>
    obtain ⟨cmd, hrun, -⟩ :=
      runHook_of_pure (hpure (hooks.get i) (List.get_mem _ _)) baseCtx snapshot
    obtain ⟨results, hresults⟩ := ih
    rw [List.mapM_cons, hresults, hrun]
    exact ⟨(i, cmd) :: results, rfl⟩

/-- What the first runs return: one entry for each hook that responds. -/
theorem runHooksIndexed_spec {registry : PluginRegistry}
    (hpure : ∀ tagged ∈ hooks, tagged.Pure registry) (baseCtx : PhaseContext keys)
    (snapshot : Snapshot (runtimeKeys keys)) :
    ∃ indexed, runHooksIndexed hooks baseCtx snapshot = .ok indexed ∧
      indexed.map Prod.fst = (List.finRange hooks.length).filter
        (respondsOn hooks baseCtx snapshot) ∧
      ∀ entry ∈ indexed, runHook (hooks.get entry.1) baseCtx snapshot = .ok entry.2 := by
  obtain ⟨results, hresults⟩ :=
    mapM_runHook_of_pure hpure baseCtx snapshot (List.finRange hooks.length)
  obtain ⟨hindices, hruns⟩ := mapM_runHook hresults
  use results.filter fun result => !result.2.isEmpty
  constructor
  · unfold runHooksIndexed
    rw [hresults]
    rfl
  · exact ⟨hindices, fun entry hmem => hruns entry (List.mem_of_mem_filter hmem)⟩

/-! ## Gathering -/

/-- What gathering did: a batch of runs on the first snapshot, then the deferred runs. -/
structure Gathered (hooks : List (TaggedPhaseHook keys)) (baseCtx : PhaseContext keys)
    (before after : PhaseRuntime keys) (batch deferred : List (HookRun keys hooks.length)) :
    Prop where
  once : ((batch ++ deferred).map HookRun.hook).Perm
    ((List.finRange hooks.length).filter (respondsOn hooks baseCtx before.store.snapshot))
  computed : ∀ run ∈ batch ++ deferred,
    runHook (hooks.get run.hook) baseCtx run.snapshot = .ok run.command
  first : ∀ run ∈ batch, run.snapshot = before.store.snapshot
  serial : ∀ pre run post, deferred = pre ++ run :: post →
    Applied before.store.inner.ext ((batch ++ pre).map HookRun.command) run.snapshot.ext
  fenced : (batch ++ deferred).Pairwise (HookRun.Fenced before.store.registry.mergeStrategy)
  applied : Applied before.store.inner.ext ((batch ++ deferred).map HookRun.command)
    after.store.inner.ext

/-- A batch that was committed, and the runs after it. -/
theorem gathered_of_submits {registry : PluginRegistry}
    (hpure : ∀ tagged ∈ hooks, tagged.Pure registry) {before middle after : PhaseRuntime keys}
    {indexed batch deferred : List (Fin hooks.length × StateCommand (runtimeKeys keys))}
    {runs : List (HookRun keys hooks.length)}
    (hindices : indexed.map Prod.fst = (List.finRange hooks.length).filter
      (respondsOn hooks baseCtx before.store.snapshot))
    (hfirst : ∀ entry ∈ indexed,
      runHook (hooks.get entry.1) baseCtx before.store.snapshot = .ok entry.2)
    (hperm : (batch ++ deferred).Perm indexed)
    (hpair : (batch.map Prod.snd).Pairwise
      (StateCommand.Compatible before.store.registry.mergeStrategy))
    (hsubmit : Submits before middle (batch.map Prod.snd))
    (hreruns : Reruns hooks baseCtx middle runs after)
    (hhooks : runs.map HookRun.hook = deferred.map Prod.fst) :
    Gathered hooks baseCtx before after
      (batch.map fun entry => ⟨entry.1, before.store.snapshot, entry.2⟩) runs := by
  have hcommands : (batch.map fun entry =>
      (⟨entry.1, before.store.snapshot, entry.2⟩ : HookRun keys hooks.length)).map
        HookRun.command = batch.map Prod.snd := by
    rw [List.map_map]
    rfl
  have hcomputed : ∀ run ∈ (batch.map fun entry =>
      (⟨entry.1, before.store.snapshot, entry.2⟩ : HookRun keys hooks.length)) ++ runs,
        runHook (hooks.get run.hook) baseCtx run.snapshot = .ok run.command := by
    intro run hrun
    cases List.mem_append.mp hrun with
    | inl h =>
      obtain ⟨entry, hentry, rfl⟩ := List.mem_map.mp h
      exact hfirst entry (hperm.subset (List.mem_append_left _ hentry))
    | inr h => exact hreruns.computed run h
  have hrecorded : ∀ run ∈ (batch.map fun entry =>
      (⟨entry.1, before.store.snapshot, entry.2⟩ : HookRun keys hooks.length)) ++ runs,
        run.command.patch.Recorded := by
    intro run hrun
    obtain ⟨cmd, hcmd, -, hrecorded⟩ :=
      runHook_of_pure (hpure (hooks.get run.hook) (List.get_mem _ _)) baseCtx run.snapshot
    obtain rfl := Except.ok.inj (hcmd.symm.trans (hcomputed run hrun))
    exact hrecorded
  constructor
  · rw [List.map_append, List.map_map, hhooks, ← hindices]
    have h := hperm.map Prod.fst
    rwa [List.map_append] at h
  · exact hcomputed
  · intro run hrun
    obtain ⟨entry, -, rfl⟩ := List.mem_map.mp hrun
    rfl
  · intro pre run post hsplit
    rw [List.map_append, hcommands]
    exact hsubmit.applied.append (hreruns.serial hsplit)
  · apply List.pairwise_append.mpr
    constructor
    · rw [List.pairwise_map]
      rw [List.pairwise_map] at hpair
      apply hpair.imp
      intro a b h _
      exact h
    · constructor
      · exact hreruns.fenced fun run hrun => hrecorded run (List.mem_append_right _ hrun)
      · intro a ha b hb
        have hentry := ha
        obtain ⟨entry, hmem, rfl⟩ := List.mem_map.mp hentry
        apply fenced_of_submits hsubmit (List.mem_map_of_mem hmem)
        · exact hrecorded _ (List.mem_append_left _ ha)
        · rfl
        · exact hreruns.revision_le b hb
  · rw [List.map_append, hcommands]
    exact hsubmit.applied.append hreruns.applied

/-- How gathering ends: with no conflict and only for a command that cannot be carried out,
    or with a batch and the deferred runs. -/
def GatherOutcome (env : ExecutionEnv keys) (hooks : List (TaggedPhaseHook keys))
    (baseCtx : PhaseContext keys) (before : PhaseRuntime keys)
    (outcome : Except StateError GatherTotal × PhaseRuntime keys) : Prop :=
  match outcome with
  | (.error e, _) => e.isConflict = false ∧
      ¬ ∀ tagged ∈ hooks, tagged.Served env before.store.registry
  | (.ok _, after) => ∃ batch deferred, Gathered hooks baseCtx before after batch deferred

theorem submits_nil (runtime : PhaseRuntime keys) : Submits runtime runtime [] where
  registry := rfl
  revision := by simp
  applied := .nil _

/-- A batch and the deferred runs after it. -/
theorem gatherOutcome_of_batch {before : PhaseRuntime keys}
    (hpure : ∀ tagged ∈ hooks, tagged.Pure before.store.registry)
    {indexed batch deferred : List (Fin hooks.length × StateCommand (runtimeKeys keys))}
    (hindices : indexed.map Prod.fst = (List.finRange hooks.length).filter
      (respondsOn hooks baseCtx before.store.snapshot))
    (hfirst : ∀ entry ∈ indexed,
      runHook (hooks.get entry.1) baseCtx before.store.snapshot = .ok entry.2)
    (hperm : (batch ++ deferred).Perm indexed)
    (hpair : (batch.map Prod.snd).Pairwise
      (StateCommand.Compatible before.store.registry.mergeStrategy)) :
    GatherOutcome env hooks baseCtx before (Method.bind
      (if (batch.map Prod.snd).isEmpty then fun runtime => (.ok (0, .zero), runtime)
      else commitBatch env (batch.map Prod.snd) (0, .zero))
      (fun total => rerunDeferred env hooks baseCtx (deferred.map Prod.fst) total) before) := by
  have hbatch : ∀ entry ∈ batch,
      runHook (hooks.get entry.1) baseCtx before.store.snapshot = .ok entry.2 :=
    fun entry hmem => hfirst entry (hperm.subset (List.mem_append_left _ hmem))
  have hbase : ∀ cmd ∈ batch.map Prod.snd,
      cmd.patch.baseRevision = some before.store.revision := by
    intro cmd hmem
    obtain ⟨entry, hentry, rfl⟩ := List.mem_map.mp hmem
    obtain ⟨cmd, hcmd, hbase, -⟩ :=
      runHook_of_pure (hpure (hooks.get entry.1) (List.get_mem _ _)) baseCtx before.store.snapshot
    obtain rfl := Except.ok.inj (hcmd.symm.trans (hbatch entry hentry))
    exact hbase
  unfold Method.bind
  cases hcommit : (if (batch.map Prod.snd).isEmpty then fun runtime => (.ok (0, .zero), runtime)
      else commitBatch env (batch.map Prod.snd) (0, .zero) :
        PhaseMethod keys GatherTotal) before with
  | mk result middle =>
    cases result with
    | error e =>
      split at hcommit
      next => cases hcommit
      next hne =>
        have hne' : batch.map Prod.snd ≠ [] := by simpa using hne
        obtain ⟨hconflict, cmd, hmem, hunserved⟩ :=
          commitBatch_error hne' hbase hpair (congrArg Prod.fst hcommit)
        obtain ⟨entry, hentry, rfl⟩ := List.mem_map.mp hmem
        exact ⟨hconflict, fun hall =>
          hunserved (served_runHook (hall _ (List.get_mem _ _)) (hbatch entry hentry))⟩
    | ok total =>
      have hsubmit : Submits before middle (batch.map Prod.snd) := by
        split at hcommit
        next hempty =>
          cases hcommit
          rw [List.isEmpty_iff.mp hempty]
          exact submits_nil _
        next => exact commitBatch_ok hcommit
      dsimp only
      cases hrest : rerunDeferred env hooks baseCtx (deferred.map Prod.fst) total middle with
      | mk result after =>
        cases result with
        | error e =>
          have hfail := rerunDeferred_error hpure (congrArg Prod.fst hrest)
          rw [hsubmit.registry] at hfail
          exact hfail
        | ok total' =>
          obtain ⟨runs, hreruns, hhooks⟩ := rerunDeferred_ok hrest
          exact ⟨_, _, gathered_of_submits hpure hindices hfirst hperm hpair hsubmit hreruns
            hhooks⟩

theorem gather_outcome {before : PhaseRuntime keys}
    (hpure : ∀ tagged ∈ filterHooks env baseCtx, tagged.Pure before.store.registry) :
    GatherOutcome env (filterHooks env baseCtx) baseCtx before
      (gatherAndCommitHooks env baseCtx before) := by
  unfold gatherAndCommitHooks
  generalize filterHooks env baseCtx = hooks at *
  obtain ⟨indexed, hindexed, hindices, hfirst⟩ :=
    runHooksIndexed_spec hpure baseCtx before.store.snapshot
  have hnothing : indexed = [] → ∃ batch deferred,
      Gathered hooks baseCtx before before batch deferred := by
    intro hnil
    subst hnil
    have hperm : (([] : List (Fin hooks.length × StateCommand (runtimeKeys keys))) ++ []).Perm
        [] := .refl _
    exact ⟨[], [], gathered_of_submits hpure hindices hfirst hperm .nil (submits_nil _) (.nil _)
      rfl⟩
  dsimp only
  rw [hindexed]
  dsimp only
  split
  next hempty =>
    -- without hooks nothing responds
    obtain rfl := List.isEmpty_iff.mp hempty
    exact hnothing (by simpa using hindices)
  next =>
    split
    next hempty => exact hnothing (List.isEmpty_iff.mp hempty)
    next hne =>
      split
      next hno =>
        have hpair := pairwise_of_no_overlap (by simpa using hno)
        have hbatch : GatherOutcome env hooks baseCtx before _ :=
          gatherOutcome_of_batch hpure hindices hfirst (by rw [List.append_nil]) hpair
        rw [if_neg (by simpa using hne)] at hbatch
        change GatherOutcome _ _ _ _ (Method.bind _ (fun a s => (.ok a, s)) before) at hbatch
        rw [Method.bind_ok] at hbatch
        exact hbatch
      next =>
        obtain ⟨batch, deferred, hsplit, hperm, hpair, -⟩ :=
          @partition_spec _ before.store.registry.mergeStrategy _ [] indexed
        rw [hsplit]
        exact gatherOutcome_of_batch hpure hindices hfirst hperm hpair

/-- Pure hooks lose nothing: gathering meets no conflict, it returns whenever the commands
    can be carried out, and it has then run every hook that responds once more or once in
    the batch, and committed the commands in that order. -/
theorem gatherAndCommitHooks_law (env : ExecutionEnv keys) (baseCtx : PhaseContext keys)
    (before : PhaseRuntime keys)
    (hpure : ∀ tagged ∈ filterHooks env baseCtx, tagged.Pure before.store.registry) :
    (∀ e, (gatherAndCommitHooks env baseCtx before).1 = .error e → e.isConflict = false) ∧
    ((∀ tagged ∈ filterHooks env baseCtx, tagged.Served env before.store.registry) →
      ∃ total, (gatherAndCommitHooks env baseCtx before).1 = .ok total) ∧
    ∀ total after, gatherAndCommitHooks env baseCtx before = (.ok total, after) →
      ∃ batch deferred, Gathered (filterHooks env baseCtx) baseCtx before after batch deferred := by
  have houtcome := gather_outcome hpure
  cases hgather : gatherAndCommitHooks env baseCtx before with
  | mk result after =>
    rw [hgather] at houtcome
    cases result with
    | error e =>
      obtain ⟨hconflict, hunserved⟩ := houtcome
      constructor
      · intro e' he
        cases he
        exact hconflict
      · constructor
        · intro hserved
          exact absurd hserved hunserved
        · intro total after' h
          cases h
    | ok total =>
      constructor
      · intro e he
        cases he
      · constructor
        · intro _
          exact ⟨total, rfl⟩
        · intro total' after' h
          cases h
          exact houtcome

/-! ## Two hooks -/

/-- A program with one exclusive counter. -/
def counterKeys : StateKeys where
  Key := Unit
  decEq := inferInstance
  key _ := "counter"
  merge _ := .exclusive
  Value _ := Nat
  Update _ := Nat
  default _ := (0 : Nat)
  apply _ := fun (value update : Nat) => value + update

/-- The update of the counter. -/
def counterUpdate (n : Nat) : (runtimeKeys counterKeys).Update (programKey ()) := n

/-- A hook that returns one command whatever it is given. -/
def constantHook (cmd : StateCommand (runtimeKeys keys)) : TaggedPhaseHook keys :=
  ⟨"plugin", fun _ => .ok cmd⟩

/-- A runtime with the counter and the queue registered. -/
def counterRuntime : PhaseRuntime counterKeys where
  store :=
    ⟨⟨0, .empty⟩, ⟨(AssocMap.empty.insert "counter" .exclusive).insert
      "__runtime.pending_scheduled_actions" .exclusive⟩⟩
  nextId := 1

/-- An environment with these hooks, and a handler for every action and effect. -/
def hooksEnv (hooks : List (TaggedPhaseHook keys)) : ExecutionEnv keys :=
  ⟨fun _ => hooks, fun _ => true, fun _ => some fun _ _ => true⟩

def gatherContext : PhaseContext counterKeys := ⟨.stepStart, [], ⟨0, .empty⟩⟩

/-- A hook that counts up. -/
def countHook : TaggedPhaseHook counterKeys :=
  constantHook ⟨MutationBatch.new.update (programKey ()) (counterUpdate 1), [], []⟩

theorem countHook_pure (registry : PluginRegistry)
    (h : (registry.keysByName.get? "counter").isSome = true) : countHook.Pure registry := by
  intro ctx
  refine ⟨_, rfl, rfl, rfl, ?_⟩
  intro key hkey
  obtain rfl : key = "counter" := List.mem_singleton.mp hkey
  exact h

/-- Two hooks on the counter: one is run again, and both are counted. -/
theorem gatherAndCommitHooks_law_two_counts :
    ∃ batch deferred, Gathered [countHook, countHook] gatherContext counterRuntime
      (gatherAndCommitHooks (hooksEnv [countHook, countHook]) gatherContext counterRuntime).2
      batch deferred := by
  have hpure : ∀ tagged ∈ filterHooks (hooksEnv [countHook, countHook]) gatherContext,
      tagged.Pure counterRuntime.store.registry := by
    intro tagged hmem
    have hmem' : tagged ∈ [countHook, countHook] := hmem
    obtain rfl : tagged = countHook := by simpa using hmem'
    exact countHook_pure _ rfl
  exact (gatherAndCommitHooks_law _ gatherContext counterRuntime hpure).2.2 (0, .zero) _ rfl

example : (gatherAndCommitHooks (hooksEnv [countHook, countHook]) gatherContext
    counterRuntime).2.store.inner.ext (programKey ()) = some (2 : Nat) := rfl

/-- Commands submitted one after another, each on the state before it. -/
def submitInTurn (env : ExecutionEnv keys) :
    List (StateCommand (runtimeKeys keys)) → PhaseMethod keys Unit
  | [] => fun runtime => (.ok (), runtime)
  | cmd :: rest =>
    let patch := { cmd.patch with baseRevision := none }
    Method.bind (submitCommandInner env { cmd with patch }) fun _ => submitInTurn env rest

/-- The ids of the entries in the queue. -/
def queuedIds (runtime : PhaseRuntime keys) : List Nat :=
  (queueEntries runtime.store.inner.ext).map ScheduledActionEnvelope.id

/-- A command that schedules an action. -/
def scheduling : StateCommand (runtimeKeys counterKeys) :=
  ⟨.new, [⟨.stepEnd, "action", .null⟩], []⟩

/-- A command that takes an entry out of the queue. -/
def unqueueing : StateCommand (runtimeKeys counterKeys) :=
  ⟨MutationBatch.new.update (pendingScheduledActions counterKeys) (queueUpdate _ (.remove 1)),
    [], []⟩

/-- A command with an effect. -/
def effecting : StateCommand (runtimeKeys counterKeys) := ⟨.new, [], [⟨"effect", .null⟩]⟩

/-- A batch is not its commands in turn on the queue: the actions of a batch are queued after
    its patches, and numbered before its effects. -/
theorem gather_queue_order :
    (∀ cmd ∈ [scheduling, unqueueing, effecting],
      (constantHook cmd).Pure counterRuntime.store.registry) ∧
    queuedIds (gatherAndCommitHooks
      (hooksEnv [constantHook scheduling, constantHook unqueueing]) gatherContext
      counterRuntime).2 = [1] ∧
    queuedIds (submitInTurn (hooksEnv []) [scheduling, unqueueing] counterRuntime).2 = [] ∧
    queuedIds (gatherAndCommitHooks
      (hooksEnv [constantHook effecting, constantHook scheduling]) gatherContext
      counterRuntime).2 = [1] ∧
    queuedIds (submitInTurn (hooksEnv []) [effecting, scheduling] counterRuntime).2 = [2] := by
  constructor
  · intro cmd hmem ctx
    refine ⟨cmd, rfl, ?_⟩
    simp only [List.mem_cons, List.not_mem_nil, or_false] at hmem
    rcases hmem with rfl | rfl | rfl
    · exact ⟨rfl, rfl, by simp [scheduling, MutationBatch.new]⟩
    · refine ⟨rfl, rfl, ?_⟩
      intro key hkey
      obtain rfl : key = "__runtime.pending_scheduled_actions" := List.mem_singleton.mp hkey
      rfl
    · exact ⟨rfl, rfl, by simp [effecting, MutationBatch.new]⟩
  · exact ⟨rfl, rfl, rfl, rfl⟩

end Remo
