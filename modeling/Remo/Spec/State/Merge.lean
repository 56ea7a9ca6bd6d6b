import Remo.ForStd.Except
import Remo.Native.State.Store

/-!
# Merged commands

What the merge of commands from parallel execution is: their operations one after another,
with one base revision, when no exclusive key occurs in two of them.

Key results:
* `reconcileAll_eq_ok`      the base revision of many batches, whatever their order
* `mergeAllCommands_eq_ok`  when a merge succeeds, and with what
-/

namespace Remo

variable {keys : StateKeys}

/-! ## Recorded batches -/

/-- The key an operation touches. -/
def MutationOp.key : MutationOp keys → String
  | keyPatch K _ => keys.key K
  | clearKey K => keys.key K

/-- The touched keys are those of the operations. -/
def MutationBatch.Recorded (self : MutationBatch keys) : Prop :=
  self.touchedKeys = self.ops.map MutationOp.key

/-! ## Base revisions -/

/-- The base revision of a list of batches, added one by one to that of a first one. -/
def reconcileAll (first : Option Nat) (bases : List (Option Nat)) :
    Except StateError (Option Nat) :=
  bases.foldlM reconcileBaseRevisions first

theorem reconcileBaseRevisions_eq_ok {left right base : Option Nat} :
    reconcileBaseRevisions left right = .ok base ↔
      ∀ r, base = some r ↔ left = some r ∨ right = some r := by
  cases left with
  | none => cases right <;> cases base <;> simp [reconcileBaseRevisions, eq_comm]
  | some l => cases right with
    | none => cases base <;> simp [reconcileBaseRevisions, eq_comm]
    | some r =>
      by_cases h : l = r
      · cases base <;> simp [reconcileBaseRevisions, h, eq_comm]
      · -- no base is both revisions
        simp only [reconcileBaseRevisions, ne_eq, h, not_false_eq_true, if_true]
        constructor
        · intro herr
          cases herr
        · intro hbase
          have hl := (hbase l).mpr (.inl rfl)
          have hr := (hbase r).mpr (.inr rfl)
          exact absurd (Option.some.inj (hl.symm.trans hr)) h

/-- Batches have a base revision together when those that are set are one. -/
theorem reconcileAll_eq_ok {first base : Option Nat} {bases : List (Option Nat)} :
    reconcileAll first bases = .ok base ↔ ∀ r, base = some r ↔ some r ∈ first :: bases := by
  induction bases generalizing first with
  | nil =>
    have hnil : reconcileAll first [] = .ok first := rfl
    rw [hnil, Except.ok.injEq]
    cases first <;> cases base <;> simp [eq_comm]
  | cons b bases ih =>
    have hcons : reconcileAll first (b :: bases) =
        reconcileBaseRevisions first b >>= fun acc => reconcileAll acc bases := rfl
    rw [hcons]
    constructor
    · intro h
      obtain ⟨acc, hacc, hrest⟩ := exists_of_bind_ok h
      intro r
      rw [ih.mp hrest r]
      have := reconcileBaseRevisions_eq_ok.mp hacc r
      simp only [List.mem_cons] at this ⊢
      grind
    · intro h
      -- the first two agree, as both go into the base
      have hfirst : ∃ acc, reconcileBaseRevisions first b = .ok acc := by
        cases first with
        | none => exact ⟨b, by cases b <;> rfl⟩
        | some l => cases b with
          | none => exact ⟨some l, rfl⟩
          | some r =>
            have hl := (h l).mpr (by simp)
            have hr := (h r).mpr (by simp)
            obtain rfl := Option.some.inj (hl.symm.trans hr)
            exact ⟨some l, by simp [reconcileBaseRevisions]⟩
      obtain ⟨acc, hacc⟩ := hfirst
      show reconcileBaseRevisions first b >>= _ = _
      rw [hacc]
      apply ih.mpr
      intro r
      have := reconcileBaseRevisions_eq_ok.mp hacc r
      rw [h r]
      simp only [List.mem_cons] at this ⊢
      grind

/-! ## Commands -/

/-- No exclusive key occurs in both commands. -/
def StateCommand.Compatible (strategy : String → MergeStrategy) (a b : StateCommand keys) :
    Prop :=
  ∀ key ∈ b.patch.touchedKeys, key ∈ a.patch.touchedKeys → strategy key = .commutative

/-- The commands one after another, as one command on a base revision. -/
def StateCommand.concat (base : Option Nat) (commands : List (StateCommand keys)) :
    StateCommand keys where
  patch :=
    ⟨base, commands.flatMap fun c => c.patch.ops, commands.flatMap fun c => c.patch.touchedKeys⟩
  scheduledActions := commands.flatMap StateCommand.scheduledActions
  effects := commands.flatMap StateCommand.effects

variable {strategy : String → MergeStrategy} {acc cmd merged : StateCommand keys}
  {commands commands' : List (StateCommand keys)}

theorem ne_exclusive {s : MergeStrategy} : s ≠ .exclusive ↔ s = .commutative := by
  cases s <;> simp

/-- No key stands in the way of compatible commands. -/
theorem find?_conflict_eq_none :
    (cmd.patch.touchedKeys.find? fun key =>
        key ∈ acc.patch.touchedKeys && strategy key = .exclusive) = none ↔
      acc.Compatible strategy cmd := by
  simp only [List.find?_eq_none, StateCommand.Compatible, Bool.and_eq_true, decide_eq_true_eq,
    not_and, ← ne_exclusive, ne_eq]

theorem mergeParallel_eq_ok :
    acc.mergeParallel cmd strategy = .ok merged ↔
      ∃ base, reconcileBaseRevisions acc.patch.baseRevision cmd.patch.baseRevision = .ok base ∧
        acc.Compatible strategy cmd ∧ merged = .concat base [acc, cmd] := by
  rw [← find?_conflict_eq_none]
  unfold StateCommand.mergeParallel MutationBatch.mergeParallel
  cases reconcileBaseRevisions acc.patch.baseRevision cmd.patch.baseRevision with
  | error e => simp [bind, Except.bind]
  | ok base =>
    cases cmd.patch.touchedKeys.find? fun key =>
        key ∈ acc.patch.touchedKeys && strategy key = .exclusive with
    | some key => simp [bind, Except.bind]
    | none => simp [bind, Except.bind, StateCommand.concat, eq_comm]

theorem concat_cons_concat (base b : Option Nat) (acc cmd : StateCommand keys)
    (commands : List (StateCommand keys)) :
    StateCommand.concat base (.concat b [acc, cmd] :: commands) =
      .concat base (acc :: cmd :: commands) := by
  simp [StateCommand.concat, List.append_assoc]

theorem concat_singleton (cmd : StateCommand keys) :
    StateCommand.concat cmd.patch.baseRevision [cmd] = cmd := by
  simp [StateCommand.concat]

theorem concat_new_cons (base : Option Nat) (commands : List (StateCommand keys)) :
    StateCommand.concat base (.new :: commands) = .concat base commands := by
  simp [StateCommand.concat, StateCommand.new, MutationBatch.new]

theorem concat_compatible {b : Option Nat} :
    (StateCommand.concat b [acc, cmd]).Compatible strategy merged ↔
      acc.Compatible strategy merged ∧ cmd.Compatible strategy merged := by
  simp only [StateCommand.Compatible, StateCommand.concat, List.flatMap_cons, List.flatMap_nil,
    List.append_nil, List.mem_append]
  grind

theorem foldlM_mergeParallel_eq_ok :
    commands.foldlM (fun acc cmd => acc.mergeParallel cmd strategy) acc = .ok merged ↔
      ∃ base,
        reconcileAll acc.patch.baseRevision (commands.map fun c => c.patch.baseRevision) =
          .ok base ∧
        (acc :: commands).Pairwise (StateCommand.Compatible strategy) ∧
        merged = .concat base (acc :: commands) := by
  induction commands generalizing acc with
  | nil =>
    constructor
    · intro h
      obtain rfl := Except.ok.inj h
      exact ⟨_, rfl, List.pairwise_singleton _ _, (concat_singleton acc).symm⟩
    · intro h
      obtain ⟨base, hbase, -, rfl⟩ := h
      obtain rfl := Except.ok.inj hbase
      rw [concat_singleton]
      rfl
  | cons cmd commands ih =>
    have hpairwise : ∀ b, (StateCommand.concat b [acc, cmd] :: commands).Pairwise
        (StateCommand.Compatible strategy) ∧ acc.Compatible strategy cmd ↔
          (acc :: cmd :: commands).Pairwise (StateCommand.Compatible strategy) := by
      intro b
      simp only [List.pairwise_cons, List.forall_mem_cons, concat_compatible]
      grind
    rw [List.foldlM_cons]
    constructor
    · intro h
      obtain ⟨acc', hacc, hrest⟩ := exists_of_bind_ok h
      obtain ⟨b, hb, hfirst, rfl⟩ := mergeParallel_eq_ok.mp hacc
      obtain ⟨base, hbase, hpair, rfl⟩ := ih.mp hrest
      use base
      constructor
      · show reconcileBaseRevisions _ _ >>= _ = _
        rw [hb]
        exact hbase
      · exact ⟨(hpairwise b).mp ⟨hpair, hfirst⟩, concat_cons_concat base b acc cmd commands⟩
    · intro h
      obtain ⟨base, hbase, hpair, rfl⟩ := h
      obtain ⟨b, hb, hrest⟩ := exists_of_bind_ok hbase
      obtain ⟨hpair', hfirst⟩ := (hpairwise b).mpr hpair
      rw [mergeParallel_eq_ok.mpr ⟨b, hb, hfirst, rfl⟩]
      exact ih.mpr ⟨base, hrest, hpair', (concat_cons_concat base b acc cmd commands).symm⟩

/-- The merge succeeds when the base revisions agree and the commands are compatible, with
    the commands one after another. -/
theorem mergeAllCommands_eq_ok {store : StateStore keys} :
    store.mergeAllCommands commands = .ok merged ↔
      ∃ base, reconcileAll none (commands.map fun c => c.patch.baseRevision) = .ok base ∧
        commands.Pairwise (StateCommand.Compatible store.registry.mergeStrategy) ∧
        merged = .concat base commands := by
  have hnew : (StateCommand.new :: commands).Pairwise
      (StateCommand.Compatible store.registry.mergeStrategy) ↔
        commands.Pairwise (StateCommand.Compatible store.registry.mergeStrategy) := by
    rw [List.pairwise_cons]
    constructor
    · exact And.right
    · exact fun h => ⟨fun _ _ _ _ hmem => absurd hmem List.not_mem_nil, h⟩
  unfold StateStore.mergeAllCommands
  rw [foldlM_mergeParallel_eq_ok, hnew]
  simp only [concat_new_cons]
  rfl

/-! ## Commits -/

/-- The state after the operations of a batch. -/
def MutationBatch.run (self : MutationBatch keys) (map : StateMap keys) : StateMap keys :=
  self.ops.foldl MutationOp.apply map

/-- The store may commit the batch. -/
structure StateStore.Admits (store : StateStore keys) (patch : MutationBatch keys) : Prop where
  revision : ∀ base ∈ patch.baseRevision, store.revision = base
  registered : ∀ key ∈ patch.touchedKeys, (store.registry.keysByName.get? key).isSome = true

/-- The store one revision on, with another state. -/
def StateStore.advance (self : StateStore keys) (ext : StateMap keys) : StateStore keys :=
  { self with inner := ⟨self.revision + 1, ext⟩ }

variable {store : StateStore keys} {patch : MutationBatch keys}

theorem checkRevision_ok :
    store.checkRevision patch = .ok () ↔ ∀ base ∈ patch.baseRevision, store.revision = base := by
  unfold StateStore.checkRevision
  cases patch.baseRevision with
  | none => simp
  | some expected => by_cases h : store.revision = expected <;> simp [h]

theorem ensureKey_ok {registry : PluginRegistry} {key : String} :
    registry.ensureKey key = .ok () ↔ (registry.keysByName.get? key).isSome = true := by
  unfold PluginRegistry.ensureKey
  split
  next h => simp [h]
  next h => simp [h]

theorem commit_of_isEmpty (h : patch.isEmpty = true) :
    store.commit patch = .ok (store.revision, store) := by
  unfold StateStore.commit
  rw [if_pos h]
  rfl

/-- A batch with operations is committed exactly when the store admits it, with the state
    after its operations and the next revision. -/
theorem commit_eq_ok {rev : Nat} {store' : StateStore keys} (h : patch.isEmpty = false) :
    store.commit patch = .ok (rev, store') ↔
      store.Admits patch ∧ rev = store.revision + 1 ∧
        store' = store.advance (patch.run store.inner.ext) := by
  have hadmits : store.Admits patch ↔ store.checkRevision patch = .ok () ∧
      patch.touchedKeys.forM store.registry.ensureKey = .ok () := by
    rw [checkRevision_ok, forM_ok]
    simp only [ensureKey_ok]
    exact ⟨fun h => ⟨h.revision, h.registered⟩, fun h => ⟨h.1, h.2⟩⟩
  rw [hadmits]
  unfold StateStore.commit
  rw [if_neg (by simp [h]), bind_ok, bind_ok]
  simp [pure, Except.pure, and_assoc, eq_comm, StateStore.advance, MutationBatch.run]

theorem commit_fails (h : patch.isEmpty = false) (hnot : ¬ store.Admits patch) :
    ∃ e, store.commit patch = .error e := by
  cases hcommit : store.commit patch with
  | error e => exact ⟨e, rfl⟩
  | ok result => exact absurd ((commit_eq_ok h).mp hcommit).1 hnot

/-- What a commit that succeeds does to the store. -/
structure Commits (before after : StateStore keys) (patch : MutationBatch keys) : Prop where
  registry : after.registry = before.registry
  ext : after.inner.ext = patch.run before.inner.ext
  revision : after.revision = if patch.isEmpty then before.revision else before.revision + 1

theorem commits_of_ok {rev : Nat} {store' : StateStore keys}
    (h : store.commit patch = .ok (rev, store')) : Commits store store' patch := by
  cases hempty : patch.isEmpty with
  | true =>
    rw [commit_of_isEmpty hempty] at h
    cases h
    have hops : patch.ops = [] := List.isEmpty_iff.mp hempty
    exact ⟨rfl, by rw [MutationBatch.run, hops]; rfl, by rw [hempty]; rfl⟩
  | false =>
    obtain ⟨-, -, rfl⟩ := (commit_eq_ok hempty).mp h
    exact ⟨rfl, rfl, by rw [hempty]; rfl⟩

theorem forM_ensureKey_error {registry : PluginRegistry} {l : List String} {e : StateError}
    (h : l.forM registry.ensureKey = .error e) :
    ∃ key ∈ l, (registry.keysByName.get? key).isSome = false ∧ e = .unknownKey key := by
  induction l with
  | nil => cases h
  | cons key l ih =>
    change (registry.ensureKey key >>= fun _ => l.forM registry.ensureKey) = .error e at h
    cases hkey : registry.ensureKey key with
    | ok _ =>
      rw [hkey] at h
      obtain ⟨key', hmem, hunknown, he⟩ := ih h
      exact ⟨key', List.mem_cons_of_mem _ hmem, hunknown, he⟩
    | error e' =>
      rw [hkey] at h
      cases h
      unfold PluginRegistry.ensureKey at hkey
      split at hkey
      next => cases hkey
      next hunknown =>
        cases hkey
        exact ⟨key, List.mem_cons_self, by simpa using hunknown, rfl⟩

/-- A batch on the current revision is refused for an unknown key only. -/
theorem commit_error {e : StateError} (hbase : ∀ base ∈ patch.baseRevision, store.revision = base)
    (h : store.commit patch = .error e) :
    ∃ key ∈ patch.touchedKeys, (store.registry.keysByName.get? key).isSome = false ∧
      e = .unknownKey key := by
  cases hempty : patch.isEmpty with
  | true =>
    rw [commit_of_isEmpty hempty] at h
    cases h
  | false =>
    unfold StateStore.commit at h
    rw [if_neg (by simp [hempty]), checkRevision_ok.mpr hbase] at h
    cases hkeys : patch.touchedKeys.forM store.registry.ensureKey with
    | error e' =>
      have hsame : e' = e := by
        rw [hkeys] at h
        exact Except.error.inj h
      exact hsame ▸ forM_ensureKey_error hkeys
    | ok _ =>
      rw [hkeys] at h
      cases h

end Remo
