import Remo.Spec.State.Commutative
import Remo.Spec.State.Merge

/-!
# Batches of parallel calls

The order in which batches are merged, and the two checks that they do not conflict.

## Key results

- `commitMerged_perm`     independent commands commit the same state in any order
- `commutativeKeys_law`   when the promise of the keys is kept
- `allow_deny_order`      two actions of the permission policy for which it is not
- `validate_eq_ok`: what the check asks for, each exclusive key touched once in all
- `mergeBatches_isOk_iff`: what the merge asks for, exclusive keys of two batches disjoint
- `checksAgree_iff`: the checks agree unless a batch touches an exclusive key again
-/

/-! ## The order of merged batches

Batches that touch commutative keys only are merged whatever they do. The committed state
does not depend on the order of the batches when their updates are independent.
-/

namespace Remo

/-! ## States up to equal values -/

/-- When two values of a key count as equal: updates cannot tell them apart. -/
structure ValueEquality (keys : StateKeys) where
  same (K : keys.Key) : keys.Value K → keys.Value K → Prop
  equivalence (K : keys.Key) : Equivalence (same K)
  apply_same (K : keys.Key) {v w : keys.Value K} (u : keys.Update K) :
    same K v w → same K (keys.apply K v u) (keys.apply K w u)

theorem optionRel_equivalence {α : Type*} {r : α → α → Prop} (hr : Equivalence r) :
    Equivalence (Option.Rel r) where
  refl x := by
    cases x with
    | none => exact .none
    | some a => exact .some (hr.refl a)
  symm h := by
    cases h with
    | none => exact .none
    | some h => exact .some (hr.symm h)
  trans h h' := by
    cases h with
    | none => exact h'
    | some h => cases h' with
      | some h' => exact .some (hr.trans h h')

section

variable {keys : StateKeys} (eq : ValueEquality keys)

/-- States with equal values. -/
def StateMap.Same (map map' : StateMap keys) : Prop :=
  ∀ K, Option.Rel (eq.same K) (map K) (map' K)

theorem StateMap.same_equivalence : Equivalence (StateMap.Same eq) where
  refl _ K := (optionRel_equivalence (eq.equivalence K)).refl _
  symm h K := (optionRel_equivalence (eq.equivalence K)).symm (h K)
  trans h h' K := (optionRel_equivalence (eq.equivalence K)).trans (h K) (h' K)

variable {eq}

theorem same_getD (K : keys.Key) {x y : Option (keys.Value K)}
    (h : Option.Rel (eq.same K) x y) :
    eq.same K (x.getD (keys.default K)) (y.getD (keys.default K)) := by
  cases h with
  | none => exact (eq.equivalence K).refl _
  | some h => exact h

/-- An operation on equal states. -/
theorem MutationOp.apply_same {map map' : StateMap keys} (op : MutationOp keys)
    (h : map.Same eq map') : (op.apply map).Same eq (op.apply map') := by
  intro K'
  cases op with
  | keyPatch K u =>
    show Option.Rel _ (map.update K u K') (map'.update K u K')
    by_cases hk : K' = K
    · subst hk
      rw [StateMap.update_self, StateMap.update_self]
      exact .some (eq.apply_same K' u (same_getD K' (h K')))
    · rw [StateMap.update_of_ne _ _ hk, StateMap.update_of_ne _ _ hk]
      exact h K'
  | clearKey K =>
    show Option.Rel _ (map.remove K K') (map'.remove K K')
    by_cases hk : K' = K
    · subst hk
      rw [StateMap.remove_self, StateMap.remove_self]
      exact .none
    · rw [StateMap.remove_of_ne _ hk, StateMap.remove_of_ne _ hk]
      exact h K'

/-- Updates of different keys commute. -/
theorem commuting_of_ne {K K' : keys.Key} (h : K ≠ K') (u : keys.Update K)
    (u' : keys.Update K') :
    Commuting MutationOp.apply (StateMap.Same eq) (.keyPatch K u) (.keyPatch K' u') := by
  intro map
  show ((map.update K u).update K' u').Same eq ((map.update K' u').update K u)
  rw [StateMap.update_comm map h]
  exact (StateMap.same_equivalence eq).refl _

/-- Updates of one key commute when they do on its values. -/
theorem commuting_self {K : keys.Key} {u u' : keys.Update K}
    (h : ∀ v, eq.same K (keys.apply K (keys.apply K v u) u')
      (keys.apply K (keys.apply K v u') u)) :
    Commuting MutationOp.apply (StateMap.Same eq) (.keyPatch K u) (.keyPatch K u') := by
  intro map K'
  show Option.Rel _ ((map.update K u).update K u' K') ((map.update K u').update K u K')
  by_cases hk : K' = K
  · subst hk
    simp only [StateMap.update_self, Option.getD_some]
    exact .some (h _)
  · simp only [StateMap.update_of_ne _ _ hk]
    exact (optionRel_equivalence (eq.equivalence K')).refl _

/-- Merge the commands and commit the result. -/
def StateStore.commitMerged (store : StateStore keys) (commands : List (StateCommand keys)) :
    Except StateError (Nat × StateStore keys) := do
  let merged ← store.mergeAllCommands commands
  store.commit merged.patch

/-- Two commits that both fail, or both lead to the revision and the same state. -/
def SameOutcome (eq : ValueEquality keys) :
    Except StateError (Nat × StateStore keys) → Except StateError (Nat × StateStore keys) → Prop
  | .ok (rev, store), .ok (rev', store') =>
    rev = rev' ∧ store.revision = store'.revision ∧ store.inner.ext.Same eq store'.inner.ext
  | .error _, .error _ => True
  | .ok _, .error _ => False
  | .error _, .ok _ => False

variable {store : StateStore keys} {commands commands' : List (StateCommand keys)}

theorem StateCommand.Compatible.symm {strategy : String → MergeStrategy} {a b : StateCommand keys}
    (h : a.Compatible strategy b) : b.Compatible strategy a :=
  fun key ha hb => h key hb ha

/-- A merge that succeeds does so in any order. -/
theorem mergeAllCommands_perm (hperm : commands.Perm commands') {merged : StateCommand keys}
    (h : store.mergeAllCommands commands = .ok merged) :
    store.mergeAllCommands commands' = .ok (.concat merged.patch.baseRevision commands') := by
  obtain ⟨base, hbase, hpair, rfl⟩ := mergeAllCommands_eq_ok.mp h
  apply mergeAllCommands_eq_ok.mpr
  use base
  constructor
  · rw [reconcileAll_eq_ok] at hbase ⊢
    intro r
    rw [hbase r, List.mem_cons, List.mem_cons, (hperm.map _).mem_iff]
  · exact ⟨(hperm.pairwise_iff StateCommand.Compatible.symm).mp hpair, rfl⟩

/-- The store admits the commands one after another in any order. -/
theorem admits_concat_perm (hperm : commands.Perm commands') {base : Option Nat}
    (h : store.Admits (StateCommand.concat base commands).patch) :
    store.Admits (StateCommand.concat base commands').patch where
  revision := h.revision
  registered key hkey :=
    h.registered key ((hperm.flatMap_right _).mem_iff.mpr hkey)

/-- Commands whose operations commute lead to the same state in any order. -/
theorem run_concat_perm (hperm : commands.Perm commands') (base : Option Nat)
    (hcomm : commands.Pairwise fun a b => ∀ op ∈ a.patch.ops, ∀ op' ∈ b.patch.ops,
      Commuting MutationOp.apply (StateMap.Same eq) op op') (map : StateMap keys) :
    ((StateCommand.concat base commands).patch.run map).Same eq
      ((StateCommand.concat base commands').patch.run map) := by
  have hblocks := foldl_flatten_perm (StateMap.same_equivalence eq)
    (fun op h => MutationOp.apply_same op h) (hperm.map fun c => c.patch.ops)
    (List.pairwise_map.mpr hcomm) map
  simpa only [MutationBatch.run, StateCommand.concat, List.flatMap_def] using hblocks

/-- Commands whose operations commute commit the same state in any order. -/
theorem commitMerged_perm (store : StateStore keys) (hperm : commands.Perm commands')
    (hcomm : commands.Pairwise fun a b => ∀ op ∈ a.patch.ops, ∀ op' ∈ b.patch.ops,
      Commuting MutationOp.apply (StateMap.Same eq) op op') :
    SameOutcome eq (store.commitMerged commands) (store.commitMerged commands') := by
  unfold StateStore.commitMerged
  cases hmerge : store.mergeAllCommands commands with
  | error e =>
    cases hmerge' : store.mergeAllCommands commands' with
    | error e' => trivial
    | ok merged =>
      -- the merge in the other order would have succeeded as well
      have := mergeAllCommands_perm hperm.symm hmerge'
      rw [hmerge] at this
      cases this
  | ok merged =>
    rw [mergeAllCommands_perm hperm hmerge]
    obtain ⟨base, -, -, rfl⟩ := mergeAllCommands_eq_ok.mp hmerge
    show SameOutcome eq (store.commit (StateCommand.concat base commands).patch)
      (store.commit (StateCommand.concat base commands').patch)
    have hempty : (StateCommand.concat base commands).patch.isEmpty =
        (StateCommand.concat base commands').patch.isEmpty :=
      (hperm.flatMap_right _).isEmpty_eq
    cases hops : (StateCommand.concat base commands).patch.isEmpty with
    | true =>
      rw [commit_of_isEmpty hops, commit_of_isEmpty (hempty ▸ hops)]
      exact ⟨rfl, rfl, (StateMap.same_equivalence eq).refl _⟩
    | false =>
      by_cases hadmits : store.Admits (StateCommand.concat base commands).patch
      · have hadmits' := admits_concat_perm hperm hadmits
        rw [(commit_eq_ok hops).mpr ⟨hadmits, rfl, rfl⟩,
          (commit_eq_ok (hempty ▸ hops)).mpr ⟨hadmits', rfl, rfl⟩]
        exact ⟨rfl, rfl, run_concat_perm hperm base hcomm store.inner.ext⟩
      · have hadmits' : ¬ store.Admits (StateCommand.concat base commands').patch :=
          fun h => hadmits (admits_concat_perm hperm.symm h)
        obtain ⟨e, he⟩ := commit_fails hops hadmits
        obtain ⟨e', he'⟩ := commit_fails (hempty ▸ hops) hadmits'
        rw [he, he']
        trivial

end

/-! ## Equal values of the commutative keys -/

variable {engine : PatternEngine}

theorem AssocMap.same_equivalence {κ α : Type*} [DecidableEq κ] :
    Equivalence (AssocMap.Same : AssocMap κ α → AssocMap κ α → Prop) where
  refl _ _ := rfl
  symm h k := (h k).symm
  trans h h' k := (h k).trans (h' k)

theorem reduce_same {rules rules' : AssocMap String (PermissionRule engine)}
    (h : rules.Same rules') (action : PermissionAction) (source : PermissionRuleSource) :
    (reducePermissionAction rules action source).Same
      (reducePermissionAction rules' action source) := by
  intro k
  rw [reducePermissionAction_same, reducePermissionAction_same]
  exact MapEdit.apply_same h _ k

theorem PermissionPolicy.reduce_congr {p q : PermissionPolicy engine} (h : p.Same q)
    (action : PermissionAction) : (p.reduce action).Same (q.reduce action) := by
  obtain ⟨hdefault, hrules⟩ := h
  constructor
  · rw [PermissionPolicy.reduce_default, PermissionPolicy.reduce_default, hdefault]
  · rw [PermissionPolicy.reduce_rules, PermissionPolicy.reduce_rules]
    exact reduce_same hrules action .runtime

theorem ToolCallStateMap.apply_congr {v w : ToolCallStateMap} (h : v.Same w)
    (update : ToolCallStatesUpdate) : (v.apply update).Same (w.apply update) := by
  cases update with
  | put state =>
    intro k
    rw [ToolCallStateMap.get?_put, ToolCallStateMap.get?_put, h k]
  | clear => exact fun _ => rfl

theorem ContextMessageStoreValue.apply_congr {v w : ContextMessageStoreValue} (h : v.Same w)
    (action : ContextMessageAction) : (v.apply action).Same (w.apply action) := by
  intro k
  rw [ContextMessageStoreValue.apply_same, ContextMessageStoreValue.apply_same]
  exact MapEdit.apply_same h _ k

theorem ToolFilterStateValue.apply_congr {v w : ToolFilterStateValue} (h : v.Same w)
    (action : ToolFilterStateAction) : (v.apply action).Same (w.apply action) := by
  cases action with
  | exclude id => exact ⟨h.1.append_right [id], h.2⟩
  | includeOnly ids => exact ⟨h.1, h.2.append_right [ids]⟩
  | clear => exact ⟨.refl _, .refl _⟩

namespace CommutativeKey

theorem same_equivalence (K : CommutativeKey) : Equivalence (@Same engine K) := by
  have hmap : ∀ {α : Type}, Equivalence (AssocMap.Same : AssocMap String α → _ → Prop) :=
    AssocMap.same_equivalence
  cases K with
  | permissionPolicyKey =>
    exact ⟨fun _ => ⟨rfl, hmap.refl _⟩, fun h => ⟨h.1.symm, hmap.symm h.2⟩,
      fun h h' => ⟨h.1.trans h'.1, hmap.trans h.2 h'.2⟩⟩
  | permissionOverridesKey => exact ⟨fun _ => hmap.refl _, hmap.symm, hmap.trans⟩
  | toolCallStates => exact ⟨fun _ => hmap.refl _, hmap.symm, hmap.trans⟩
  | contextMessageStore => exact ⟨fun _ => hmap.refl _, hmap.symm, hmap.trans⟩
  | toolFilterState =>
    exact ⟨fun _ => ⟨.refl _, .refl _⟩, fun h => ⟨h.1.symm, h.2.symm⟩,
      fun h h' => ⟨h.1.trans h'.1, h.2.trans h'.2⟩⟩
  | inferenceOverrideState => exact eq_equivalence

/-- Updates of equal values. -/
theorem apply_same (K : CommutativeKey) {v w : K.Value engine} (h : K.Same v w)
    (u : K.Update) : K.Same (K.apply v u) (K.apply w u) := by
  cases K with
  | permissionPolicyKey => exact PermissionPolicy.reduce_congr h u
  | permissionOverridesKey => exact reduce_same h u .skill
  | toolCallStates => exact ToolCallStateMap.apply_congr h u
  | contextMessageStore => exact ContextMessageStoreValue.apply_congr h u
  | toolFilterState => exact ToolFilterStateValue.apply_congr h u
  | inferenceOverrideState =>
    obtain rfl : v = w := h
    rfl

end CommutativeKey

/-- Equality of the values of the commutative keys. -/
def commutativeEquality (engine : PatternEngine) : ValueEquality (commutativeKeys engine) where
  same K := K.Same
  equivalence K := K.same_equivalence
  apply_same K _ _ u h := K.apply_same h u

/-- Each update of the one command is independent of the updates of the other, on any
    value. -/
def StateCommand.Independent (a b : StateCommand (commutativeKeys engine)) : Prop :=
  ∀ (K : CommutativeKey) (u u' : K.Update), .keyPatch K u ∈ a.patch.ops →
    .keyPatch K u' ∈ b.patch.ops → ∀ v : K.Value engine, K.Independent v u u'

/-- The command only updates keys. -/
def StateCommand.Updates {keys : StateKeys} (cmd : StateCommand keys) : Prop :=
  ∀ op ∈ cmd.patch.ops, ∃ K u, op = .keyPatch K u

theorem commuting_of_independent {a b : StateCommand (commutativeKeys engine)}
    (ha : a.Updates) (hb : b.Updates) (h : a.Independent b) :
    ∀ op ∈ a.patch.ops, ∀ op' ∈ b.patch.ops,
      Commuting MutationOp.apply (StateMap.Same (commutativeEquality engine)) op op' := by
  intro op hop op' hop'
  obtain ⟨K, u, rfl⟩ := ha op hop
  obtain ⟨K', u', rfl⟩ := hb op' hop'
  by_cases hk : K = K'
  · subst hk
    apply commuting_self
    exact fun v => (CommutativeKey.commute_iff K v u u').mpr (h K u u' hop hop' v)
  · exact commuting_of_ne hk u u'

/-- When the keys declared commutative keep their promise. Two updates of a key give the
    same value in both orders exactly when they are independent. Commands that only update
    these keys commit the same state in any order, when the updates of different commands
    are independent. -/
theorem commutativeKeys_law :
    (∀ (K : CommutativeKey) (v : K.Value engine) (a b : K.Update),
      K.Same (K.apply (K.apply v a) b) (K.apply (K.apply v b) a) ↔ K.Independent v a b) ∧
    ∀ (store : StateStore (commutativeKeys engine))
      (commands commands' : List (StateCommand (commutativeKeys engine))),
      commands.Perm commands' → (∀ c ∈ commands, c.Updates) →
      commands.Pairwise StateCommand.Independent →
      SameOutcome (commutativeEquality engine) (store.commitMerged commands)
        (store.commitMerged commands') := by
  constructor
  · exact CommutativeKey.commute_iff
  · intro store commands commands' hperm hupdates hindependent
    apply commitMerged_perm store hperm
    apply hindependent.imp_of_mem
    intro a b ha hb h
    exact commuting_of_independent (hupdates a ha) (hupdates b hb) h

/-- A command with one action on the permission policy. -/
def permissionCommand (action : PermissionAction) : StateCommand (commutativeKeys .literal) :=
  ⟨MutationBatch.new.update CommutativeKey.permissionPolicyKey action, [], []⟩

/-- An empty store that knows the permission policy. -/
def policyStore : StateStore (commutativeKeys .literal) :=
  ⟨⟨0, .empty⟩, ⟨AssocMap.empty.insert "permission_policy" .commutative⟩⟩

/-- Rules about different tools are independent, and merged in any order. -/
theorem commutativeKeys_law_two_tools :
    SameOutcome (commutativeEquality .literal)
      (policyStore.commitMerged
        [permissionCommand (.allowTool "Bash"), permissionCommand (.denyTool "Read")])
      (policyStore.commitMerged
        [permissionCommand (.denyTool "Read"), permissionCommand (.allowTool "Bash")]) := by
  apply commutativeKeys_law.2 policyStore
  · exact .swap _ _ _
  · intro c hc op hop
    simp only [List.mem_cons, List.not_mem_nil, or_false] at hc
    cases hc with
    | inl h => subst h; exact ⟨_, _, List.mem_singleton.mp hop⟩
    | inr h => subst h; exact ⟨_, _, List.mem_singleton.mp hop⟩
  · apply List.pairwise_pair.mpr
    intro K u u' hu hu' v
    cases List.mem_singleton.mp hu
    cases List.mem_singleton.mp hu'
    constructor
    · intro x hx
      cases hx
    · intro hkey
      exact absurd hkey (by decide)

/-- Allowing and denying one tool: the later action stays, and which one is later depends on
    the order of the merge. -/
theorem allow_deny_order :
    ¬ SameOutcome (commutativeEquality .literal)
      (policyStore.commitMerged
        [permissionCommand (.allowTool "Bash"), permissionCommand (.denyTool "Bash")])
      (policyStore.commitMerged
        [permissionCommand (.denyTool "Bash"), permissionCommand (.allowTool "Bash")]) := by
  intro h
  obtain ⟨-, -, hsame⟩ := h
  have hpolicy : PermissionPolicy.Same
      ((PermissionPolicy.default.reduce (.allowTool "Bash")).reduce (.denyTool "Bash"))
      ((PermissionPolicy.default.reduce (.denyTool "Bash")).reduce (.allowTool "Bash")) :=
    Option.rel_some_some.mp (hsame CommutativeKey.permissionPolicyKey)
  have hbehavior := congrArg (Option.map PermissionRule.behavior) (hpolicy.2 "tool:Bash")
  revert hbehavior
  decide

end Remo

/-! ## The two checks on parallel batches

One check counts the owners of a key over all batches. The merge compares the keys of one batch
after another with those merged so far. A batch may touch a key many times: for the merge these
are one call's own, for the check they are several owners.
-/

namespace Remo

variable {keys : StateKeys} {strategy : String → MergeStrategy}

/-! ## The check on owners -/

/-- The number of owners noted for a key. -/
def ownerCount (owners : AssocMap String (List String)) (key : String) : Nat :=
  ((owners.get? key).getD []).length

theorem ownerCount_noteOwner (owners : AssocMap String (List String)) (callId key key' : String) :
    ownerCount (noteOwner owners callId key) key' =
      ownerCount owners key' + if key = key' then 1 else 0 := by
  unfold ownerCount noteOwner
  rw [AssocMap.get?_modify, AssocMap.get?_orInsert, AssocMap.get?_orInsert]
  by_cases h : key = key'
  · subst h
    simp
  · have h' : ¬key' = key := fun heq => h heq.symm
    simp [h, h']

theorem ownerCount_foldl (owners : AssocMap String (List String)) (callId : String)
    (touched : List String) (key : String) :
    ownerCount (touched.foldl (fun owners key => noteOwner owners callId key) owners) key =
      ownerCount owners key + touched.count key := by
  induction touched generalizing owners with
  | nil => simp
  | cons touch touched ih =>
    rw [List.foldl_cons, ih, ownerCount_noteOwner, List.count_cons]
    by_cases h : touch = key
    · simp [h]
      omega
    · simp [h]

/-- A key has as many owners as there are touches of it. -/
theorem ownerCount_keyOwners (batches : List ToolStateBatch) (key : String) :
    ownerCount (keyOwners batches) key =
      (batches.flatMap ToolStateBatch.touchedKeys).count key := by
  have hfold : ∀ owners : AssocMap String (List String),
      ownerCount (batches.foldl (fun owners batch =>
        batch.touchedKeys.foldl (fun owners key => noteOwner owners batch.callId key) owners)
          owners) key =
        ownerCount owners key + (batches.flatMap ToolStateBatch.touchedKeys).count key := by
    induction batches with
    | nil =>
      intro owners
      simp
    | cons batch batches ih =>
      intro owners
      rw [List.foldl_cons, ih, ownerCount_foldl, List.flatMap_cons, List.count_append]
      omega
  have hempty : ownerCount AssocMap.empty key = 0 := rfl
  rw [keyOwners, hfold, hempty, Nat.zero_add]

theorem ownerConflict_eq_none (key : String) (owners : List String) :
    ownerConflict strategy (key, owners) = none ↔
      (strategy key = .exclusive → owners.length ≤ 1) := by
  cases owners with
  | nil => simp [ownerConflict]
  | cons left owners =>
    cases owners with
    | nil => simp [ownerConflict]
    | cons right owners =>
      by_cases h : strategy key = .exclusive <;> simp [ownerConflict, h]

/-- The check accepts when each exclusive key is touched at most once in all. -/
theorem validate_eq_ok (batches : List ToolStateBatch) (rank : String → Nat) :
    validateParallelStateBatches batches strategy rank = .ok () ↔
      ∀ key, strategy key = .exclusive →
        (batches.flatMap ToolStateBatch.touchedKeys).count key ≤ 1 := by
  have hfind : validateParallelStateBatches batches strategy rank = .ok () ↔
      ((keyOwners batches).reorder rank).entries.findSome? (ownerConflict strategy) = none := by
    unfold validateParallelStateBatches
    cases ((keyOwners batches).reorder rank).entries.findSome? (ownerConflict strategy) <;> simp
  rw [hfind, List.findSome?_eq_none_iff]
  constructor
  · intro h key hkey
    rw [← ownerCount_keyOwners]
    unfold ownerCount
    cases hget : (keyOwners batches).get? key with
    | none => simp
    | some owners =>
      have hentry : (key, owners) ∈ ((keyOwners batches).reorder rank).entries := by
        rw [← AssocMap.get?_eq_some, AssocMap.get?_reorder]
        exact hget
      exact (ownerConflict_eq_none key owners).mp (h _ hentry) hkey
  · intro h entry hentry
    obtain ⟨key, owners⟩ := entry
    rw [← AssocMap.get?_eq_some, AssocMap.get?_reorder] at hentry
    rw [ownerConflict_eq_none]
    intro hkey
    have hcount := h key hkey
    rw [← ownerCount_keyOwners] at hcount
    unfold ownerCount at hcount
    rw [hentry] at hcount
    exact hcount

/-! ## The merge -/

/-- Merge the batches of parallel calls one after another. -/
def mergeBatches (strategy : String → MergeStrategy) (batches : List (MutationBatch keys)) :
    Except StateError (MutationBatch keys) :=
  batches.foldlM (fun (acc batch : MutationBatch keys) => acc.mergeParallel batch strategy) .new

/-- A batch as a command without actions and effects. -/
def MutationBatch.command (self : MutationBatch keys) : StateCommand keys := ⟨self, [], []⟩

theorem mergeParallel_command (acc batch : MutationBatch keys) :
    acc.command.mergeParallel batch.command strategy =
      (acc.mergeParallel batch strategy).map MutationBatch.command := by
  show (acc.mergeParallel batch strategy >>= _) = _
  cases acc.mergeParallel batch strategy <;> rfl

theorem foldlM_command (acc : MutationBatch keys) (batches : List (MutationBatch keys)) :
    (batches.map MutationBatch.command).foldlM
        (fun (acc cmd : StateCommand keys) => acc.mergeParallel cmd strategy) acc.command =
      (batches.foldlM (fun (acc batch : MutationBatch keys) =>
        acc.mergeParallel batch strategy) acc).map MutationBatch.command := by
  induction batches generalizing acc with
  | nil => rfl
  | cons batch batches ih =>
    rw [List.map_cons, List.foldlM_cons, List.foldlM_cons, mergeParallel_command]
    cases acc.mergeParallel batch strategy with
    | error e => rfl
    | ok merged => exact ih merged

/-- The exclusive keys that a batch touches, as often as it does. -/
def exclusiveTouches (strategy : String → MergeStrategy) (touched : List String) : List String :=
  touched.filter fun key => strategy key = .exclusive

/-- No exclusive key is touched by two batches. -/
def KeepApart (strategy : String → MergeStrategy) (touched : List (List String)) : Prop :=
  touched.Pairwise fun a b => (exclusiveTouches strategy a).Disjoint (exclusiveTouches strategy b)

theorem compatible_command_iff (a b : MutationBatch keys) :
    a.command.Compatible strategy b.command ↔
      (exclusiveTouches strategy a.touchedKeys).Disjoint
        (exclusiveTouches strategy b.touchedKeys) := by
  unfold StateCommand.Compatible exclusiveTouches
  constructor
  · intro h key ha hb
    rw [List.mem_filter, decide_eq_true_eq] at ha hb
    have hcommutes := h key hb.1 ha.1
    rw [hb.2] at hcommutes
    cases hcommutes
  · intro h key hb ha
    rw [← ne_exclusive]
    intro hexclusive
    have hleft : key ∈ a.touchedKeys.filter fun key => strategy key = .exclusive :=
      List.mem_filter.mpr ⟨ha, decide_eq_true hexclusive⟩
    exact h hleft (List.mem_filter.mpr ⟨hb, decide_eq_true hexclusive⟩)

/-- Batches on one base revision have a base revision together. -/
theorem exists_reconcileAll {bases : List (Option Nat)} {base : Option Nat}
    (hbase : ∀ b ∈ bases, b = base) : ∃ all, reconcileAll none bases = .ok all := by
  cases bases with
  | nil => exact ⟨none, rfl⟩
  | cons b bases =>
    refine ⟨base, reconcileAll_eq_ok.mpr ?_⟩
    intro r
    constructor
    · intro hr
      rw [← hr, ← hbase b List.mem_cons_self]
      exact List.mem_cons_of_mem _ List.mem_cons_self
    · intro hmem
      cases List.mem_cons.mp hmem with
      | inl hnone => cases hnone
      | inr hmem => exact (hbase _ hmem).symm

/-- Batches on one base revision merge when they keep apart. -/
theorem mergeBatches_isOk_iff {batches : List (MutationBatch keys)} {base : Option Nat}
    (hbase : ∀ batch ∈ batches, batch.baseRevision = base) :
    (∃ merged, mergeBatches strategy batches = .ok merged) ↔
      KeepApart strategy (batches.map MutationBatch.touchedKeys) := by
  have hcommand : (∃ merged, mergeBatches strategy batches = .ok merged) ↔
      ∃ merged, (batches.map MutationBatch.command).foldlM
        (fun (acc cmd : StateCommand keys) => acc.mergeParallel cmd strategy)
          (MutationBatch.new : MutationBatch keys).command = .ok merged := by
    rw [foldlM_command]
    show (∃ merged, mergeBatches strategy batches = .ok merged) ↔
      ∃ merged, (mergeBatches strategy batches).map MutationBatch.command = .ok merged
    cases mergeBatches strategy batches <;> simp [Except.map]
  have hpairwise : ((MutationBatch.new : MutationBatch keys).command ::
      batches.map MutationBatch.command).Pairwise (StateCommand.Compatible strategy) ↔
        KeepApart strategy (batches.map MutationBatch.touchedKeys) := by
    unfold KeepApart
    rw [List.pairwise_cons, List.pairwise_map, List.pairwise_map]
    simp only [compatible_command_iff]
    constructor
    · exact And.right
    · intro h
      refine ⟨?_, h⟩
      intro command _ key _ hnone
      cases hnone
  have hbases : ∀ b ∈ batches.map MutationBatch.baseRevision, b = base := by
    intro b hb
    obtain ⟨batch, hbatch, rfl⟩ := List.mem_map.mp hb
    exact hbase batch hbatch
  obtain ⟨all, hall⟩ := exists_reconcileAll hbases
  rw [hcommand, ← hpairwise]
  constructor
  · intro h
    obtain ⟨merged, hmerged⟩ := h
    obtain ⟨-, -, hcompatible, -⟩ := foldlM_mergeParallel_eq_ok.mp hmerged
    exact hcompatible
  · intro h
    refine ⟨_, foldlM_mergeParallel_eq_ok.mpr ⟨all, ?_, h, rfl⟩⟩
    rw [List.map_map]
    exact hall

/-! ## Both checks -/

/-- The batch of a tool call. -/
structure ToolCallBatch (keys : StateKeys) where
  callId : String
  patch : MutationBatch keys

/-- What the check sees of it. -/
def ToolCallBatch.touches (self : ToolCallBatch keys) : ToolStateBatch :=
  ⟨self.callId, self.patch.touchedKeys⟩

/-- The check accepts exactly the batches that merge. -/
def ChecksAgree (strategy : String → MergeStrategy) (rank : String → Nat)
    (calls : List (ToolCallBatch keys)) : Prop :=
  validateParallelStateBatches (calls.map ToolCallBatch.touches) strategy rank = .ok () ↔
    ∃ merged, mergeBatches strategy (calls.map ToolCallBatch.patch) = .ok merged

/-- Two of the calls touch one exclusive key, or none of them touches an exclusive key again. -/
def NoneRepeats (strategy : String → MergeStrategy) (calls : List (ToolCallBatch keys)) : Prop :=
  KeepApart strategy (calls.map fun call => call.patch.touchedKeys) →
    ∀ call ∈ calls, (exclusiveTouches strategy call.patch.touchedKeys).Nodup

/-- The check asks that the batches keep apart and repeat no exclusive key. -/
theorem validate_eq_ok_iff (calls : List (ToolCallBatch keys)) (rank : String → Nat) :
    validateParallelStateBatches (calls.map ToolCallBatch.touches) strategy rank = .ok () ↔
      (∀ call ∈ calls, (exclusiveTouches strategy call.patch.touchedKeys).Nodup) ∧
        KeepApart strategy (calls.map fun call => call.patch.touchedKeys) := by
  have htouches : (calls.map ToolCallBatch.touches).flatMap ToolStateBatch.touchedKeys =
      calls.flatMap fun call => call.patch.touchedKeys := by
    rw [List.flatMap_map]
    rfl
  have hfilter : exclusiveTouches strategy (calls.flatMap fun call => call.patch.touchedKeys) =
      calls.flatMap fun call => exclusiveTouches strategy call.patch.touchedKeys := by
    unfold exclusiveTouches
    rw [List.filter_flatMap]
  have hcount : (∀ key, strategy key = .exclusive →
      (calls.flatMap fun call => call.patch.touchedKeys).count key ≤ 1) ↔
        (exclusiveTouches strategy (calls.flatMap fun call => call.patch.touchedKeys)).Nodup := by
    rw [List.nodup_iff_count_le_one]
    unfold exclusiveTouches
    apply forall_congr'
    intro key
    by_cases h : strategy key = .exclusive
    · rw [List.count_filter (by simpa using h)]
      simp [h]
    · have hnone : ((calls.flatMap fun call => call.patch.touchedKeys).filter fun key =>
          strategy key = .exclusive).count key = 0 := by
        rw [List.count_eq_zero]
        intro hmem
        exact h (by simpa using List.of_mem_filter hmem)
      rw [hnone]
      simp [h]
  unfold KeepApart
  rw [validate_eq_ok, htouches, hcount, hfilter, List.nodup_flatMap, List.pairwise_map]

/-- The two checks agree exactly when no batch is refused for its own sake. -/
theorem checksAgree_iff (strategy : String → MergeStrategy) (rank : String → Nat)
    (calls : List (ToolCallBatch keys)) (base : Option Nat)
    (hbase : ∀ call ∈ calls, call.patch.baseRevision = base) :
    ChecksAgree strategy rank calls ↔ NoneRepeats strategy calls := by
  have hmerge : (∃ merged, mergeBatches strategy (calls.map ToolCallBatch.patch) = .ok merged) ↔
      KeepApart strategy (calls.map fun call => call.patch.touchedKeys) := by
    have hpatches : ∀ batch ∈ calls.map ToolCallBatch.patch, batch.baseRevision = base := by
      intro batch hbatch
      obtain ⟨call, hcall, rfl⟩ := List.mem_map.mp hbatch
      exact hbase call hcall
    rw [mergeBatches_isOk_iff hpatches, List.map_map]
    rfl
  unfold ChecksAgree NoneRepeats
  rw [validate_eq_ok_iff, hmerge]
  constructor
  · intro h happart
    exact (h.mpr happart).1
  · intro h
    constructor
    · exact And.right
    · intro happart
      exact ⟨h happart, happart⟩

/-- A batch of updates of some keys. -/
def batchOf (callId : String) (updates : List ToolFilterStateAction) :
    ToolCallBatch (commutativeKeys .literal) :=
  ⟨callId, updates.foldl (fun batch action => batch.update .toolFilterState action) .new⟩

/-- One call alone, with one update. -/
theorem checksAgree_once :
    ChecksAgree (fun _ => .exclusive) (fun _ => 0) [batchOf "call-1" [.clear]] :=
  (checksAgree_iff (fun _ => .exclusive) (fun _ => 0) [batchOf "call-1" [.clear]] none
    (by decide)).mpr (fun _ => by decide)

/-- One call alone is refused for its second update of an exclusive key, which merges. -/
theorem validate_conflictsWithItself :
    ¬ChecksAgree (fun _ => .exclusive) (fun _ => 0) [batchOf "call-1" [.clear, .clear]] := by
  intro hagree
  have haccepts := hagree.mpr ⟨_, rfl⟩
  have hrefuses : validateParallelStateBatches
      ([batchOf "call-1" [.clear, .clear]].map ToolCallBatch.touches) (fun _ => .exclusive)
        (fun _ => 0) =
          .error (.exclusiveConflict "__runtime.tool_filter_state" "call-1" "call-1") := by
    decide +kernel
  rw [hrefuses] at haccepts
  cases haccepts

end Remo
