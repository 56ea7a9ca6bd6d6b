import Mathlib.Logic.Function.Basic
import Remo.Native.Value

/-!
# State mutations

The state keys of a program, the typed map of their values, the batches of updates that
hooks and tools hand in, and how batches from parallel execution are merged.
-/

namespace Remo

/-- Execution phases of a run. -/
inductive Phase where
  | runStart
  | stepStart
  | beforeInference
  | afterInference
  | toolGate
  | beforeToolExecute
  | afterToolExecute
  | stepEnd
  | runEnd
deriving Repr, DecidableEq

/-- `StateError`, the variants of commits and phases. -/
inductive StateError where
  | revisionConflict (expected actual : Nat)
  | mutationBaseRevisionMismatch (left right : Nat)
  | unknownKey (key : String)
  | phaseRunLoopExceeded (phase : Phase) (maxRounds : Nat)
  | unknownScheduledActionHandler (key : String)
  | unknownEffectHandler (key : String)
  | parallelMergeConflict (key : String)
  | cancelled
deriving Repr, DecidableEq

/-- Parallel merge strategy for a state key. -/
inductive MergeStrategy where
  | exclusive
  | commutative
deriving Repr, DecidableEq

/-- `KeyScope` of a state key. -/
inductive KeyScope where
  | run
  | thread
deriving Repr, DecidableEq

/-- The state keys of a program: the types that implement `StateKey`, with the key, the
    merge strategy, the values and the updates of each. -/
structure StateKeys where
  Key : Type
  decEq : DecidableEq Key
  key : Key → String
  merge : Key → MergeStrategy
  Value : Key → Type
  Update : Key → Type
  default (K : Key) : Value K
  apply (K : Key) : Value K → Update K → Value K

instance stateKeysDecEq (keys : StateKeys) : DecidableEq keys.Key := keys.decEq

variable {keys : StateKeys}

/-- The typed map: at most one value for each state key. -/
def StateMap (keys : StateKeys) : Type := (K : keys.Key) → Option (keys.Value K)

namespace StateMap

def empty : StateMap keys := fun _ => none

/-- `get_or_insert_default`, changed in place by `K::apply`. -/
def update (map : StateMap keys) (K : keys.Key) (update : keys.Update K) : StateMap keys :=
  Function.update map K (some (keys.apply K ((map K).getD (keys.default K)) update))

def remove (map : StateMap keys) (K : keys.Key) : StateMap keys :=
  Function.update map K none

def insert (map : StateMap keys) (K : keys.Key) (value : keys.Value K) : StateMap keys :=
  Function.update map K (some value)

@[simp] theorem update_self (map : StateMap keys) (K : keys.Key) (u : keys.Update K) :
    map.update K u K = some (keys.apply K ((map K).getD (keys.default K)) u) :=
  Function.update_self _ _ _

theorem update_of_ne (map : StateMap keys) {K K' : keys.Key} (u : keys.Update K)
    (h : K' ≠ K) : map.update K u K' = map K' :=
  Function.update_of_ne h _ _

@[simp] theorem remove_self (map : StateMap keys) (K : keys.Key) : map.remove K K = none :=
  Function.update_self _ _ _

@[simp] theorem insert_self (map : StateMap keys) (K : keys.Key) (value : keys.Value K) :
    map.insert K value K = some value :=
  Function.update_self _ _ _

theorem insert_of_ne (map : StateMap keys) {K K' : keys.Key} (value : keys.Value K)
    (h : K' ≠ K) : map.insert K value K' = map K' :=
  Function.update_of_ne h _ _

/-- Inserting the value a key has changes nothing. -/
theorem insert_eq_self {map : StateMap keys} {K : keys.Key} {value : keys.Value K}
    (h : map K = some value) : map.insert K value = map := by
  unfold insert
  rw [← h]
  exact Function.update_eq_self K map

theorem remove_of_ne (map : StateMap keys) {K K' : keys.Key} (h : K' ≠ K) :
    map.remove K K' = map K' :=
  Function.update_of_ne h _ _

/-- Updates of two keys do not see each other. -/
theorem update_comm (map : StateMap keys) {K K' : keys.Key} (h : K ≠ K') (u : keys.Update K)
    (u' : keys.Update K') : (map.update K u).update K' u' = (map.update K' u').update K u := by
  funext k
  by_cases hK : k = K
  · subst hK
    rw [update_of_ne _ _ h, update_self, update_self, update_of_ne _ _ h]
  · rw [update_of_ne (map.update K' u') u hK]
    by_cases hK' : k = K'
    · subst hK'
      rw [update_self, update_self, update_of_ne _ _ hK]
    · rw [update_of_ne _ _ hK', update_of_ne _ _ hK', update_of_ne _ _ hK]

end StateMap

structure Snapshot (keys : StateKeys) where
  revision : Nat
  ext : StateMap keys

/-- A state mutation operation: the update of a key, or its removal. -/
inductive MutationOp (keys : StateKeys) where
  | keyPatch (K : keys.Key) (update : keys.Update K)
  | clearKey (K : keys.Key)

/-- Apply this mutation. -/
def MutationOp.apply (map : StateMap keys) : MutationOp keys → StateMap keys
  | keyPatch K update => map.update K update
  | clearKey K => map.remove K

/-- A batch of state mutation operations. -/
structure MutationBatch (keys : StateKeys) where
  baseRevision : Option Nat
  ops : List (MutationOp keys)
  touchedKeys : List String

/-- The base revision of two batches together. -/
def reconcileBaseRevisions : Option Nat → Option Nat → Except StateError (Option Nat)
  | some left, some right =>
    if left ≠ right then .error (.mutationBaseRevisionMismatch left right) else .ok (some left)
  | some left, none => .ok (some left)
  | none, some right => .ok (some right)
  | none, none => .ok none

namespace MutationBatch

def new : MutationBatch keys := ⟨none, [], []⟩

def isEmpty (self : MutationBatch keys) : Bool := self.ops.isEmpty

def update (self : MutationBatch keys) (K : keys.Key) (update : keys.Update K) :
    MutationBatch keys :=
  { self with
    ops := self.ops ++ [.keyPatch K update]
    touchedKeys := self.touchedKeys ++ [keys.key K] }

/-- Merge two batches produced by parallel execution. -/
def mergeParallel (self other : MutationBatch keys) (strategy : String → MergeStrategy) :
    Except StateError (MutationBatch keys) := do
  let baseRevision ← reconcileBaseRevisions self.baseRevision other.baseRevision
  match other.touchedKeys.find? fun key =>
      key ∈ self.touchedKeys && strategy key = .exclusive with
  | some key => .error (.parallelMergeConflict key)
  | none => .ok ⟨baseRevision, self.ops ++ other.ops, self.touchedKeys ++ other.touchedKeys⟩

end MutationBatch

/-- An action to be run in a phase. -/
structure ScheduledAction where
  phase : Phase
  key : String
  payload : Value

/-- An effect for the handler of its key. -/
structure TypedEffect where
  key : String
  payload : Value

/-- A command that carries state mutations, scheduled actions, and effects. -/
structure StateCommand (keys : StateKeys) where
  patch : MutationBatch keys
  scheduledActions : List ScheduledAction
  effects : List TypedEffect

namespace StateCommand

def new : StateCommand keys := ⟨.new, [], []⟩

def withBaseRevision (self : StateCommand keys) (revision : Nat) : StateCommand keys :=
  { self with patch := { self.patch with baseRevision := some revision } }

def isEmpty (self : StateCommand keys) : Bool :=
  self.patch.isEmpty && self.scheduledActions.isEmpty && self.effects.isEmpty

/-- Merge two commands from parallel execution using the given merge strategy. -/
def mergeParallel (self other : StateCommand keys) (strategy : String → MergeStrategy) :
    Except StateError (StateCommand keys) := do
  let patch ← self.patch.mergeParallel other.patch strategy
  .ok ⟨patch, self.scheduledActions ++ other.scheduledActions, self.effects ++ other.effects⟩

end StateCommand

end Remo
