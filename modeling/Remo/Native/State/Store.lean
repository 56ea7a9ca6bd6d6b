import Remo.ForStd.AssocMap
import Remo.Native.State.Mutation

/-!
# The state store

The committed state, and the conflict check of the batches of parallel tool calls.
-/

/-! ## The conflict check of parallel tool calls

The check counts for every key the tool calls that touched it, over the batches of all calls.
-/

namespace Remo

/-- Error from parallel state merge. -/
inductive ParallelMergeError where
  | exclusiveConflict (key leftCallId rightCallId : String)
deriving Repr, DecidableEq

/-- A batch of state modifications from a single tool call. -/
structure ToolStateBatch where
  callId : String
  touchedKeys : List String
deriving Repr, DecidableEq

/-- Note that a call touched a key. -/
def noteOwner (owners : AssocMap String (List String)) (callId key : String) :
    AssocMap String (List String) :=
  (owners.orInsert key []).modify key fun ids => ids ++ [callId]

/-- The calls that touched each key. -/
def keyOwners (batches : List ToolStateBatch) : AssocMap String (List String) :=
  batches.foldl (fun owners batch =>
    batch.touchedKeys.foldl (fun owners key => noteOwner owners batch.callId key) owners)
    AssocMap.empty

/-- The conflict on a key, if it is exclusive and has two owners. -/
def ownerConflict (strategy : String → MergeStrategy) :
    String × List String → Option ParallelMergeError
  | (key, left :: right :: _) =>
    if strategy key = .exclusive then some (.exclusiveConflict key left right) else none
  | (_, [_]) => none
  | (_, []) => none

/-- Validate that parallel tool state batches do not conflict on exclusive keys. The keys come
    in the order `rank`. -/
def validateParallelStateBatches (batches : List ToolStateBatch)
    (strategy : String → MergeStrategy) (rank : String → Nat) : Except ParallelMergeError Unit :=
  match ((keyOwners batches).reorder rank).entries.findSome? (ownerConflict strategy) with
  | some e => .error e
  | none => .ok ()

end Remo

/-! ## The state store

The committed state with the registry of its keys. A commit applies one batch at once.
-/

namespace Remo

variable {keys : StateKeys}

/-- The registered keys by name, with their merge strategies. -/
structure PluginRegistry where
  keysByName : AssocMap String MergeStrategy

namespace PluginRegistry

/-- A key that is not registered counts as exclusive. -/
def mergeStrategy (self : PluginRegistry) (key : String) : MergeStrategy :=
  (self.keysByName.get? key).getD .exclusive

def ensureKey (self : PluginRegistry) (key : String) : Except StateError Unit :=
  if (self.keysByName.get? key).isSome then .ok () else .error (.unknownKey key)

end PluginRegistry

structure StateStore (keys : StateKeys) where
  inner : Snapshot keys
  registry : PluginRegistry

namespace StateStore

def snapshot (self : StateStore keys) : Snapshot keys := self.inner

def revision (self : StateStore keys) : Nat := self.inner.revision

/-- Merge multiple commands from parallel execution into one. -/
def mergeAllCommands (self : StateStore keys) (commands : List (StateCommand keys)) :
    Except StateError (StateCommand keys) :=
  commands.foldlM (fun acc cmd => acc.mergeParallel cmd self.registry.mergeStrategy) .new

/-- A batch computed at an older revision is refused. -/
def checkRevision (self : StateStore keys) (patch : MutationBatch keys) :
    Except StateError Unit :=
  match patch.baseRevision with
  | some expected =>
    if self.revision ≠ expected then .error (.revisionConflict expected self.revision) else .ok ()
  | none => .ok ()

/-- Apply the batch and count the revision, or leave the store as it is. -/
def commit (self : StateStore keys) (patch : MutationBatch keys) :
    Except StateError (Nat × StateStore keys) := do
  if patch.isEmpty then
    return (self.revision, self)
  self.checkRevision patch
  patch.touchedKeys.forM self.registry.ensureKey
  let ext := patch.ops.foldl MutationOp.apply self.inner.ext
  return (self.revision + 1, { self with inner := ⟨self.revision + 1, ext⟩ })

end StateStore

end Remo
