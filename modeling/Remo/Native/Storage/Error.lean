import Remo.ForStd.Method
import Remo.Native.Str

/-!
# Storage errors and panics

A store call returns, fails with a `StorageError`, or panics. Panics are kept
apart from errors: they come from an `expect` on a transition that must succeed,
or from integer arithmetic that leaves its type.
-/

namespace Remo

/-- Errors returned by storage operations. -/
inductive StorageError where
  | validation (message : String)
  | notFound (key : String)
  | alreadyExists (key : String)
  | versionConflict (expected actual : UInt64)
  | pendingSelectionConflict (expectedIds actualIds : List String)
  | io (message : String)
  | commitUnknown (message : String)
  | serialization (message : String)
deriving Repr, DecidableEq

/-- Reject a blank identifier. -/
def requireNonEmpty (field value : String) : Except StorageError Unit :=
  if Str.isBlank value then .error (.validation s!"{field} must not be empty") else .ok ()

theorem requireNonEmpty_ok {field value : String} :
    requireNonEmpty field value = .ok () ↔ Str.isBlank value = false := by
  unfold requireNonEmpty
  split <;> simp_all

/-- Reject a blank identifier where one is given. -/
def requireOptionalNonEmpty (field : String) : Option String → Except StorageError Unit
  | none => .ok ()
  | some value => requireNonEmpty field value

/-- Why a call unwound instead of returning. -/
inductive Panic where
  | expectFailed (message : String) (error : StorageError)
  | arithmeticOverflow
deriving Repr, DecidableEq

/-- A call that did not return a value. -/
inductive Fault where
  | storage (error : StorageError)
  | panic (panic : Panic)
deriving Repr, DecidableEq

/-- The call panicked in an `expect`. -/
def Fault.isExpectFailure : Fault → Bool
  | .panic (.expectFailed _ _) => true
  | _ => false

/-- The result of a call. -/
abbrev Outcome (α : Type) := Except Fault α

namespace Outcome

/-- Return a storage error. -/
def fail {α : Type} (e : StorageError) : Outcome α := .error (.storage e)

/-- `u64` addition, which panics on overflow. -/
def addU64 (a b : UInt64) : Outcome UInt64 :=
  if a.toNat + b.toNat < 0x10000000000000000 then .ok (a + b) else .error (.panic .arithmeticOverflow)

theorem addU64_eq_ok {a b c : UInt64} (h : addU64 a b = .ok c) : c = a + b := by
  unfold addU64 at h
  split at h
  · cases h; rfl
  · cases h

/-- A successor in range is larger. -/
theorem lt_add_one {n : UInt64} (h : n.toNat + 1 < 0x10000000000000000) : n < n + 1 := by
  rw [UInt64.lt_iff_toNat_lt, UInt64.toNat_add]
  simp only [UInt64.toNat_one]
  omega

/-- A successor that does not overflow is larger. -/
theorem lt_of_addU64_one {a c : UInt64} (h : addU64 a 1 = .ok c) : a < c := by
  unfold addU64 at h
  split at h
  · rename_i hlt
    cases h
    exact lt_add_one hlt
  · cases h

/-- `Result::expect`: a failed result panics with the message. -/
def expect {α : Type} (message : String) : Except StorageError α → Outcome α
  | .ok a => .ok a
  | .error e => .error (.panic (.expectFailed message e))

/-- The `?` operator on a storage result. -/
def ofResult {α : Type} : Except StorageError α → Outcome α
  | .ok a => .ok a
  | .error e => .error (.storage e)

/-- The call panicked in an `expect`. -/
def expectFailed {α : Type} : Outcome α → Bool
  | .ok _ => false
  | .error f => f.isExpectFailure

/-- The call returned a value. -/
def isOk {α : Type} : Outcome α → Bool
  | .ok _ => true
  | .error _ => false

end Outcome

end Remo
