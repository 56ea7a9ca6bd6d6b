import Remo.Native.Str

/-!
# Scopes

Scope ids and the keys under which a scoped wrapper stores its records. A key
carries the byte length of the scope id, so that no scope can write a key of
another one.
-/

namespace Remo

/-- The longest scope id in bytes. -/
def maxScopeIdLen : Nat := 512

/-- A checked scope id. -/
structure ScopeId where
  value : String
  notBlank : Str.isBlank value = false
  short : value.utf8ByteSize ≤ maxScopeIdLen
  noControl : value.toList.any Str.isControl = false
deriving Repr

theorem ScopeId.ext {a b : ScopeId} (h : a.value = b.value) : a = b := by
  cases a
  cases b
  cases h
  rfl

instance : DecidableEq ScopeId := fun a b =>
  decidable_of_iff (a.value = b.value) ⟨ScopeId.ext, congrArg ScopeId.value⟩

/-- What the keys of a scope start with. -/
def ScopeId.keyStart (scopeId : ScopeId) : String :=
  "scope:" ++ toString scopeId.value.utf8ByteSize ++ ":" ++ scopeId.value ++ ":"

/-- The key of a value in a scope. -/
def scopedKey (scopeId : ScopeId) (value : String) : String := scopeId.keyStart ++ value

/-- The value of a key of the scope. -/
def unscopedKey (scopeId : ScopeId) (value : String) : Option String :=
  Str.stripPrefix scopeId.keyStart value

end Remo
