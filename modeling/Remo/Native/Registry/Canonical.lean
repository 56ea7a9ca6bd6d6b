import Mathlib.Data.List.Lex
import Mathlib.Data.List.Sort
import Remo.ForStd.Utf8
import Remo.Native.Value

/-!
# Canonical bytes of registry content

The bytes that the content hash of a published resource is taken of. The entries of an object are
written in the order of their encoded keys.
-/

namespace Remo

inductive PinnedRegistryHashError where
  | serialization (message : String)
  | invalidRequest (message : String)
deriving Repr, DecidableEq

/-- The bytes of a text. -/
def bytesOf (s : String) : List UInt8 := Utf8.bytes s.toList

/-- The order of byte strings: the first byte that differs decides. -/
def BytesLe (a b : List UInt8) : Prop := a.map UInt8.toNat ≤ b.map UInt8.toNat

instance (a b : List UInt8) : Decidable (BytesLe a b) :=
  inferInstanceAs (Decidable (a.map UInt8.toNat ≤ b.map UInt8.toNat))

/-- The results of a loop that stops at the first error. -/
def collectResults {ε α : Type} : List (Except ε α) → Except ε (List α)
  | [] => .ok []
  | .error e :: _ => .error e
  | .ok a :: results =>
    match collectResults results with
    | .error e => .error e
    | .ok as => .ok (a :: as)

/-- Put what was written between the brackets, with commas. -/
def bracketed {ε : Type} (left right : String) :
    Except ε (List (List UInt8)) → Except ε (List UInt8)
  | .error e => .error e
  | .ok parts =>
    .ok (bytesOf left ++ List.intercalate (bytesOf ",") parts ++ bytesOf right)

/-- An entry behind its encoded key. -/
def writeEntry {ε : Type} (entry : List UInt8 × Except ε (List UInt8)) : Except ε (List UInt8) :=
  entry.2.map fun value => entry.1 ++ bytesOf ":" ++ value

/-- Entries are sorted by their encoded keys. -/
def EntryLe {α : Type} (a b : List UInt8 × α) : Prop := BytesLe a.1 b.1

instance {α : Type} : DecidableRel (@EntryLe α) := fun a b =>
  inferInstanceAs (Decidable (BytesLe a.1 b.1))

section Write

-- The display of a number as a float, when it is not finite.
variable (nonFinite : String → Option String)

mutual

/-- Writing a scalar to a buffer does not fail. -/
def writeCanonicalJson : Value → Except PinnedRegistryHashError (List UInt8)
  | .null => .ok (bytesOf (Value.print .null))
  | .bool b => .ok (bytesOf (Value.print (.bool b)))
  | .string s => .ok (bytesOf (Value.print (.string s)))
  | .number text =>
    match nonFinite text with
    | some float =>
      .error (.invalidRequest s!"non-finite number cannot be canonicalized: {float}")
    | none => .ok (bytesOf (Value.print (.number text)))
  | .array elems => bracketed "[" "]" (collectResults (writeElems elems))
  | .object entries =>
    bracketed "\x7b" "\x7d"
      (collectResults (((writeEntries entries).insertionSort EntryLe).map writeEntry))

/-- What each of the elements of an array is written as. -/
def writeElems : List Value → List (Except PinnedRegistryHashError (List UInt8))
  | [] => []
  | v :: elems => writeCanonicalJson v :: writeElems elems

/-- What each of the values of an object is written as, with its encoded key. -/
def writeEntries : List (String × Value) →
    List (List UInt8 × Except PinnedRegistryHashError (List UInt8))
  | [] => []
  | (name, v) :: entries =>
    (bytesOf (Value.printString name), writeCanonicalJson v) :: writeEntries entries

end

def canonicalRegistryJsonBytes (valueSchemaVersion : UInt32) (value : Value) :
    Except PinnedRegistryHashError (List UInt8) :=
  match writeCanonicalJson nonFinite value with
  | .error error => .error error
  | .ok bytes =>
    match writeCanonicalJson nonFinite (.number (toString valueSchemaVersion.toNat)) with
    | .error error => .error error
    | .ok version =>
      .ok (bytesOf "\x7b\"value\":" ++ bytes ++ bytesOf ",\"value_schema_version\":" ++ version ++
        bytesOf "\x7d")

-- The hexadecimal digits of a SHA-256 digest.
variable (digest : List UInt8 → String)

/-- The content hash with the bytes it is taken of. -/
def registryContentHash (valueSchemaVersion : UInt32) (value : Value) :
    Except PinnedRegistryHashError (String × List UInt8) :=
  match canonicalRegistryJsonBytes nonFinite valueSchemaVersion value with
  | .error error => .error error
  | .ok bytes => .ok (s!"sha256:{digest bytes}", bytes)

end Write

end Remo
