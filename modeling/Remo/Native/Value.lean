import Remo.Native.Str

/-!
# JSON values

`serde_json::Value` and its compact printing. A number is kept as its printed text,
an object as the entries its iterator yields.
-/

namespace Remo

/-- `serde_json::Value`. -/
inductive Value where
  | null
  | bool (b : Bool)
  | number (text : String)
  | string (s : String)
  | array (elems : List Value)
  | object (entries : List (String × Value))

namespace Value

/-- `Value::get` with a key. -/
def get (name : String) : Value → Option Value
  | .object entries => entries.lookup name
  | _ => none

/-- `Value::as_array`. -/
def asArray : Value → Option (List Value)
  | .array elems => some elems
  | _ => none

/-- `Value::as_object`. -/
def asObject : Value → Option (List (String × Value))
  | .object entries => some entries
  | _ => none

/-- A hexadecimal digit, in lower case. -/
def hexDigit (n : Nat) : Char :=
  if n < 10 then Char.ofNat (0x30 + n) else Char.ofNat (0x61 + (n - 10))

/-- One character of a printed JSON string. -/
def escapeChar (c : Char) : List Char :=
  match c with
  | '"' => ['\\', '"']
  | '\\' => ['\\', '\\']
  | '\n' => ['\\', 'n']
  | '\r' => ['\\', 'r']
  | '\t' => ['\\', 't']
  | c =>
    if c.toNat = 0x08 then ['\\', 'b']
    else if c.toNat = 0x0C then ['\\', 'f']
    else if c.toNat < 0x20 then
      ['\\', 'u', '0', '0', hexDigit (c.toNat / 16), hexDigit (c.toNat % 16)]
    else [c]

/-- A printed JSON string. -/
def printString (s : String) : String :=
  "\"" ++ String.ofList (s.toList.flatMap escapeChar) ++ "\""

mutual

/-- `Value::to_string`: the compact printing. -/
def print : Value → String
  | .null => "null"
  | .bool b => if b then "true" else "false"
  | .number text => text
  | .string s => printString s
  | .array elems => "[" ++ String.intercalate "," (printElems elems) ++ "]"
  | .object entries => "\x7b" ++ String.intercalate "," (printEntries entries) ++ "\x7d"

/-- The printed elements of an array. -/
def printElems : List Value → List String
  | [] => []
  | v :: elems => print v :: printElems elems

/-- The printed entries of an object. -/
def printEntries : List (String × Value) → List String
  | [] => []
  | (name, v) :: entries => (printString name ++ ":" ++ print v) :: printEntries entries

end

example : print (.object [("a", .array [.number "1", .string "x\"y"])]) =
    "\x7b\"a\":[1,\"x\\\"y\"]\x7d" := by decide

/-! ## The values of the type -/

/-- A character that occurs in printed numbers. -/
def IsNumberChar (c : Char) : Prop := c.isDigit = true ∨ c ∈ ['-', '+', '.', 'e', 'E']

instance : DecidablePred IsNumberChar := fun c =>
  inferInstanceAs (Decidable (c.isDigit = true ∨ c ∈ ['-', '+', '.', 'e', 'E']))

mutual

/-- Numbers are printed as numbers, and no object has a key twice. -/
def WellFormed : Value → Prop
  | .null => True
  | .bool _ => True
  | .number text => text.toList ≠ [] ∧ ∀ c ∈ text.toList, IsNumberChar c
  | .string _ => True
  | .array elems => WellFormedElems elems
  | .object entries => (entries.map Prod.fst).Nodup ∧ WellFormedEntries entries

def WellFormedElems : List Value → Prop
  | [] => True
  | v :: elems => WellFormed v ∧ WellFormedElems elems

def WellFormedEntries : List (String × Value) → Prop
  | [] => True
  | (_, v) :: entries => WellFormed v ∧ WellFormedEntries entries

end

/-! ## Equality -/

mutual

def beq : Value → Value → Bool
  | .null, .null => true
  | .bool a, .bool b => a == b
  | .number a, .number b => a == b
  | .string a, .string b => a == b
  | .array a, .array b => beqElems a b
  | .object a, .object b => beqEntries a b
  | _, _ => false

def beqElems : List Value → List Value → Bool
  | [], [] => true
  | v :: elems, w :: elems' => beq v w && beqElems elems elems'
  | _, _ => false

def beqEntries : List (String × Value) → List (String × Value) → Bool
  | [], [] => true
  | (name, v) :: entries, (name', w) :: entries' =>
    name == name' && beq v w && beqEntries entries entries'
  | _, _ => false

end

mutual

theorem beq_refl (v : Value) : beq v v = true := by
  cases v with
  | null => rfl
  | bool b => simp [beq]
  | number text => simp [beq]
  | string s => simp [beq]
  | array elems => simpa [beq] using beqElems_refl elems
  | object entries => simpa [beq] using beqEntries_refl entries

theorem beqElems_refl (elems : List Value) : beqElems elems elems = true := by
  cases elems with
  | nil => rfl
  | cons v elems => simp [beqElems, beq_refl v, beqElems_refl elems]

theorem beqEntries_refl (entries : List (String × Value)) : beqEntries entries entries = true := by
  cases entries with
  | nil => rfl
  | cons entry entries =>
    obtain ⟨name, v⟩ := entry
    simp [beqEntries, beq_refl v, beqEntries_refl entries]

end

mutual

theorem eq_of_beq {v w : Value} (h : beq v w = true) : v = w := by
  cases v with
  | null => cases w <;> simp_all [beq]
  | bool b => cases w <;> simp_all [beq]
  | number text => cases w <;> simp_all [beq]
  | string s => cases w <;> simp_all [beq]
  | array elems =>
    cases w with
    | array elems' =>
      have hsame : beqElems elems elems' = true := by simpa [beq] using h
      rw [eq_of_beqElems hsame]
    | _ => simp [beq] at h
  | object entries =>
    cases w with
    | object entries' =>
      have hsame : beqEntries entries entries' = true := by simpa [beq] using h
      rw [eq_of_beqEntries hsame]
    | _ => simp [beq] at h

theorem eq_of_beqElems {elems elems' : List Value} (h : beqElems elems elems' = true) :
    elems = elems' := by
  cases elems with
  | nil => cases elems' <;> simp_all [beqElems]
  | cons v elems =>
    cases elems' with
    | nil => simp [beqElems] at h
    | cons w elems' =>
      simp only [beqElems, Bool.and_eq_true] at h
      rw [eq_of_beq h.1, eq_of_beqElems h.2]

theorem eq_of_beqEntries {entries entries' : List (String × Value)}
    (h : beqEntries entries entries' = true) : entries = entries' := by
  cases entries with
  | nil => cases entries' <;> simp_all [beqEntries]
  | cons entry entries =>
    cases entries' with
    | nil => simp [beqEntries] at h
    | cons entry' entries' =>
      obtain ⟨name, v⟩ := entry
      obtain ⟨name', w⟩ := entry'
      simp only [beqEntries, Bool.and_eq_true, beq_iff_eq] at h
      rw [h.1.1, eq_of_beq h.1.2, eq_of_beqEntries h.2]

end

instance : DecidableEq Value := fun v w =>
  decidable_of_iff (beq v w = true) ⟨eq_of_beq, fun h => h ▸ beq_refl v⟩

end Value

/-- A value as `serde_json` builds it. -/
structure JsonValue where
  value : Value
  wellFormed : value.WellFormed

end Remo
