import Mathlib.Data.List.DropRight

/-!
# Rust string helpers

The identifier checks of the stores are `value.trim().is_empty()`. Rust trims the
Unicode `White_Space` characters. The length of a string is its UTF-8 byte count.
-/

namespace Remo

namespace Str

/-- `char::is_whitespace`: the Unicode `White_Space` property. -/
def isWhitespace (c : Char) : Bool :=
  let n := c.toNat
  (0x09 ≤ n && n ≤ 0x0D) || n == 0x20 || n == 0x85 || n == 0xA0 || n == 0x1680 ||
    (0x2000 ≤ n && n ≤ 0x200A) || n == 0x2028 || n == 0x2029 || n == 0x202F ||
    n == 0x205F || n == 0x3000

/-- `str::trim`. -/
def trim (s : String) : String :=
  String.ofList ((s.toList.dropWhile isWhitespace).rdropWhile isWhitespace)

/-- `value.trim().is_empty()`. -/
def isBlank (s : String) : Bool := (trim s).isEmpty

/-- `str::strip_prefix`. -/
def stripPrefix (pre s : String) : Option String :=
  if pre.toList <+: s.toList then some (String.ofList (s.toList.drop pre.toList.length)) else none

/-- `str::starts_with`. -/
def startsWith (pre s : String) : Bool := decide (pre.toList <+: s.toList)

/-- `char::is_control`: the Unicode general category `Cc`. -/
def isControl (c : Char) : Bool :=
  let n := c.toNat
  n ≤ 0x1F || (0x7F ≤ n && n ≤ 0x9F)

/-- The pattern starts at some position of the text. -/
def occurs (pattern : List Char) : List Char → Bool
  | [] => pattern.isEmpty
  | c :: text => pattern.isPrefixOf (c :: text) || occurs pattern text

/-- `str::contains`. -/
def contains (s pattern : String) : Bool := occurs pattern.toList s.toList

theorem contains_append (pattern rest : String) : contains (pattern ++ rest) pattern = true := by
  unfold contains
  rw [String.toList_append]
  cases pattern.toList with
  | nil => cases rest.toList <;> rfl
  | cons c cs =>
    show (List.isPrefixOf (c :: cs) ((c :: cs) ++ rest.toList) || _) = true
    rw [List.isPrefixOf_iff_prefix.mpr (List.prefix_append _ _), Bool.true_or]

/-- A string is blank exactly when all its characters are white space. -/
theorem isBlank_iff (s : String) : isBlank s = true ↔ ∀ c ∈ s.toList, isWhitespace c = true := by
  have htrim : isBlank s = true ↔ ∀ c ∈ s.toList.dropWhile isWhitespace, isWhitespace c = true := by
    rw [← List.rdropWhile_eq_nil_iff]
    simp [isBlank, trim]
  rw [htrim]
  constructor
  · intro h
    rw [← List.dropWhile_eq_nil_iff]
    cases hd : s.toList.dropWhile isWhitespace with
    | nil => rfl
    | cons c cs =>
      have hc : isWhitespace c = false := by
        have := List.head_dropWhile_not (l := s.toList) isWhitespace (by simp [hd])
        simpa [hd] using this
      exact absurd (h c (by simp [hd])) (by simp [hc])
  · exact fun h c hc => h c ((List.dropWhile_sublist _).subset hc)

/-- A character that is not white space keeps a string from being blank. -/
theorem isBlank_eq_false {s : String} {c : Char} (hc : c ∈ s.toList)
    (hw : isWhitespace c = false) : isBlank s = false := by
  rw [Bool.eq_false_iff]
  exact fun h => absurd ((isBlank_iff s).mp h c hc) (by simp [hw])

example : isBlank " \t" = true ∧ isBlank "d-1" = false := by decide

end Str

/-- `str::parse::<u64>`. -/
def parseU64 (s : String) : Option UInt64 :=
  let digits := if s.toList.head? = some '+' then s.toList.tail else s.toList
  let number := digits.foldl (fun n c => 10 * n + (c.toNat - 48)) 0
  if digits.isEmpty ∨ digits.all Char.isDigit = false ∨ 0xFFFFFFFFFFFFFFFF < number then none
  else some (UInt64.ofNat number)

/-- The text of a generated UUID. It is never blank. -/
structure Uuid where
  text : String
  notBlank : Str.isBlank text = false
deriving Repr, DecidableEq

namespace Uuid

/-! Ids for runs on fixed inputs. -/

def token : Uuid := ⟨"token", by decide⟩

def firstToken : Uuid := ⟨"token-1", by decide⟩

def secondToken : Uuid := ⟨"token-2", by decide⟩

def generated : Uuid := ⟨"generated", by decide⟩

end Uuid

end Remo
