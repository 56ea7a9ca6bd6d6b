import Mathlib.Data.List.Basic

/-!
# Slices of a text by byte positions

A text is a list of characters, a position a number of bytes. A slice exists only between
positions where a character begins or the text ends.

Key results:
* `dropBytes_eq_some` a text can be cut exactly at its boundaries
-/

namespace Remo.Utf8

/-- Length in bytes. -/
def size : List Char → Nat
  | [] => 0
  | c :: cs => c.utf8Size + size cs

@[simp] theorem size_nil : size [] = 0 := rfl

@[simp] theorem size_cons (c : Char) (cs : List Char) : size (c :: cs) = c.utf8Size + size cs := rfl

@[simp] theorem size_append (cs ds : List Char) : size (cs ++ ds) = size cs + size ds := by
  induction cs with
  | nil => simp
  | cons c cs ih => simp [ih, Nat.add_assoc]

theorem size_eq_zero {cs : List Char} : size cs = 0 ↔ cs = [] := by
  cases cs with
  | nil => simp
  | cons c cs =>
    have hpos := c.utf8Size_pos
    simp only [size_cons, reduceCtorEq, iff_false]
    omega

/-- Two beginnings of a text of the same size are equal. -/
theorem eq_of_isPrefix {a b text : List Char} (ha : a <+: text) (hb : b <+: text)
    (hsize : size a = size b) : a = b := by
  cases List.prefix_or_prefix_of_prefix ha hb with
  | inl hab =>
    obtain ⟨rest, rfl⟩ := hab
    rw [size_append] at hsize
    rw [size_eq_zero.mp (by omega : size rest = 0), List.append_nil]
  | inr hba =>
    obtain ⟨rest, rfl⟩ := hba
    rw [size_append] at hsize
    rw [size_eq_zero.mp (by omega : size rest = 0), List.append_nil]

/-- A character begins at the position, or the text ends there. -/
def IsBoundary (text : List Char) (pos : Nat) : Prop :=
  ∃ before rest, text = before ++ rest ∧ size before = pos

/-- The text from a position on, if that is a boundary. -/
def dropBytes : List Char → Nat → Option (List Char)
  | [], pos => if pos = 0 then some [] else none
  | c :: cs, pos =>
    if pos = 0 then some (c :: cs)
    else if c.utf8Size ≤ pos then dropBytes cs (pos - c.utf8Size)
    else none

theorem dropBytes_zero (cs : List Char) : dropBytes cs 0 = some cs := by
  cases cs <;> simp [dropBytes]

@[simp] theorem dropBytes_append (before rest : List Char) :
    dropBytes (before ++ rest) (size before) = some rest := by
  induction before with
  | nil => exact dropBytes_zero rest
  | cons c cs ih =>
    have hpos := c.utf8Size_pos
    rw [List.cons_append, dropBytes, size_cons, if_neg (by omega), if_pos (by omega),
      Nat.add_sub_cancel_left, ih]

/-- A text can be cut exactly at its boundaries. -/
theorem dropBytes_eq_some {text rest : List Char} {pos : Nat} :
    dropBytes text pos = some rest ↔ ∃ before, text = before ++ rest ∧ size before = pos := by
  constructor
  · intro h
    induction text generalizing pos with
    | nil =>
      rw [dropBytes] at h
      split at h
      · rename_i hzero
        exact ⟨[], by simpa using h, hzero.symm⟩
      · cases h
    | cons c cs ih =>
      rw [dropBytes] at h
      split at h
      · rename_i hzero
        exact ⟨[], by simpa using h, hzero.symm⟩
      · split at h
        · rename_i hle
          obtain ⟨before, hcs, hsize⟩ := ih h
          refine ⟨c :: before, by rw [hcs]; rfl, ?_⟩
          rw [size_cons, hsize]
          omega
        · cases h
  · intro h
    obtain ⟨before, rfl, rfl⟩ := h
    exact dropBytes_append before rest

end Remo.Utf8
