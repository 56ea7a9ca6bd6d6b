import Mathlib.Data.List.Basic
import Mathlib.Data.List.Induction
import Mathlib.Order.Lattice

/-!
# Maxima of lists

The element that a scan keeps: the first of the best elements, or the last one.

## Key results

- `firstMax?_eq_some_iff`: what the scan finds
- `firstMax?_filter`: leaving out other elements does not move the first maximum
- `mem_of_maxBy?` the maximum is one of the elements
- `le_of_maxBy?`  no element has a greater rank
-/

/-! ## The first maximum of a list

A scan from left to right that gives up its best element for a better one only. What it finds
stands where no earlier element is as good and no later one is better, and that place is still
such a place when other elements are left out.
-/

namespace Remo

variable {α S : Type*} [LinearOrder S]

/-- Keep the best element unless the new one scores higher. -/
def betterOf (score : α → S) (best : Option α) (a : α) : Option α :=
  match best with
  | none => some a
  | some b => if score a ≤ score b then some b else some a

/-- The first element with the greatest score. -/
def firstMax? (score : α → S) (l : List α) : Option α := l.foldl (betterOf score) none

/-- The element scores higher than all in front of it, and no lower than all behind it. -/
def IsFirstMax (score : α → S) (l : List α) (b : α) : Prop :=
  ∃ before after, l = before ++ b :: after ∧ (∀ a ∈ before, score a < score b) ∧
    ∀ a ∈ after, score a ≤ score b

variable {score : α → S}

theorem firstMax?_concat (l : List α) (a : α) :
    firstMax? score (l ++ [a]) = betterOf score (firstMax? score l) a := by
  unfold firstMax?
  rw [List.foldl_append]
  rfl

/-- There is no first maximum of no elements only. -/
theorem firstMax?_isSome (score : α → S) {l : List α} (h : l ≠ []) :
    (firstMax? score l).isSome = true := by
  cases l using List.reverseRecOn with
  | nil => exact absurd rfl h
  | append_singleton l a =>
    rw [firstMax?_concat]
    cases firstMax? score l with
    | none => rfl
    | some b =>
      show (if score a ≤ score b then some b else some a).isSome = true
      split <;> rfl

theorem isFirstMax_of_eq_some {l : List α} {b : α} (h : firstMax? score l = some b) :
    IsFirstMax score l b := by
  induction l using List.reverseRecOn generalizing b with
  | nil => cases h
  | append_singleton l a ih =>
    rw [firstMax?_concat] at h
    cases hbest : firstMax? score l with
    | none =>
      rw [hbest] at h
      obtain rfl : a = b := Option.some.inj h
      have hnil : l = [] := by
        by_contra hne
        have hsome := firstMax?_isSome score hne
        rw [hbest] at hsome
        cases hsome
      rw [hnil]
      exact ⟨[], [], rfl, by simp, by simp⟩
    | some c =>
      obtain ⟨before, after, hl, hbefore, hafter⟩ := ih hbest
      rw [hbest] at h
      change (if score a ≤ score c then some c else some a) = some b at h
      by_cases hle : score a ≤ score c
      · rw [if_pos hle] at h
        obtain rfl : c = b := Option.some.inj h
        refine ⟨before, after ++ [a], by simp [hl], hbefore, ?_⟩
        intro x hx
        cases List.mem_append.mp hx with
        | inl hx => exact hafter x hx
        | inr hx =>
          rw [List.mem_singleton.mp hx]
          exact hle
      · rw [if_neg hle] at h
        obtain rfl : a = b := Option.some.inj h
        have hlt : score c < score a := not_le.mp hle
        refine ⟨l, [], rfl, ?_, by simp⟩
        intro x hx
        rw [hl] at hx
        cases List.mem_append.mp hx with
        | inl hx => exact (hbefore x hx).trans hlt
        | inr hx =>
          cases List.mem_cons.mp hx with
          | inl hx =>
            rw [hx]
            exact hlt
          | inr hx => exact (hafter x hx).trans_lt hlt

/-- The first maximum is one element. -/
theorem IsFirstMax.unique {l : List α} {b c : α} (hb : IsFirstMax score l b)
    (hc : IsFirstMax score l c) : b = c := by
  obtain ⟨before, after, hl, hbefore, hafter⟩ := hb
  obtain ⟨before', after', hl', hbefore', hafter'⟩ := hc
  rw [hl] at hl'
  rcases List.append_eq_append_iff.mp hl' with ⟨mid, hmid, htail⟩ | ⟨mid, hmid, htail⟩
  · cases mid with
    | nil =>
      rw [List.nil_append] at htail
      exact (List.cons.inj htail).1
    | cons x mid =>
      -- the second one stands behind the first
      obtain ⟨rfl, hrest⟩ := List.cons.inj htail
      have hlt : score b < score c := hbefore' b (by simp [hmid])
      have hle : score c ≤ score b := hafter c (by rw [hrest]; show c ∈ mid ++ c :: after'; simp)
      exact absurd hle (not_le.mpr hlt)
  · cases mid with
    | nil =>
      rw [List.nil_append] at htail
      exact (List.cons.inj htail).1.symm
    | cons x mid =>
      obtain ⟨rfl, hrest⟩ := List.cons.inj htail
      have hlt : score c < score b := hbefore c (by simp [hmid])
      have hle : score b ≤ score c := hafter' b (by rw [hrest]; show b ∈ mid ++ b :: after; simp)
      exact absurd hle (not_le.mpr hlt)

/-- What the scan finds. -/
theorem firstMax?_eq_some_iff {l : List α} {b : α} :
    firstMax? score l = some b ↔ IsFirstMax score l b := by
  constructor
  · exact isFirstMax_of_eq_some
  · intro h
    have hne : l ≠ [] := by
      obtain ⟨before, after, hl, -⟩ := h
      rw [hl]
      simp
    obtain ⟨c, hc⟩ := Option.isSome_iff_exists.mp (firstMax?_isSome score hne)
    rw [hc, (isFirstMax_of_eq_some hc).unique h]

theorem mem_of_firstMax? {l : List α} {b : α} (h : firstMax? score l = some b) : b ∈ l := by
  obtain ⟨before, after, hl, -⟩ := isFirstMax_of_eq_some h
  rw [hl]
  simp

/-- Leaving out other elements does not move the first maximum. -/
theorem firstMax?_filter {l : List α} {b : α} (h : firstMax? score l = some b) {p : α → Bool}
    (hp : p b = true) : firstMax? score (l.filter p) = some b := by
  obtain ⟨before, after, hl, hbefore, hafter⟩ := isFirstMax_of_eq_some h
  apply firstMax?_eq_some_iff.mpr
  refine ⟨before.filter p, after.filter p, ?_, ?_, ?_⟩
  · rw [hl, List.filter_append, List.filter_cons_of_pos hp]
  · intro a ha
    exact hbefore a (List.mem_of_mem_filter ha)
  · intro a ha
    exact hafter a (List.mem_of_mem_filter ha)

end Remo

/-! ## The last maximum of a list

`Iterator::max_by` keeps a running maximum and gives it up for every later element
that is not smaller. What its result is above depends only on how the comparison
relates to a rank, so the comparison itself need not be an order.
-/

namespace Remo

variable {α : Type*}

/-- The greater of two elements, the second one on a tie. -/
def laterMax (cmp : α → α → Ordering) (a b : α) : α := if cmp a b = .gt then a else b

/-- `Iterator::max_by`. -/
def maxBy? (cmp : α → α → Ordering) : List α → Option α
  | [] => none
  | a :: l => some (l.foldl (laterMax cmp) a)

@[simp] theorem maxBy?_nil (cmp : α → α → Ordering) : maxBy? cmp ([] : List α) = none := rfl

/-- There is no maximum of no elements only. -/
@[simp] theorem maxBy?_eq_none {cmp : α → α → Ordering} {l : List α} :
    maxBy? cmp l = none ↔ l = [] := by
  cases l <;> simp [maxBy?]

theorem laterMax_eq (cmp : α → α → Ordering) (a b : α) :
    laterMax cmp a b = a ∨ laterMax cmp a b = b := by
  unfold laterMax
  split
  · exact .inl rfl
  · exact .inr rfl

/-- The running maximum is the first element or a later one. -/
theorem foldl_laterMax_mem (cmp : α → α → Ordering) (a : α) (l : List α) :
    l.foldl (laterMax cmp) a ∈ a :: l := by
  induction l generalizing a with
  | nil => simp
  | cons b l ih =>
    rw [List.foldl_cons]
    cases List.mem_cons.mp (ih (laterMax cmp a b)) with
    | inl hfirst =>
      rw [hfirst]
      cases laterMax_eq cmp a b with
      | inl h => simp [h]
      | inr h => simp [h]
    | inr hlater => simp [hlater]

theorem mem_of_maxBy? {cmp : α → α → Ordering} {l : List α} {best : α}
    (h : maxBy? cmp l = some best) : best ∈ l := by
  cases l with
  | nil => simp at h
  | cons a l =>
    obtain rfl := Option.some.inj h
    exact foldl_laterMax_mem cmp a l

section Rank

variable {cmp : α → α → Ordering} {rank : α → Nat}

/-- The greater of two elements has at least the rank of both. -/
theorem le_laterMax (hgt : ∀ a b, cmp a b = .gt → rank b ≤ rank a)
    (hle : ∀ a b, cmp a b ≠ .gt → rank a ≤ rank b) (a b : α) :
    rank a ≤ rank (laterMax cmp a b) ∧ rank b ≤ rank (laterMax cmp a b) := by
  unfold laterMax
  by_cases hcmp : cmp a b = .gt
  · rw [if_pos hcmp]
    exact ⟨Nat.le_refl _, hgt a b hcmp⟩
  · rw [if_neg hcmp]
    exact ⟨hle a b hcmp, Nat.le_refl _⟩

/-- The rank of the running maximum never falls. -/
theorem le_foldl_laterMax (hgt : ∀ a b, cmp a b = .gt → rank b ≤ rank a)
    (hle : ∀ a b, cmp a b ≠ .gt → rank a ≤ rank b) (a : α) (l : List α) :
    ∀ b ∈ a :: l, rank b ≤ rank (l.foldl (laterMax cmp) a) := by
  induction l generalizing a with
  | nil => simp
  | cons c l ih =>
    intro b hb
    rw [List.foldl_cons]
    have hkept := ih (laterMax cmp a c)
    have hstart := hkept _ List.mem_cons_self
    have hboth := le_laterMax hgt hle a c
    simp only [List.mem_cons] at hb
    rcases hb with rfl | rfl | hb
    · omega
    · omega
    · exact hkept b (List.mem_cons_of_mem _ hb)

theorem le_of_maxBy? (hgt : ∀ a b, cmp a b = .gt → rank b ≤ rank a)
    (hle : ∀ a b, cmp a b ≠ .gt → rank a ≤ rank b) {l : List α} {best : α}
    (h : maxBy? cmp l = some best) : ∀ b ∈ l, rank b ≤ rank best := by
  cases l with
  | nil => simp at h
  | cons a l =>
    obtain rfl := Option.some.inj h
    exact le_foldl_laterMax hgt hle a l

end Rank

end Remo
