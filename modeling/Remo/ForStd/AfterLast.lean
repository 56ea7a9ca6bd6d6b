import Mathlib.Data.List.Basic

/-!
# What comes behind the last marker

## Key results

- `afterLast_flatMap`: the parts behind the last part that ends with a marker are what is behind the
  last marker.
- `append_eq_split`: where an element of two lists in a row is.
-/

namespace Remo

variable {α β : Type*}

/-- The elements behind the last one with the property. -/
def afterLast (p : α → Bool) : List α → List α
  | [] => []
  | x :: xs => if xs.any p then afterLast p xs else if p x then xs else x :: xs

theorem afterLast_of_any_eq_false {p : α → Bool} {xs : List α} (h : xs.any p = false) :
    afterLast p xs = xs := by
  cases xs with
  | nil => rfl
  | cons x xs =>
    rw [List.any_cons, Bool.or_eq_false_iff] at h
    unfold afterLast
    rw [h.1, h.2]
    rfl

theorem any_afterLast (p : α → Bool) (xs : List α) : (afterLast p xs).any p = false := by
  induction xs with
  | nil => rfl
  | cons x xs ih =>
    unfold afterLast
    cases hxs : xs.any p with
    | true => exact ih
    | false =>
      cases hx : p x with
      | true => exact hxs
      | false =>
        show (x :: xs).any p = false
        rw [List.any_cons, hx, hxs]
        rfl

theorem afterLast_suffix (p : α → Bool) (xs : List α) : afterLast p xs <:+ xs := by
  induction xs with
  | nil => exact List.suffix_refl _
  | cons x xs ih =>
    unfold afterLast
    split
    · exact ih.trans (List.suffix_cons _ _)
    · split
      · exact List.suffix_cons _ _
      · exact List.suffix_refl _

theorem afterLast_append_of_any {p : α → Bool} {xs ys : List α} (h : ys.any p = true) :
    afterLast p (xs ++ ys) = afterLast p ys := by
  induction xs with
  | nil => rfl
  | cons x xs ih =>
    have hany : (xs ++ ys).any p = true := by
      rw [List.any_append, h, Bool.or_true]
    rw [List.cons_append]
    show (if (xs ++ ys).any p then afterLast p (xs ++ ys) else _) = _
    rw [if_pos hany, ih]

theorem afterLast_append_cons {p : α → Bool} {xs ys : List α} {x : α} (hx : p x = true)
    (hys : ys.any p = false) : afterLast p (xs ++ x :: ys) = ys := by
  have hany : (x :: ys).any p = true := by
    rw [List.any_cons, hx, Bool.true_or]
  rw [afterLast_append_of_any hany]
  unfold afterLast
  rw [hys, hx]
  rfl

/-- The last element is behind the last marker, unless it is one. -/
theorem afterLast_concat {p : α → Bool} {xs : List α} {x : α} (hx : p x = false) :
    afterLast p (xs ++ [x]) = afterLast p xs ++ [x] := by
  induction xs with
  | nil =>
    show (if [].any p then _ else if p x then [] else [x]) = [x]
    rw [hx]
    rfl
  | cons y xs ih =>
    rw [List.cons_append]
    unfold afterLast
    rw [List.any_append, List.any_cons, hx, List.any_nil, Bool.or_false, Bool.or_false]
    cases xs.any p with
    | true => exact ih
    | false => cases p y <;> rfl

/-- The parts behind the last part that ends with a marker are what is behind the last marker. -/
theorem afterLast_flatMap {p : α → Bool} {q : β → Bool} {f : α → List β}
    (hnone : ∀ x, p x = false → (f x).any q = false)
    (hends : ∀ x, p x = true → ∃ front marker, f x = front ++ [marker] ∧ q marker = true)
    (xs : List α) : afterLast q (xs.flatMap f) = (afterLast p xs).flatMap f := by
  have hany : ∀ ys : List α, (ys.flatMap f).any q = ys.any p := by
    intro ys
    rw [List.any_flatMap]
    apply congrArg (List.any ys)
    funext x
    cases hx : p x with
    | false => exact hnone x hx
    | true =>
      obtain ⟨front, marker, heq, hmarker⟩ := hends x hx
      rw [heq, List.any_append, List.any_cons, hmarker, Bool.true_or, Bool.or_true]
  induction xs with
  | nil => rfl
  | cons x xs ih =>
    rw [List.flatMap_cons]
    show _ = (if xs.any p then afterLast p xs else if p x then xs else x :: xs).flatMap f
    cases hxs : xs.any p with
    | true =>
      rw [afterLast_append_of_any ((hany xs).trans hxs), ih, if_pos rfl]
    | false =>
      have hrest := (hany xs).trans hxs
      cases hx : p x with
      | true =>
        obtain ⟨front, marker, heq, hmarker⟩ := hends x hx
        rw [heq, List.append_assoc, List.singleton_append, afterLast_append_cons hmarker hrest]
        rfl
      | false =>
        rw [afterLast_of_any_eq_false]
        · rfl
        · rw [List.any_append, hnone x hx, hrest]
          rfl

/-- An element of two lists in a row is in the first or in the second one. -/
theorem append_eq_split {xs ys before after : List α} {x : α}
    (h : xs ++ ys = before ++ x :: after) :
    (∃ between, xs = before ++ x :: between ∧ after = between ++ ys) ∨
      ∃ between, before = xs ++ between ∧ ys = between ++ x :: after := by
  cases List.append_eq_append_iff.mp h with
  | inl hlonger =>
    obtain ⟨between, hbefore, hys⟩ := hlonger
    exact .inr ⟨between, hbefore, hys⟩
  | inr hshorter =>
    obtain ⟨between, hxs, hrest⟩ := hshorter
    cases between with
    | nil =>
      rw [List.append_nil] at hxs
      exact .inr ⟨[], by rw [hxs, List.append_nil], by rw [List.nil_append, hrest]; rfl⟩
    | cons y between =>
      obtain ⟨heq, hafter⟩ := List.cons.inj hrest
      rw [← heq] at hxs
      exact .inl ⟨between, hxs, hafter⟩

end Remo
