import Mathlib.Data.List.Basic

/-!
# Elements left out and put in

Where elements stand behind a filter, and lists with elements put in between.

## Key results

- `Inserted.trans`: insertions one after the other are insertions
- `Inserted.splice`: a block of such elements at one place
- `Inserted.split`: the part in front of an old element comes from what stood in front of it
-/

/-! ## Positions behind a filter

Where the elements that a filter keeps stand in the filtered list: under the number
of kept elements in front of them. They stand where they stood before exactly when
nothing is dropped in front of a kept element.
-/

namespace Remo

variable {α : Type*} {p : α → Bool} {l : List α}

/-- A kept element moves up to the kept ones in front of it. -/
theorem getElem?_filter_countP {i : Nat} {a : α} (h : l[i]? = some a) (hp : p a = true) :
    (l.filter p)[(l.take i).countP p]? = some a := by
  induction l generalizing i with
  | nil => simp at h
  | cons x l ih =>
    cases i with
    | zero =>
      obtain rfl : x = a := by simpa using h
      simp [hp]
    | succ i =>
      have htail := ih (by simpa using h)
      by_cases hx : p x = true
      · simpa [hx] using htail
      · simpa [hx] using htail

/-- What stands in the filtered list is a kept element of the list. -/
theorem exists_of_getElem?_filter {k : Nat} {a : α} (h : (l.filter p)[k]? = some a) :
    ∃ i, l[i]? = some a ∧ p a = true ∧ (l.take i).countP p = k := by
  induction l generalizing k with
  | nil => simp at h
  | cons x l ih =>
    by_cases hx : p x = true
    · rw [List.filter_cons_of_pos hx] at h
      cases k with
      | zero =>
        obtain rfl : x = a := by simpa using h
        exact ⟨0, rfl, hx, rfl⟩
      | succ k =>
        obtain ⟨i, hi, hp, hcount⟩ := ih (by simpa using h)
        exact ⟨i + 1, by simpa using hi, hp, by simp [hx, hcount]⟩
    · rw [List.filter_cons_of_neg hx] at h
      obtain ⟨i, hi, hp, hcount⟩ := ih h
      exact ⟨i + 1, by simpa using hi, hp, by simp [hx, hcount]⟩

/-- Nothing moves up exactly when nothing is dropped in front of a kept element. -/
theorem filter_prefix_iff :
    l.filter p <+: l ↔ l.Pairwise fun a b => p b = true → p a = true := by
  induction l with
  | nil => simp
  | cons x l ih =>
    rw [List.pairwise_cons]
    by_cases hx : p x = true
    · rw [List.filter_cons_of_pos hx, List.prefix_cons_inj, ih]
      simp [hx]
    · rw [List.filter_cons_of_neg hx]
      constructor
      · intro hfront
        -- the first kept element would have to be the dropped `x`
        have hnone : ∀ b ∈ l, ¬p b = true := by
          intro b hb hkept
          have hmem : b ∈ l.filter p := List.mem_filter.mpr ⟨hb, hkept⟩
          cases hf : l.filter p with
          | nil =>
            rw [hf] at hmem
            cases hmem
          | cons y ys =>
            rw [hf, List.cons_prefix_cons] at hfront
            have hy : y ∈ l.filter p := by
              rw [hf]
              exact List.mem_cons_self
            exact hx (hfront.1 ▸ (List.mem_filter.mp hy).2)
        refine ⟨fun b hb hkept => absurd hkept (hnone b hb), ?_⟩
        apply List.pairwise_of_forall_mem_list
        intro a _ b hb hkept
        exact absurd hkept (hnone b hb)
      · rintro ⟨hall, -⟩
        have hnil : l.filter p = [] := by
          rw [List.filter_eq_nil_iff]
          intro b hb hkept
          exact hx (hall b hb hkept)
        rw [hnil]
        exact List.nil_prefix

end Remo

/-! ## Insertions into a list

`Inserted p xs ys` says that `ys` is `xs` with elements of `p` put in between.
-/

namespace Remo

variable {α : Type*} {p : α → Prop} {xs ys zs block : List α} {x y : α}

/-- An element of two lists stands in the second one or in the first one. -/
theorem append_eq_append_cons {before after : List α} (h : xs ++ ys = before ++ x :: after) :
    (∃ mid, before = xs ++ mid ∧ ys = mid ++ x :: after) ∨
      ∃ mid, xs = before ++ x :: mid ∧ after = mid ++ ys := by
  cases List.append_eq_append_iff.mp h with
  | inl hback =>
    obtain ⟨mid, hbefore, hys⟩ := hback
    exact Or.inl ⟨mid, hbefore, hys⟩
  | inr hfront =>
    obtain ⟨mid, hxs, hrest⟩ := hfront
    cases mid with
    | nil =>
      rw [List.append_nil] at hxs
      exact Or.inl ⟨[], by rw [hxs, List.append_nil], hrest.symm⟩
    | cons first mid =>
      obtain ⟨rfl, hafter⟩ := List.cons.inj hrest
      exact Or.inr ⟨mid, hxs, hafter⟩

/-- The second list is the first one with elements of `p` put in between. -/
inductive Inserted (p : α → Prop) : List α → List α → Prop
  | nil : Inserted p [] []
  | keep (x : α) {xs ys : List α} : Inserted p xs ys → Inserted p (x :: xs) (x :: ys)
  | insert {x : α} {xs ys : List α} : p x → Inserted p xs ys → Inserted p xs (x :: ys)

namespace Inserted

theorem refl : ∀ xs : List α, Inserted p xs xs
  | [] => .nil
  | x :: xs => .keep x (refl xs)

theorem trans (h : Inserted p xs ys) (h' : Inserted p ys zs) : Inserted p xs zs := by
  induction h' generalizing xs with
  | nil => exact h
  | keep y _ ih =>
    cases h with
    | keep _ h => exact .keep y (ih h)
    | insert hp h => exact .insert hp (ih h)
  | insert hp _ ih => exact .insert hp (ih h)

theorem sublist (h : Inserted p xs ys) : xs.Sublist ys := by
  induction h with
  | nil => exact List.Sublist.slnil
  | keep x _ ih => exact ih.cons_cons x
  | insert _ _ ih => exact ih.cons _

theorem mem (h : Inserted p xs ys) (hmem : y ∈ ys) : y ∈ xs ∨ p y := by
  induction h with
  | nil => exact Or.inl hmem
  | keep x _ ih =>
    cases List.mem_cons.mp hmem with
    | inl heq => exact Or.inl (List.mem_cons.mpr (Or.inl heq))
    | inr hmem => exact (ih hmem).imp (List.mem_cons_of_mem x) id
  | insert hp _ ih =>
    cases List.mem_cons.mp hmem with
    | inl heq =>
      rw [heq]
      exact Or.inr hp
    | inr hmem => exact ih hmem

theorem prepend (h : ∀ b ∈ block, p b) (hins : Inserted p xs ys) :
    Inserted p xs (block ++ ys) := by
  induction block with
  | nil => exact hins
  | cons b block ih =>
    apply Inserted.insert (h b List.mem_cons_self)
    apply ih
    intro b' hb'
    exact h b' (List.mem_cons_of_mem b hb')

/-- A block of elements at one place. -/
theorem splice (h : ∀ b ∈ block, p b) (idx : Nat) (xs : List α) :
    Inserted p xs (xs.take idx ++ block ++ xs.drop idx) := by
  induction xs generalizing idx with
  | nil =>
    simp only [List.take_nil, List.drop_nil, List.nil_append]
    exact prepend h .nil
  | cons x xs ih =>
    cases idx with
    | zero => exact prepend h (refl _)
    | succ idx => exact .keep x (ih idx)

/-- The part in front of an old element comes from what stood in front of it. -/
theorem split {before after : List α} (h : Inserted p xs ys) (heq : xs = before ++ x :: after) :
    ∃ before' after', ys = before' ++ x :: after' ∧ Inserted p before before' := by
  induction h generalizing before with
  | nil => simp at heq
  | keep x' h ih =>
    cases before with
    | nil =>
      obtain ⟨rfl, -⟩ := List.cons.inj heq
      exact ⟨[], _, rfl, .nil⟩
    | cons b before =>
      obtain ⟨rfl, hrest⟩ := List.cons.inj heq
      obtain ⟨before', after', rfl, hins⟩ := ih hrest
      exact ⟨x' :: before', after', rfl, .keep x' hins⟩
  | insert hp h ih =>
    obtain ⟨before', after', rfl, hins⟩ := ih heq
    exact ⟨_ :: before', after', rfl, .insert hp hins⟩

end Inserted

end Remo
