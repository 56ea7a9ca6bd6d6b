import Mathlib.Data.Nat.Periodic

/-!
# Weighted slots

Items share a range of slots, each as many in a row as its weight. Numbers are dealt to slots
modulo the total weight, so that as many numbers in a row as there are slots deal each item its
weight.

## Key results

- `count_slotOf`: an item owns as many slots as its weight
- `card_dealt`: its share of consecutive numbers
-/

namespace Remo

variable {ι : Type*}

/-- The number of slots. -/
def totalSlots (items : List (ι × Nat)) : Nat := (items.map Prod.snd).sum

/-- The item that owns a slot. -/
def slotOf : List (ι × Nat) → Nat → Option ι
  | [], _ => none
  | (item, weight) :: items, slot =>
    if slot < weight then some item else slotOf items (slot - weight)

theorem totalSlots_cons (item : ι × Nat) (items : List (ι × Nat)) :
    totalSlots (item :: items) = item.2 + totalSlots items := by
  simp [totalSlots]

/-- A slot in the range has an owner. -/
theorem slotOf_mem {items : List (ι × Nat)} {slot : Nat} (h : slot < totalSlots items) :
    ∃ item ∈ items, slotOf items slot = some item.1 := by
  induction items generalizing slot with
  | nil => simp [totalSlots] at h
  | cons item items ih =>
    obtain ⟨i, weight⟩ := item
    rw [totalSlots_cons] at h
    by_cases hlt : slot < weight
    · exact ⟨(i, weight), List.mem_cons_self, by rw [slotOf, if_pos hlt]⟩
    · obtain ⟨item, hitem, howner⟩ := @ih (slot - weight) (by omega)
      exact ⟨item, List.mem_cons_of_mem _ hitem, by rw [slotOf, if_neg hlt, howner]⟩

variable [DecidableEq ι]

theorem count_slotOf_of_not_mem {items : List (ι × Nat)} {i : ι} (h : i ∉ items.map Prod.fst) :
    (totalSlots items).count (fun slot => slotOf items slot = some i) = 0 := by
  rw [Nat.count_iff_forall_not]
  intro slot hslot howner
  obtain ⟨item, hitem, hsome⟩ := slotOf_mem hslot
  rw [hsome] at howner
  exact h (List.mem_map.mpr ⟨item, hitem, Option.some.inj howner⟩)

/-- An item owns as many slots as its weight. -/
theorem count_slotOf {items : List (ι × Nat)} (hnodup : (items.map Prod.fst).Nodup) {i : ι}
    {weight : Nat} (h : (i, weight) ∈ items) :
    (totalSlots items).count (fun slot => slotOf items slot = some i) = weight := by
  induction items with
  | nil => cases h
  | cons item items ih =>
    obtain ⟨j, w⟩ := item
    rw [List.map_cons, List.nodup_cons] at hnodup
    rw [totalSlots_cons, Nat.count_add]
    have hrest : (fun k => slotOf ((j, w) :: items) (w + k) = some i) =
        fun k => slotOf items k = some i := by
      funext k
      rw [slotOf, if_neg (by omega), Nat.add_sub_cancel_left]
    cases List.mem_cons.mp h with
    | inl heq =>
      cases heq
      -- all the first slots are its own, and none of the others
      have hfirst : (weight).count (fun slot => slotOf ((i, weight) :: items) slot = some i) =
          weight := by
        rw [Nat.count_iff_forall]
        intro slot hslot
        rw [slotOf, if_pos hslot]
      simp only [hrest]
      rw [hfirst, count_slotOf_of_not_mem hnodup.1]
      rfl
    | inr hmem =>
      have hne : j ≠ i := by
        intro heq
        exact hnodup.1 (List.mem_map.mpr ⟨(i, weight), hmem, heq.symm⟩)
      have hfirst : w.count (fun slot => slotOf ((j, w) :: items) slot = some i) = 0 := by
        rw [Nat.count_iff_forall_not]
        intro slot hslot howner
        rw [slotOf, if_pos hslot] at howner
        exact hne (Option.some.inj howner)
      simp only [hrest]
      rw [hfirst, ih hnodup.2 hmem, Nat.zero_add]

/-- Of as many numbers in a row as there are slots, an item is dealt its weight. -/
theorem card_dealt {items : List (ι × Nat)} (hnodup : (items.map Prod.fst).Nodup) {i : ι}
    {weight : Nat} (h : (i, weight) ∈ items) (first : Nat) :
    ((Finset.Ico first (first + totalSlots items)).filter fun n =>
      slotOf items (n % totalSlots items) = some i).card = weight := by
  rw [Nat.filter_Ico_card_eq_of_periodic]
  · rw [← count_slotOf hnodup h, Nat.count_eq_card_filter_range, Nat.count_eq_card_filter_range]
    apply congrArg Finset.card
    apply Finset.filter_congr
    intro n hn
    rw [Nat.mod_eq_of_lt (Finset.mem_range.mp hn)]
  · intro n
    simp

end Remo
