import Mathlib.Data.List.Sort
import Mathlib.Data.List.TakeWhile

/-!
# Folding intervals into a sequence

Some items stand in for an interval of positions. `undominated` keeps those whose
interval lies in no other one, `weave` puts them back among the items with a
position, each before the first position that its interval has reached.

## Key results

- `mem_map_undominated`: the intervals kept are the maximal ones
- `undominated_first`: of items that stand in for one interval the first is kept
- `weave_pairwise`: where the kept items end up
-/

namespace Remo

/-- A closed interval of positions. -/
structure Interval where
  lo : Nat
  hi : Nat
deriving Repr, DecidableEq

namespace Interval

/-- The first interval lies in the second. -/
def Within (a b : Interval) : Prop := b.lo ≤ a.lo ∧ a.hi ≤ b.hi

instance (a b : Interval) : Decidable (a.Within b) := inferInstanceAs (Decidable (_ ∧ _))

theorem Within.refl (a : Interval) : a.Within a := ⟨Nat.le_refl _, Nat.le_refl _⟩

theorem Within.trans {a b c : Interval} (h : a.Within b) (h' : b.Within c) : a.Within c :=
  ⟨Nat.le_trans h'.1 h.1, Nat.le_trans h.2 h'.2⟩

theorem Within.antisymm {a b : Interval} (h : a.Within b) (h' : b.Within a) : a = b := by
  have hlo : a.lo = b.lo := Nat.le_antisymm h'.1 h.1
  have hhi : a.hi = b.hi := Nat.le_antisymm h.2 h'.2
  cases a
  cases b
  cases hlo
  cases hhi
  rfl

/-- By start, and of two intervals with the same start the wider one first. -/
def Before (a b : Interval) : Prop := a.lo < b.lo ∨ a.lo = b.lo ∧ b.hi ≤ a.hi

instance (a b : Interval) : Decidable (a.Before b) := inferInstanceAs (Decidable (_ ∨ _))

end Interval

/-! ## Dropping dominated intervals -/

section Undominated

variable {β : Type*} (span : β → Interval)

/-- Go through the candidates and keep those that lie in no interval kept before. -/
def undominated : List β → List β → List β
  | kept, [] => kept
  | kept, c :: cs =>
    if kept.any fun k => (span c).Within (span k) then undominated kept cs
    else undominated (kept ++ [c]) cs

variable {span}

/-- A dominated candidate is not kept later on. -/
theorem not_mem_undominated {k c : β} {kept cs : List β} (hk : k ∈ kept)
    (hwithin : (span c).Within (span k)) (hc : c ∉ kept) : c ∉ undominated span kept cs := by
  induction cs generalizing kept with
  | nil => exact hc
  | cons x cs ih =>
    unfold undominated
    split
    · exact ih hk hc
    · rename_i hx
      apply ih (List.mem_append_left _ hk)
      intro hmem
      rcases List.mem_append.mp hmem with hmem | hmem
      · exact hc hmem
      · -- `x` is dominated by nothing kept, `c` is
        obtain rfl := List.mem_singleton.mp hmem
        exact hx (List.any_eq_true.mpr ⟨k, hk, decide_eq_true hwithin⟩)

theorem mem_undominated_of_mem {k : β} {kept cs : List β} (hk : k ∈ kept) :
    k ∈ undominated span kept cs := by
  induction cs generalizing kept with
  | nil => exact hk
  | cons x cs ih =>
    unfold undominated
    split
    · exact ih hk
    · exact ih (List.mem_append_left _ hk)

/-- What is kept was kept before or is a candidate. -/
theorem mem_of_mem_undominated {c : β} {kept cs : List β} (hc : c ∈ undominated span kept cs) :
    c ∈ kept ∨ c ∈ cs := by
  induction cs generalizing kept with
  | nil => exact .inl hc
  | cons x cs ih =>
    unfold undominated at hc
    split at hc
    · exact (ih hc).imp_right (List.mem_cons_of_mem _)
    · rcases ih hc with hmem | hmem
      · rcases List.mem_append.mp hmem with hmem | hmem
        · exact .inl hmem
        · exact .inr (List.mem_singleton.mp hmem ▸ List.mem_cons_self)
      · exact .inr (List.mem_cons_of_mem _ hmem)

/-- Every candidate lies in an interval that is kept. -/
theorem exists_undominated (kept : List β) {c : β} {cs : List β} (hc : c ∈ cs) :
    ∃ k ∈ undominated span kept cs, (span c).Within (span k) := by
  induction cs generalizing kept with
  | nil => cases hc
  | cons x cs ih =>
    rcases List.mem_cons.mp hc with rfl | hc'
    · unfold undominated
      split
      · rename_i hany
        obtain ⟨k, hk, hwithin⟩ := List.any_eq_true.mp hany
        exact ⟨k, mem_undominated_of_mem hk, of_decide_eq_true hwithin⟩
      · exact ⟨c, mem_undominated_of_mem (by simp), Interval.Within.refl _⟩
    · unfold undominated
      split <;> exact ih _ hc'

/-- Both ends of the intervals ascend. -/
def Ascending (span : β → Interval) (kept : List β) : Prop :=
  kept.Pairwise fun a b => (span a).lo < (span b).lo ∧ (span a).hi < (span b).hi

/-- Of sorted candidates the kept ones ascend at both ends. -/
theorem undominated_ascending {kept cs : List β} (hkept : Ascending span kept)
    (hbefore : ∀ k ∈ kept, ∀ c ∈ cs, (span k).Before (span c))
    (hsorted : cs.Pairwise fun a b => (span a).Before (span b)) :
    Ascending span (undominated span kept cs) := by
  induction cs generalizing kept with
  | nil => exact hkept
  | cons x cs ih =>
    obtain ⟨hx, hsorted'⟩ := List.pairwise_cons.mp hsorted
    unfold undominated
    split
    · exact ih hkept (fun k hk c hc => hbefore k hk c (List.mem_cons_of_mem _ hc)) hsorted'
    · rename_i hnone
      apply ih _ _ hsorted'
      · unfold Ascending
        rw [List.pairwise_append]
        refine ⟨hkept, List.pairwise_singleton _ _, fun k hk y hy => ?_⟩
        obtain rfl := List.mem_singleton.mp hy
        -- `k` comes before `y` and does not contain it
        have hk' : ¬(span y).Within (span k) := fun hwithin =>
          hnone (List.any_eq_true.mpr ⟨k, hk, decide_eq_true hwithin⟩)
        have hky := hbefore k hk y List.mem_cons_self
        unfold Interval.Before at hky
        unfold Interval.Within at hk'
        omega
      · intro k hk c hc
        rcases List.mem_append.mp hk with hk | hk
        · exact hbefore k hk c (List.mem_cons_of_mem _ hc)
        · exact List.mem_singleton.mp hk ▸ hx c hc

/-- Of ascending intervals none lies in another. -/
theorem Ascending.eq_of_within {kept : List β} (h : Ascending span kept) {a b : β} (ha : a ∈ kept)
    (hb : b ∈ kept) (hwithin : (span a).Within (span b)) : span a = span b := by
  induction kept with
  | nil => cases ha
  | cons x kept ih =>
    obtain ⟨hx, hkept⟩ := List.pairwise_cons.mp h
    unfold Interval.Within at hwithin
    rcases List.mem_cons.mp ha with rfl | ha' <;> rcases List.mem_cons.mp hb with rfl | hb'
    · rfl
    · have := hx b hb'
      omega
    · have := hx a ha'
      omega
    · exact ih hkept ha' hb'

/-- An interval of a candidate that lies in no other interval of a candidate. -/
def MaximalIn (span : β → Interval) (cs : List β) (i : Interval) : Prop :=
  (∃ c ∈ cs, span c = i) ∧ ∀ c ∈ cs, i.Within (span c) → span c = i

/-- Of sorted candidates the intervals kept are the maximal ones. -/
theorem mem_map_undominated {cs : List β}
    (hsorted : cs.Pairwise fun a b => (span a).Before (span b)) (i : Interval) :
    i ∈ (undominated span [] cs).map span ↔ MaximalIn span cs i := by
  have hascending : Ascending span (undominated span [] cs) :=
    undominated_ascending List.Pairwise.nil (by simp) hsorted
  have hsub : ∀ c ∈ undominated span [] cs, c ∈ cs := by
    intro c hc
    simpa using mem_of_mem_undominated hc
  constructor
  · intro hi
    obtain ⟨c, hc, rfl⟩ := List.mem_map.mp hi
    refine ⟨⟨c, hsub c hc, rfl⟩, fun d hd hwithin => ?_⟩
    obtain ⟨k, hk, hdk⟩ := exists_undominated [] hd
    have hck := hascending.eq_of_within hc hk (hwithin.trans hdk)
    exact (hwithin.antisymm (hck ▸ hdk)).symm
  · rintro ⟨⟨c, hc, rfl⟩, hmaximal⟩
    obtain ⟨k, hk, hck⟩ := exists_undominated [] hc
    exact List.mem_map.mpr ⟨k, hk, hmaximal k (hsub k hk) hck⟩

/-- In an ascending list the smaller of two members stands first. -/
theorem pair_sublist_of_lt {l : List β} {pos : β → Nat} (h : l.Pairwise fun a b => pos a < pos b)
    {a b : β} (ha : a ∈ l) (hb : b ∈ l) (hlt : pos a < pos b) : [a, b].Sublist l := by
  induction l with
  | nil => cases ha
  | cons x l ih =>
    obtain ⟨hx, hl⟩ := List.pairwise_cons.mp h
    cases List.mem_cons.mp ha with
    | inl hax =>
      subst hax
      have hbl : b ∈ l := (List.mem_cons.mp hb).resolve_left fun heq => by
        rw [heq] at hlt
        omega
      exact (List.singleton_sublist.mpr hbl).cons_cons a
    | inr hal =>
      have hbl : b ∈ l := by
        apply (List.mem_cons.mp hb).resolve_left
        intro heq
        have := hx a hal
        rw [heq] at hlt
        omega
      exact (ih hl hal hbl).cons x

/-- A candidate behind another one that contains it is not kept. -/
theorem undominated_first {a c : β} {kept cs : List β} (hnodup : cs.Nodup) (hc : c ∉ kept)
    (hsub : [a, c].Sublist cs) (hwithin : (span c).Within (span a)) :
    c ∉ undominated span kept cs := by
  induction cs generalizing kept with
  | nil => cases hsub
  | cons x cs ih =>
    obtain ⟨hx, hnodup'⟩ := List.nodup_cons.mp hnodup
    have hne : ∀ {y : β}, y ∈ cs → y ≠ x := fun hy heq => hx (heq ▸ hy)
    cases hsub with
    | cons _ hsub' =>
      have hmem : c ∈ cs := hsub'.subset (by simp)
      unfold undominated
      split
      · exact ih hnodup' hc hsub'
      · exact ih hnodup' (by simp [hc, hne hmem]) hsub'
    | cons_cons _ hsub' =>
      have hmem : c ∈ cs := hsub'.subset (by simp)
      unfold undominated
      split
      · rename_i hany
        obtain ⟨k, hk, hak⟩ := List.any_eq_true.mp hany
        exact not_mem_undominated hk (hwithin.trans (of_decide_eq_true hak)) hc
      · exact not_mem_undominated (List.mem_append_right _ List.mem_cons_self) hwithin
          (by simp [hc, hne hmem])

end Undominated

/-! ## Putting the kept items back -/

section Weave

variable {β ρ : Type*} (start : β → Nat) (pos : ρ → Nat) (keep : ρ → Bool)

/-- Before each item come the intervals that start at or before it; the last
    intervals come behind all items. -/
def weave : List β → List ρ → List (β ⊕ ρ)
  | next, [] => next.map .inl
  | next, r :: rs =>
    (next.takeWhile fun b => start b ≤ pos r).map .inl ++
      ((if keep r then [.inr r] else []) ++
        weave (next.dropWhile fun b => start b ≤ pos r) rs)

theorem weave_left (next : List β) (rs : List ρ) :
    (weave start pos keep next rs).filterMap Sum.getLeft? = next := by
  induction rs generalizing next with
  | nil => simp [weave, List.filterMap_map, Function.comp_def]
  | cons r rs ih =>
    simp only [weave, List.filterMap_append, ih]
    have hitem : (if keep r then [(.inr r : β ⊕ ρ)] else []).filterMap Sum.getLeft? = [] := by
      split <;> rfl
    rw [hitem, List.nil_append, List.filterMap_map]
    simp [Function.comp_def, List.takeWhile_append_dropWhile]

theorem weave_right (next : List β) (rs : List ρ) :
    (weave start pos keep next rs).filterMap Sum.getRight? = rs.filter keep := by
  induction rs generalizing next with
  | nil => simp [weave, List.filterMap_map, Function.comp_def]
  | cons r rs ih =>
    simp only [weave, List.filterMap_append, ih, List.filterMap_map]
    rw [List.filter_cons]
    split <;> simp [Function.comp_def]

variable {start pos keep}

/-- An interval comes before the items it has reached, and behind the others. -/
def Placed (start : β → Nat) (pos : ρ → Nat) : β ⊕ ρ → β ⊕ ρ → Prop
  | .inl b, .inr r => start b ≤ pos r
  | .inr r, .inl b => pos r < start b
  | _, _ => True

/-- All that `weave` puts out comes from the two lists. -/
theorem mem_weave {next : List β} {rs : List ρ} {x : β ⊕ ρ}
    (hx : x ∈ weave start pos keep next rs) :
    (∃ b ∈ next, x = .inl b) ∨ ∃ r ∈ rs, x = .inr r := by
  cases x with
  | inl b =>
    have hb : b ∈ (weave start pos keep next rs).filterMap Sum.getLeft? :=
      List.mem_filterMap.mpr ⟨_, hx, rfl⟩
    rw [weave_left] at hb
    exact .inl ⟨b, hb, rfl⟩
  | inr r =>
    have hr : r ∈ (weave start pos keep next rs).filterMap Sum.getRight? :=
      List.mem_filterMap.mpr ⟨_, hx, rfl⟩
    rw [weave_right] at hr
    exact .inr ⟨r, (List.mem_filter.mp hr).1, rfl⟩

theorem lt_of_mem_dropWhile {next : List β} {n : Nat}
    (hnext : next.Pairwise fun a b => start a ≤ start b) {b : β}
    (hb : b ∈ next.dropWhile fun b => start b ≤ n) : n < start b := by
  induction next with
  | nil => cases hb
  | cons x next ih =>
    obtain ⟨hx, hnext'⟩ := List.pairwise_cons.mp hnext
    rw [List.dropWhile_cons] at hb
    split at hb
    · exact ih hnext' hb
    · rename_i hlt
      have hlt' : n < start x := by simpa using hlt
      rcases List.mem_cons.mp hb with rfl | hb'
      · exact hlt'
      · exact Nat.lt_of_lt_of_le hlt' (hx b hb')

theorem pairwise_placed_inl (next : List β) :
    (next.map (Sum.inl : β → β ⊕ ρ)).Pairwise (Placed start pos) := by
  induction next with
  | nil => exact List.Pairwise.nil
  | cons b next ih =>
    rw [List.map_cons, List.pairwise_cons]
    refine ⟨fun x hx => ?_, ih⟩
    obtain ⟨b', -, rfl⟩ := List.mem_map.mp hx
    trivial

/-- In a weave of sorted lists everything is in its place. -/
theorem weave_pairwise {next : List β} {rs : List ρ}
    (hnext : next.Pairwise fun a b => start a ≤ start b)
    (hrs : rs.Pairwise fun a b => pos a < pos b) :
    (weave start pos keep next rs).Pairwise (Placed start pos) := by
  induction rs generalizing next with
  | nil =>
    rw [weave]
    exact pairwise_placed_inl next
  | cons r rs ih =>
    obtain ⟨hr, hrs'⟩ := List.pairwise_cons.mp hrs
    have hrest := ih (hnext.sublist (List.dropWhile_sublist fun b => decide (start b ≤ pos r))) hrs'
    have hbehind : ∀ x ∈ weave start pos keep (next.dropWhile fun b => start b ≤ pos r) rs,
        Placed start pos (.inr r) x := by
      intro x hx
      rcases mem_weave hx with ⟨b, hb, rfl⟩ | ⟨r', -, rfl⟩
      · exact lt_of_mem_dropWhile hnext hb
      · trivial
    have hmiddle : ((if keep r then [(.inr r : β ⊕ ρ)] else []) ++
        weave start pos keep (next.dropWhile fun b => start b ≤ pos r) rs).Pairwise
          (Placed start pos) := by
      split
      · exact List.pairwise_cons.mpr ⟨hbehind, hrest⟩
      · exact hrest
    rw [weave, List.pairwise_append]
    refine ⟨?_, hmiddle, ?_⟩
    · exact pairwise_placed_inl _
    · intro a ha x hx
      obtain ⟨b, hb, rfl⟩ := List.mem_map.mp ha
      have hreached : start b ≤ pos r := by
        simpa using List.mem_takeWhile_imp hb
      rcases List.mem_append.mp hx with hx | hx
      · split at hx
        · rw [List.mem_singleton.mp hx]
          exact hreached
        · cases hx
      · rcases mem_weave hx with ⟨b', -, rfl⟩ | ⟨r', hr', rfl⟩
        · trivial
        · exact Nat.le_trans hreached (Nat.le_of_lt (hr r' hr'))

end Weave

end Remo
