import Mathlib.Data.List.Sort
import Mathlib.Data.List.Nodup
import Mathlib.Data.List.Dedup

/-!
# Finite maps with an observable iteration order

A hash map is modelled by the sequence of entries its iterator yields. The keys
of that sequence are pairwise distinct, which the `nodup` field records. Lookup
does not depend on the order; iteration, `take` and stable sorting do, so
`reorder` lets a model put any iteration order in force before an operation.
-/

namespace List

/-- Inserting an element the predicate rejects does not show after filtering. -/
theorem filter_orderedInsert_neg {α : Type*} (r : α → α → Prop) [DecidableRel r]
    (p : α → Bool) (a : α) (l : List α) (ha : p a = false) :
    (l.orderedInsert r a).filter p = l.filter p := by
  induction l with
  | nil => simp [ha]
  | cons b l ih =>
    simp only [orderedInsert_cons]
    split
    · simp [filter_cons, ha]
    · simp only [filter_cons, ih]

/-- Filtering commutes with sorted insertion into a sorted list. -/
theorem filter_orderedInsert_pos {α : Type*} (r : α → α → Prop) [DecidableRel r]
    [IsTrans α r] (p : α → Bool) (a : α) (l : List α) (ha : p a = true)
    (hl : l.Pairwise r) :
    (l.orderedInsert r a).filter p = (l.filter p).orderedInsert r a := by
  induction l with
  | nil => simp [ha]
  | cons b l ih =>
    have hl' := (pairwise_cons.mp hl).2
    simp only [orderedInsert_cons]
    split
    · rename_i hab
      -- everything after `b` is above `a`, so the filtered insertion stops at once
      have hrel : ∀ c ∈ (b :: l).filter p, r a c := by
        intro c hc
        rcases mem_cons.mp (mem_of_mem_filter hc) with rfl | hc'
        · exact hab
        · exact IsTrans.trans _ _ _ hab ((pairwise_cons.mp hl).1 c hc')
      have hstop : ((b :: l).filter p).orderedInsert r a = a :: (b :: l).filter p := by
        cases hf : (b :: l).filter p with
        | nil => rfl
        | cons c cs => exact orderedInsert_cons_of_le r cs (hrel c (by simp [hf]))
      rw [hstop, filter_cons_of_pos ha]
    · rename_i hab
      by_cases hb : p b = true
      · simp [hb, ih hl', hab]
      · simp [hb, ih hl']

/-- A stable sort commutes with filtering. -/
theorem filter_insertionSort {α : Type*} (r : α → α → Prop) [DecidableRel r]
    [IsTrans α r] [Std.Total r] (p : α → Bool) (l : List α) :
    (l.insertionSort r).filter p = (l.filter p).insertionSort r := by
  induction l with
  | nil => rfl
  | cons a l ih =>
    rw [insertionSort_cons]
    by_cases ha : p a = true
    · rw [filter_orderedInsert_pos r p a _ ha (pairwise_insertionSort r l), ih,
        filter_cons_of_pos ha, insertionSort_cons]
    · rw [filter_orderedInsert_neg r p a _ (by simpa using ha), ih,
        filter_cons_of_neg ha]

theorem filter_dedup {α : Type*} [DecidableEq α] (p : α → Bool) (l : List α) :
    l.dedup.filter p = (l.filter p).dedup := by
  induction l with
  | nil => rfl
  | cons a l ih =>
    by_cases ha : p a = true
    · rw [filter_cons_of_pos ha]
      by_cases hmem : a ∈ l
      · rw [dedup_cons_of_mem hmem, dedup_cons_of_mem (mem_filter.mpr ⟨hmem, ha⟩), ih]
      · rw [dedup_cons_of_notMem hmem, dedup_cons_of_notMem (fun h => hmem (mem_of_mem_filter h)),
          filter_cons_of_pos ha, ih]
    · rw [filter_cons_of_neg ha]
      by_cases hmem : a ∈ l
      · rw [dedup_cons_of_mem hmem, ih]
      · rw [dedup_cons_of_notMem hmem, filter_cons_of_neg ha, ih]

/-- Elements that map to nothing can be left out before. -/
theorem filterMap_filter_of_none {α β : Type*} {f : α → Option β} {p : α → Bool}
    (h : ∀ a, p a = false → f a = none) (l : List α) : (l.filter p).filterMap f = l.filterMap f := by
  rw [filterMap_filter]
  refine filterMap_congr fun a _ => ?_
  cases hp : p a with
  | true => rfl
  | false => exact (h a hp).symm

/-- Filtering after a change that leaves alone what passes the filter. -/
theorem filter_map_of_fixed {α : Type*} {f : α → α} {p q : α → Bool} {l : List α}
    (hp : ∀ x ∈ l, p (f x) = q x) (hfix : ∀ x ∈ l, q x = true → f x = x) :
    (l.map f).filter p = l.filter q := by
  have hsame : l.filter (p ∘ f) = l.filter q := filter_congr hp
  have hid : (l.filter q).map f = (l.filter q).map id := by
    apply map_congr_left
    intro x hx
    exact hfix x (mem_of_mem_filter hx) (of_mem_filter hx)
  rw [filter_map, hsame, hid, map_id]

/-- Taking the first `n` commutes with filtering when the first `n` all pass the
    filter or the rest all fail it. -/
theorem filter_take_of_forall {α : Type*} {p : α → Bool} {l : List α} {n : Nat}
    (h : (∀ a ∈ l.take n, p a = true) ∨ ∀ a ∈ l.drop n, p a = false) :
    (l.take n).filter p = (l.filter p).take n := by
  have hsplit : l.filter p = (l.take n).filter p ++ (l.drop n).filter p := by
    rw [← filter_append, take_append_drop]
  rcases h with hall | hnone
  · rw [hsplit, filter_eq_self.mpr hall, take_append, take_take, Nat.min_self]
    have hrest : ((l.drop n).filter p).take (n - (l.take n).length) = [] := by
      rcases Nat.le_total n l.length with hn | hn
      · simp [hn]
      · simp [drop_of_length_le hn]
    rw [hrest, append_nil]
  · have hrest : (l.drop n).filter p = [] :=
      filter_eq_nil_iff.mpr fun a ha => by simp [hnone a ha]
    have hlen := (length_filter_le p (l.take n)).trans (length_take_le n l)
    rw [hsplit, hrest, append_nil, take_of_length_le hlen]

end List

namespace Remo

/-- A finite map as the sequence of entries its iterator yields. The `nodup`
    field says that no key occurs twice. -/
structure AssocMap (κ : Type*) (α : Type*) where
  entries : List (κ × α)
  nodup : (entries.map Prod.fst).Nodup

namespace AssocMap

variable {κ : Type*} {α β : Type*} [DecidableEq κ]

/-- The map without entries. -/
def empty : AssocMap κ α := ⟨[], List.nodup_nil⟩

/-- The keys in iteration order. -/
def keys (m : AssocMap κ α) : List κ := m.entries.map Prod.fst

/-- The values in iteration order. -/
def values (m : AssocMap κ α) : List α := m.entries.map Prod.snd

/-- The value stored at `k`, if any. -/
def get? (m : AssocMap κ α) (k : κ) : Option α := m.entries.lookup k

/-- Change every value, keeping keys and order. -/
def mapValues (m : AssocMap κ α) (f : κ → α → β) : AssocMap κ β :=
  ⟨m.entries.map fun p => (p.1, f p.1 p.2), by simpa [Function.comp_def] using m.nodup⟩

/-- Change the value stored at `k`, keeping keys and order. -/
def modify (m : AssocMap κ α) (k : κ) (f : α → α) : AssocMap κ α :=
  m.mapValues fun k' v => if k' = k then f v else v

/-- Keep the entries that satisfy `p`. -/
def retain (m : AssocMap κ α) (p : κ → α → Bool) : AssocMap κ α :=
  ⟨m.entries.filter fun q => p q.1 q.2, m.nodup.sublist (List.filter_sublist.map _)⟩

/-- Store `v` at `k`: an existing entry is overwritten where it stands, a new
    one goes to the end. -/
def insert (m : AssocMap κ α) (k : κ) (v : α) : AssocMap κ α :=
  if h : k ∈ m.keys then m.modify k fun _ => v
  else ⟨m.entries ++ [(k, v)], by
    rw [List.map_append]
    exact m.nodup.append (List.nodup_singleton k) (by simpa [keys] using h)⟩

/-- Store `v` at `k` unless `k` has a value already. -/
def orInsert (m : AssocMap κ α) (k : κ) (v : α) : AssocMap κ α :=
  if k ∈ m.keys then m else m.insert k v

/-- Store all entries of another map. -/
def extend (m other : AssocMap κ α) : AssocMap κ α :=
  other.entries.foldl (fun m entry => m.insert entry.1 entry.2) m

/-- Put the iteration order given by `rank` in force. Every permutation of the
    entries is the result for some `rank`. -/
def reorder (m : AssocMap κ α) (rank : κ → Nat) : AssocMap κ α :=
  ⟨m.entries.insertionSort fun a b => rank a.1 ≤ rank b.1,
    ((List.perm_insertionSort _ m.entries).map Prod.fst).nodup_iff.mpr m.nodup⟩

omit [DecidableEq κ] in
@[ext] theorem ext {m m' : AssocMap κ α} (h : m.entries = m'.entries) : m = m' := by
  cases m; cases m'; cases h; rfl

/-! ## Lookup -/

/-- Lookup finds exactly the entries of the map. -/
theorem get?_eq_some {m : AssocMap κ α} {k : κ} {v : α} :
    m.get? k = some v ↔ (k, v) ∈ m.entries := by
  obtain ⟨es, hnd⟩ := m
  simp only [get?]
  induction es with
  | nil => simp
  | cons e es ih =>
    obtain ⟨k', v'⟩ := e
    have hnd' : k' ∉ es.map Prod.fst ∧ (es.map Prod.fst).Nodup := by simpa using hnd
    rw [List.lookup_cons]
    by_cases hk : k = k'
    · subst hk
      have hnot : (k, v) ∉ es := fun hmem =>
        hnd'.1 (List.mem_map_of_mem (f := Prod.fst) hmem)
      simp [hnot, eq_comm]
    · have hbeq : (k == k') = false := by simpa using hk
      simp only [hbeq, ih hnd'.2, List.mem_cons, Prod.mk.injEq, hk, false_and, false_or]

/-- A key without entry has no value. -/
theorem get?_eq_none {m : AssocMap κ α} {k : κ} : m.get? k = none ↔ k ∉ m.keys := by
  simp only [get?, keys, List.lookup_eq_none_iff, List.mem_map, not_exists, not_and]
  constructor
  · intro h p hp hk
    exact absurd (h p hp) (by simp [hk])
  · intro h p hp
    simpa using fun hk : k = p.1 => h p hp hk.symm

/-- Two maps with the same entries up to order have the same lookups. -/
theorem get?_congr {m m' : AssocMap κ α} (h : ∀ p, p ∈ m.entries ↔ p ∈ m'.entries) (k : κ) :
    m.get? k = m'.get? k := by
  apply Option.ext
  intro v
  rw [get?_eq_some, get?_eq_some, h]

@[simp] theorem get?_empty (k : κ) : (empty : AssocMap κ α).get? k = none := rfl

/-- The values are those found by lookup. -/
theorem mem_values {m : AssocMap κ α} {v : α} : v ∈ m.values ↔ ∃ k, m.get? k = some v := by
  simp [values, get?_eq_some]

/-- The keys are those where lookup succeeds. -/
theorem mem_keys {m : AssocMap κ α} {k : κ} : k ∈ m.keys ↔ ∃ v, m.get? k = some v := by
  simp [keys, get?_eq_some]

omit [DecidableEq κ] in
theorem nodup_keys (m : AssocMap κ α) : m.keys.Nodup := m.nodup

@[simp] theorem get?_mapValues (m : AssocMap κ α) (f : κ → α → β) (k : κ) :
    (m.mapValues f).get? k = (m.get? k).map (f k) := by
  apply Option.ext
  intro v
  simp only [get?_eq_some, Option.map_eq_some_iff, mapValues, List.mem_map, Prod.mk.injEq,
    Prod.exists]
  constructor
  · rintro ⟨k', v', hmem, rfl, rfl⟩
    exact ⟨v', hmem, rfl⟩
  · rintro ⟨v', hmem, rfl⟩
    exact ⟨k, v', hmem, rfl, rfl⟩

/-- `modify` changes the value at its own key only. -/
theorem get?_modify (m : AssocMap κ α) (k : κ) (f : α → α) (k' : κ) :
    (m.modify k f).get? k' = if k' = k then (m.get? k).map f else m.get? k' := by
  rw [modify, get?_mapValues]
  split
  · rename_i h; rw [h]
  · simp

@[simp] theorem get?_modify_self (m : AssocMap κ α) (k : κ) (f : α → α) :
    (m.modify k f).get? k = (m.get? k).map f := by
  rw [get?_modify, if_pos rfl]

theorem get?_modify_of_ne (m : AssocMap κ α) {k k' : κ} (f : α → α) (h : k' ≠ k) :
    (m.modify k f).get? k' = m.get? k' := by
  rw [get?_modify, if_neg h]

/-- `retain` forgets the values that fail the test. -/
theorem get?_retain (m : AssocMap κ α) (p : κ → α → Bool) (k : κ) :
    (m.retain p).get? k = (m.get? k).filter (p k) := by
  apply Option.ext
  intro v
  simp only [get?_eq_some, retain, List.mem_filter, Option.filter_eq_some_iff]

/-- Lookup among the entries of the keys that satisfy `p`. -/
theorem get?_retain_keys (m : AssocMap κ α) (p : κ → Bool) (k : κ) :
    (m.retain fun k' _ => p k').get? k = if p k then m.get? k else none := by
  rw [get?_retain]
  cases m.get? k <;> cases p k <;> simp [Option.filter]

/-- Lookup after `insert`. -/
theorem get?_insert (m : AssocMap κ α) (k : κ) (v : α) (k' : κ) :
    (m.insert k v).get? k' = if k' = k then some v else m.get? k' := by
  unfold insert
  split
  · rename_i h
    obtain ⟨w, hw⟩ := mem_keys.mp h
    rw [get?_modify, hw, Option.map_some]
  · rename_i h
    have hnone := get?_eq_none.mpr h
    simp only [get?] at hnone ⊢
    rw [List.lookup_append, List.lookup_cons, List.lookup_nil]
    by_cases hk : k' = k
    · subst hk; simp [hnone]
    · have hbeq : (k' == k) = false := by simpa using hk
      simp [hbeq, hk]

@[simp] theorem get?_insert_self (m : AssocMap κ α) (k : κ) (v : α) :
    (m.insert k v).get? k = some v := by
  rw [get?_insert, if_pos rfl]

theorem get?_insert_of_ne (m : AssocMap κ α) {k k' : κ} (v : α) (h : k' ≠ k) :
    (m.insert k v).get? k' = m.get? k' := by
  rw [get?_insert, if_neg h]

/-- Lookup after `extend`: the entries of the other map come first. -/
theorem get?_extend (m other : AssocMap κ α) (k : κ) :
    (m.extend other).get? k = (other.get? k).or (m.get? k) := by
  have hfold : ∀ (entries : List (κ × α)) (m : AssocMap κ α), (entries.map Prod.fst).Nodup →
      (entries.foldl (fun m entry => m.insert entry.1 entry.2) m).get? k =
        (entries.lookup k).or (m.get? k) := by
    intro entries
    induction entries with
    | nil =>
      intro m _
      rfl
    | cons entry entries ih =>
      intro m hnodup
      obtain ⟨hentry, hnodup'⟩ := List.nodup_cons.mp hnodup
      rw [List.foldl_cons, ih _ hnodup', get?_insert, List.lookup_cons]
      by_cases hk : k = entry.1
      · -- a key comes once, so the later entries do not change it
        have hnone : entries.lookup k = none := by
          rw [List.lookup_eq_none_iff]
          intro p hp
          have hne : k ≠ p.1 := fun heq => hentry (hk ▸ heq ▸ List.mem_map.mpr ⟨p, hp, rfl⟩)
          simpa using hne
        rw [hnone, if_pos hk]
        simp [hk]
      · have hbeq : (k == entry.1) = false := by simpa using hk
        simp [hk, hbeq]
  exact hfold other.entries m other.nodup

/-- A new key goes to the end. -/
theorem values_insert_of_none {m : AssocMap κ α} {k : κ} {v : α} (h : m.get? k = none) :
    (m.insert k v).values = m.values ++ [v] := by
  simp [values, insert, get?_eq_none.mp h]

/-- A stored value and the values under the other keys are all values. -/
theorem values_perm_of_get? {m : AssocMap κ α} {k : κ} {v : α} (h : m.get? k = some v) :
    m.values.Perm (v :: (m.retain fun k' _ => k' ≠ k).values) := by
  have hmem : (k, v) ∈ m.entries := get?_eq_some.mp h
  have hsplit : m.entries.Perm ((k, v) :: m.entries.filter fun q => q.1 ≠ k) := by
    have hnodup := m.nodup
    generalize m.entries = entries at hmem hnodup
    induction entries with
    | nil => exact absurd hmem List.not_mem_nil
    | cons e entries ih =>
      obtain ⟨hnot, hnodup'⟩ := List.nodup_cons.mp hnodup
      rcases List.mem_cons.mp hmem with rfl | hmem'
      · rw [List.filter_cons_of_neg (by simp), List.filter_eq_self.mpr]
        intro q hq
        simpa using fun hk : q.1 = k => hnot (hk ▸ List.mem_map.mpr ⟨q, hq, rfl⟩)
      · have hne : e.1 ≠ k := fun hk => hnot (hk ▸ List.mem_map.mpr ⟨(k, v), hmem', rfl⟩)
        rw [List.filter_cons_of_pos (by simpa using hne)]
        exact ((ih hmem' hnodup').cons e).trans (List.Perm.swap _ _ _)
  exact (hsplit.map Prod.snd)

/-- Lookup after `orInsert`. -/
theorem get?_orInsert (m : AssocMap κ α) (k : κ) (v : α) (k' : κ) :
    (m.orInsert k v).get? k' = if k' = k then some ((m.get? k).getD v) else m.get? k' := by
  unfold orInsert
  by_cases h : k ∈ m.keys
  · obtain ⟨w, hw⟩ := mem_keys.mp h
    by_cases hk : k' = k
    · subst hk; simp [h, hw]
    · simp [h, hk]
  · have hnone := get?_eq_none.mpr h
    simp [h, get?_insert, hnone]

/-- The iteration order does not show in lookups. -/
@[simp] theorem get?_reorder (m : AssocMap κ α) (rank : κ → Nat) (k : κ) :
    (m.reorder rank).get? k = m.get? k :=
  get?_congr (fun _ => List.mem_insertionSort _) k

/-- Searching the values is searching the entries found by lookup. -/
theorem any_values {m : AssocMap κ α} {p : α → Bool} :
    m.values.any p = true ↔ ∃ k v, m.get? k = some v ∧ p v = true := by
  simp only [List.any_eq_true, mem_values]
  constructor
  · rintro ⟨v, ⟨k, hk⟩, hp⟩; exact ⟨k, v, hk, hp⟩
  · rintro ⟨k, v, hk, hp⟩; exact ⟨v, ⟨k, hk⟩, hp⟩

/-! ## Keeping the entries of some keys -/

section RetainKeys

variable {p : κ → Bool}

/-- Changing the value at a kept key, before or after the others are dropped. -/
theorem retain_modify (m : AssocMap κ α) (p : κ → Bool) (k : κ) (f : α → α) :
    (m.modify k f).retain (fun k' _ => p k') = (m.retain fun k' _ => p k').modify k f := by
  ext1
  simp [retain, modify, mapValues, List.filter_map, Function.comp_def]

/-- A change at a dropped key does not show. -/
theorem retain_modify_of_neg (m : AssocMap κ α) {k : κ} (f : α → α) (h : p k = false) :
    (m.modify k f).retain (fun k' _ => p k') = m.retain fun k' _ => p k' := by
  rw [retain_modify]
  ext1
  simp only [retain, modify, mapValues]
  refine (List.map_congr_left fun e he => ?_).trans (List.map_id _)
  have hkept := (List.mem_filter.mp he).2
  have hne : e.1 ≠ k := fun hk => by simp [hk, h] at hkept
  simp [hne]

theorem retain_insert (m : AssocMap κ α) {k : κ} (v : α) (h : p k = true) :
    (m.insert k v).retain (fun k' _ => p k') = (m.retain fun k' _ => p k').insert k v := by
  have hkeys : k ∈ (m.retain fun k' _ => p k').keys ↔ k ∈ m.keys := by
    simp [keys, retain, h]
  unfold insert
  by_cases hmem : k ∈ m.keys
  · rw [dif_pos hmem, dif_pos (hkeys.mpr hmem), retain_modify]
  · rw [dif_neg hmem, dif_neg (mt hkeys.mp hmem)]
    ext1
    simp [retain, h]

theorem retain_insert_of_neg (m : AssocMap κ α) {k : κ} (v : α) (h : p k = false) :
    (m.insert k v).retain (fun k' _ => p k') = m.retain fun k' _ => p k' := by
  unfold insert
  split
  · exact retain_modify_of_neg m _ h
  · ext1
    simp [retain, h]

theorem retain_orInsert (m : AssocMap κ α) {k : κ} (v : α) (h : p k = true) :
    (m.orInsert k v).retain (fun k' _ => p k') = (m.retain fun k' _ => p k').orInsert k v := by
  have hkeys : k ∈ (m.retain fun k' _ => p k').keys ↔ k ∈ m.keys := by
    simp [keys, retain, h]
  unfold orInsert
  simp only [hkeys]
  split
  · rfl
  · exact retain_insert m v h

theorem retain_orInsert_of_neg (m : AssocMap κ α) {k : κ} (v : α) (h : p k = false) :
    (m.orInsert k v).retain (fun k' _ => p k') = m.retain fun k' _ => p k' := by
  unfold orInsert
  split
  · rfl
  · exact retain_insert_of_neg m v h

omit [DecidableEq κ] in
/-- Dropping entries does not disturb the order of the others. -/
theorem retain_reorder (m : AssocMap κ α) (q : κ → α → Bool) (rank : κ → Nat) :
    (m.reorder rank).retain q = (m.retain q).reorder rank := by
  ext1
  have : IsTrans (κ × α) (fun a b => rank a.1 ≤ rank b.1) := ⟨fun _ _ _ => Nat.le_trans⟩
  have : Std.Total (fun a b : κ × α => rank a.1 ≤ rank b.1) := ⟨fun a b => Nat.le_total _ _⟩
  exact List.filter_insertionSort _ _ _

omit [DecidableEq κ] in
/-- Under an order without ties the entries decide how they are iterated. -/
theorem reorder_congr {m m' : AssocMap κ α} {rank : κ → Nat} (hrank : Function.Injective rank)
    (h : m.entries.Perm m'.entries) : m.reorder rank = m'.reorder rank := by
  ext1
  have : IsTrans (κ × α) (fun a b => rank a.1 ≤ rank b.1) := ⟨fun _ _ _ => Nat.le_trans⟩
  have : Std.Total (fun a b : κ × α => rank a.1 ≤ rank b.1) := ⟨fun a b => Nat.le_total _ _⟩
  have hperm : (m.reorder rank).entries.Perm (m'.reorder rank).entries :=
    (List.perm_insertionSort _ _).trans (h.trans (List.perm_insertionSort _ _).symm)
  refine hperm.eq_of_pairwise (fun a b ha hb hab hba => ?_)
    (List.pairwise_insertionSort _ _) (List.pairwise_insertionSort _ _)
  -- two entries of one rank have one key, and a key has one entry
  have hkey : a.1 = b.1 := hrank (Nat.le_antisymm hab hba)
  have hb' : b ∈ (m.reorder rank).entries := hperm.mem_iff.mpr hb
  exact List.inj_on_of_nodup_map (m.reorder rank).nodup ha hb' hkey

end RetainKeys

/-- Writing back what is stored changes nothing. -/
theorem modify_get? {m : AssocMap κ α} {k : κ} {v : α} (h : m.get? k = some v) :
    (m.modify k fun _ => v) = m := by
  ext1
  simp only [modify, mapValues]
  refine (List.map_congr_left fun e he => ?_).trans (List.map_id _)
  by_cases hk : e.1 = k
  · have hentry : m.get? e.1 = some e.2 := get?_eq_some.mpr he
    rw [hk, h] at hentry
    cases hentry
    simp [← hk]
  · simp [hk]

/-! ## Keys -/

omit [DecidableEq κ] in
@[simp] theorem keys_mapValues (m : AssocMap κ α) (f : κ → α → β) :
    (m.mapValues f).keys = m.keys := by
  simp [keys, mapValues, Function.comp_def]

@[simp] theorem keys_modify (m : AssocMap κ α) (k : κ) (f : α → α) :
    (m.modify k f).keys = m.keys :=
  keys_mapValues _ _

/-- Two maps with the same keys in the same order and the same lookups are equal. -/
theorem ext_get? {m m' : AssocMap κ α} (hkeys : m.keys = m'.keys)
    (hget : ∀ k, m.get? k = m'.get? k) : m = m' := by
  ext1
  refine List.ext_getElem (by simpa [keys] using congrArg List.length hkeys) fun i hi hi' => ?_
  have hkey : m.entries[i].1 = m'.entries[i].1 := by
    have := congrArg (·[i]?) hkeys
    simpa [keys, hi, hi'] using this
  have hleft : m.get? m.entries[i].1 = some m.entries[i].2 :=
    get?_eq_some.mpr (List.getElem_mem hi)
  have hright : m'.get? m'.entries[i].1 = some m'.entries[i].2 :=
    get?_eq_some.mpr (List.getElem_mem hi')
  rw [hkey, hget, hright] at hleft
  exact Prod.ext hkey (Option.some.inj hleft).symm

/-! ## Changing every value -/

section MapValues

omit [DecidableEq κ] in
theorem values_mapValues (m : AssocMap κ α) (f : α → β) :
    (m.mapValues fun _ => f).values = m.values.map f := by
  simp [values, mapValues]

omit [DecidableEq κ] in
theorem mapValues_mapValues {γ : Type*} (m : AssocMap κ α) (f : κ → α → β) (g : κ → β → γ) :
    (m.mapValues f).mapValues g = m.mapValues fun k v => g k (f k v) := by
  ext1
  simp [mapValues]

/-- Two functions that agree on the entries give the same map. -/
theorem mapValues_congr {m : AssocMap κ α} {f g : κ → α → β}
    (h : ∀ k v, m.get? k = some v → f k v = g k v) : m.mapValues f = m.mapValues g := by
  ext1
  refine List.map_congr_left fun e he => ?_
  rw [h e.1 e.2 (get?_eq_some.mpr he)]

/-- A change of one value, before or after all values are translated. -/
theorem modify_mapValues {m : AssocMap κ α} {k : κ} {v v' : α} {f : α → β} {g : β → β}
    (hk : m.get? k = some v) (hg : g (f v) = f v') :
    (m.mapValues fun _ => f).modify k g = (m.modify k fun _ => v').mapValues fun _ => f := by
  rw [modify, modify, mapValues_mapValues, mapValues_mapValues]
  refine mapValues_congr fun k' w hw => ?_
  by_cases h : k' = k
  · subst h
    rw [hk] at hw
    cases hw
    simp [hg]
  · simp [h]

theorem insert_mapValues {m : AssocMap κ α} {k : κ} (v : α) (f : α → β) (hk : m.get? k = none) :
    (m.mapValues fun _ => f).insert k (f v) = (m.insert k v).mapValues fun _ => f := by
  have hnot := get?_eq_none.mp hk
  unfold insert
  rw [dif_neg (by simpa using hnot), dif_neg hnot]
  ext1
  simp [mapValues]

omit [DecidableEq κ] in
theorem retain_mapValues (m : AssocMap κ α) (f : α → β) (p : β → Bool) :
    (m.mapValues fun _ => f).retain (fun _ w => p w) =
      (m.retain fun _ v => p (f v)).mapValues fun _ => f := by
  ext1
  simp [retain, mapValues, List.filter_map, Function.comp_def]

omit [DecidableEq κ] in
theorem reorder_mapValues (m : AssocMap κ α) (f : κ → α → β) (rank : κ → Nat) :
    (m.mapValues f).reorder rank = (m.reorder rank).mapValues f := by
  ext1
  simp only [reorder, mapValues]
  exact (List.map_insertionSort (fun a b : κ × α => rank a.1 ≤ rank b.1)
    (fun a b : κ × β => rank a.1 ≤ rank b.1) _ m.entries fun _ _ _ _ => Iff.rfl).symm

end MapValues

end AssocMap

end Remo
