import Remo.ForStd.AfterLast
import Remo.ForStd.AssocMap

/-!
# A table with a cached entry

Events put entries into a keyed table or drop them. Beside the table stands one of its entries: the
one put last, or any entry that is left once something is dropped. The table may change its
iteration order at any time.

## Key results

- `Reaches.get?_iff`: the table holds the latest entry of each key.
- `Reaches.of_cached`, `Reaches.of_cached_none`: the cached entry is one of them, and there is one
  unless the table is empty.
-/

namespace Remo

/-- What an event does to a keyed table. -/
inductive TableEdit (κ α : Type*) where
  | put (k : κ) (v : α)
  | drop (k : κ)
  | keep

namespace TableEdit

variable {κ α ε : Type*}

/-- The edit writes or drops the entry of the key. -/
def Touches : TableEdit κ α → κ → Prop
  | put k _, k' => k = k'
  | drop k, k' => k = k'
  | keep, _ => False

/-- The entry was put by an event, and no later event touches its key. -/
def Latest (edit : ε → TableEdit κ α) (es : List ε) (k : κ) (v : α) : Prop :=
  ∃ before e after, es = before ++ e :: after ∧ edit e = .put k v ∧ ∀ x ∈ after, ¬(edit x).Touches k

theorem not_latest_nil (edit : ε → TableEdit κ α) (k : κ) (v : α) : ¬Latest edit [] k v := by
  intro h
  obtain ⟨before, e, after, heq, -, -⟩ := h
  exact List.append_ne_nil_of_right_ne_nil before (List.cons_ne_nil e after) heq.symm

/-- The event put last is the latest of its key. -/
theorem latest_concat_put {edit : ε → TableEdit κ α} {es : List ε} {e : ε} {k : κ} {v : α}
    (h : edit e = .put k v) : Latest edit (es ++ [e]) k v :=
  ⟨es, e, [], rfl, h, fun _ hx => absurd hx List.not_mem_nil⟩

/-- The latest entry was put by the last event, or before it under a key that event leaves alone. -/
theorem latest_concat_cases {edit : ε → TableEdit κ α} {es : List ε} {e : ε} {k : κ} {v : α}
    (h : Latest edit (es ++ [e]) k v) :
    edit e = .put k v ∨ Latest edit es k v ∧ ¬(edit e).Touches k := by
  obtain ⟨before, x, after, heq, hput, hquiet⟩ := h
  cases append_eq_split heq with
  | inl hearlier =>
    obtain ⟨between, hes, hafter⟩ := hearlier
    rw [hafter] at hquiet
    exact .inr ⟨⟨before, x, between, hes, hput,
      fun y hy => hquiet y (List.mem_append_left _ hy)⟩,
      hquiet e (List.mem_append_right _ List.mem_cons_self)⟩
  | inr hlast =>
    obtain ⟨between, -, hsingle⟩ := hlast
    have hx : x ∈ [e] := by
      rw [hsingle]
      exact List.mem_append_right _ List.mem_cons_self
    rw [List.mem_singleton.mp hx] at hput
    exact .inl hput

/-- A later event leaves the latest entries of the keys it does not touch. -/
theorem Latest.concat {edit : ε → TableEdit κ α} {es : List ε} {e : ε} {k : κ} {v : α}
    (h : Latest edit es k v) (hquiet : ¬(edit e).Touches k) : Latest edit (es ++ [e]) k v := by
  obtain ⟨before, x, after, heq, hput, hafter⟩ := h
  refine ⟨before, x, after ++ [e], by rw [heq]; simp, hput, ?_⟩
  intro y hy
  cases List.mem_append.mp hy with
  | inl hold => exact hafter y hold
  | inr hnew =>
    rw [List.mem_singleton.mp hnew]
    exact hquiet

end TableEdit

/-- A table with one of its entries kept beside it. -/
structure CachedTable (κ α : Type*) where
  table : AssocMap κ α
  cached : Option α

namespace CachedTable

variable {κ α ε : Type*} [DecidableEq κ]

def empty : CachedTable κ α := ⟨.empty, none⟩

/-- The cached entry is the one put, or after a drop the first one that is left. -/
def apply (c : CachedTable κ α) : TableEdit κ α → CachedTable κ α
  | .put k v => ⟨c.table.insert k v, some v⟩
  | .drop k =>
    ⟨c.table.retain fun k' _ => k' ≠ k, (c.table.retain fun k' _ => k' ≠ k).values.head?⟩
  | .keep => c

/-- An entry after an edit was put by it or is left from before. -/
theorem get?_apply (c : CachedTable κ α) (edit : TableEdit κ α) (k : κ) (v : α) :
    (c.apply edit).table.get? k = some v ↔
      edit = .put k v ∨ c.table.get? k = some v ∧ ¬edit.Touches k := by
  cases edit with
  | put k' v' =>
    show (c.table.insert k' v').get? k = some v ↔ _
    rw [AssocMap.get?_insert]
    by_cases hk : k = k'
    · simp [hk, TableEdit.Touches]
    · have hne : k' ≠ k := Ne.symm hk
      simp [hk, hne, TableEdit.Touches]
  | drop k' =>
    show (c.table.retain fun k _ => k ≠ k').get? k = some v ↔ _
    rw [AssocMap.get?_retain_keys]
    by_cases hk : k = k'
    · simp [hk, TableEdit.Touches]
    · have hne : k' ≠ k := Ne.symm hk
      simp [hk, hne, TableEdit.Touches]
  | keep => simp [apply, TableEdit.Touches]

/-- The tables that a sequence of events leads to, whatever the iteration orders are. -/
inductive Reaches (edit : ε → TableEdit κ α) : List ε → CachedTable κ α → Prop where
  | empty : Reaches edit [] .empty
  | event {es : List ε} {c : CachedTable κ α} (h : Reaches edit es c) (e : ε) :
      Reaches edit (es ++ [e]) (c.apply (edit e))
  | reorder {es : List ε} {c : CachedTable κ α} (h : Reaches edit es c) (rank : κ → Nat) :
      Reaches edit es ⟨c.table.reorder rank, c.cached⟩

/-- The cached entry is one of the table's, and there is one unless the table is empty. -/
structure Coherent (c : CachedTable κ α) : Prop where
  some_iff : ∀ v, c.cached = some v → ∃ k, c.table.get? k = some v
  none_iff : c.cached = none → ∀ k, c.table.get? k = none

theorem coherent_head (m : AssocMap κ α) : Coherent ⟨m, m.values.head?⟩ where
  some_iff := by
    intro v h
    have hmem : v ∈ m.values := List.mem_of_head? h
    exact AssocMap.mem_values.mp hmem
  none_iff := by
    intro h k
    have hnil : m.values = [] := List.head?_eq_none_iff.mp h
    cases hk : m.get? k with
    | none => rfl
    | some v =>
      have hmem := AssocMap.mem_values.mpr ⟨k, hk⟩
      rw [hnil] at hmem
      exact absurd hmem List.not_mem_nil

theorem Coherent.apply {c : CachedTable κ α} (h : c.Coherent) (edit : TableEdit κ α) :
    (c.apply edit).Coherent := by
  cases edit with
  | put k v =>
    exact ⟨fun v' hv' => ⟨k, by
      rw [← Option.some.inj hv']
      exact AssocMap.get?_insert_self _ _ _⟩, fun hnone => absurd hnone (Option.some_ne_none v)⟩
  | drop k => exact coherent_head _
  | keep => exact h

theorem Reaches.coherent {edit : ε → TableEdit κ α} {es : List ε} {c : CachedTable κ α}
    (h : Reaches edit es c) : c.Coherent := by
  induction h with
  | empty => exact ⟨fun _ hv => absurd hv.symm (Option.some_ne_none _), fun _ _ => rfl⟩
  | event _ e ih => exact ih.apply (edit e)
  | reorder _ rank ih =>
    exact ⟨fun v hv => by
      obtain ⟨k, hk⟩ := ih.some_iff v hv
      exact ⟨k, by rw [AssocMap.get?_reorder]; exact hk⟩,
      fun hnone k => by rw [AssocMap.get?_reorder]; exact ih.none_iff hnone k⟩

/-- The table holds the latest entry of each key. -/
theorem Reaches.get?_iff {edit : ε → TableEdit κ α} {es : List ε} {c : CachedTable κ α}
    (h : Reaches edit es c) (k : κ) (v : α) :
    c.table.get? k = some v ↔ TableEdit.Latest edit es k v := by
  induction h with
  | empty =>
    rw [show (CachedTable.empty : CachedTable κ α).table = .empty from rfl, AssocMap.get?_empty]
    exact ⟨fun h => absurd h.symm (Option.some_ne_none v),
      fun h => absurd h (TableEdit.not_latest_nil edit k v)⟩
  | @event es c _ e ih =>
    have hstep : TableEdit.Latest edit (es ++ [e]) k v ↔
        edit e = .put k v ∨ c.table.get? k = some v ∧ ¬(edit e).Touches k := by
      rw [ih]
      constructor
      · exact TableEdit.latest_concat_cases
      · intro h
        cases h with
        | inl hput => exact TableEdit.latest_concat_put hput
        | inr hold => exact hold.1.concat hold.2
    rw [hstep]
    exact get?_apply c (edit e) k v
  | reorder _ rank ih =>
    rw [AssocMap.get?_reorder]
    exact ih

/-- The cached entry is the latest one of its key. -/
theorem Reaches.of_cached {edit : ε → TableEdit κ α} {es : List ε} {c : CachedTable κ α}
    (h : Reaches edit es c) {v : α} (hv : c.cached = some v) : ∃ k, TableEdit.Latest edit es k v := by
  obtain ⟨k, hk⟩ := h.coherent.some_iff v hv
  exact ⟨k, (h.get?_iff k v).mp hk⟩

/-- Without a cached entry there are no entries. -/
theorem Reaches.of_cached_none {edit : ε → TableEdit κ α} {es : List ε} {c : CachedTable κ α}
    (h : Reaches edit es c) (hnone : c.cached = none) (k : κ) (v : α) :
    ¬TableEdit.Latest edit es k v := by
  intro hlatest
  have hv := (h.get?_iff k v).mpr hlatest
  rw [h.coherent.none_iff hnone k] at hv
  cases hv

end CachedTable

end Remo
