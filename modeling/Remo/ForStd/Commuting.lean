import Mathlib.Data.List.Basic
import Mathlib.Data.List.Flatten
import Remo.ForStd.AssocMap

/-!
# Commuting steps

Steps that may change places: runs of them in general, and the edits of a keyed map.

## Key results

- `foldl_append_comm`  two blocks change places
- `foldl_flatten_perm` the blocks of a list run in any order
- `get?_apply`     an edit entry by entry
- `commute_iff`    when two edits give the same map in both orders
-/

/-! ## Runs of commuting steps

A step function over states that are compared by an equivalence. Blocks of steps that
commute with one another can be run in any order.
-/

namespace Remo

variable {σ ι : Type*}

/-- Both orders of the two steps lead to equivalent states. -/
def Commuting (step : σ → ι → σ) (r : σ → σ → Prop) (a b : ι) : Prop :=
  ∀ s, r (step (step s a) b) (step (step s b) a)

variable {step : σ → ι → σ} {r : σ → σ → Prop}

section

variable (hr : Equivalence r) (hstep : ∀ {s s' : σ} (a : ι), r s s' → r (step s a) (step s' a))

include hstep in
/-- Equivalent states stay equivalent along a run. -/
theorem foldl_related {s s' : σ} (h : r s s') (l : List ι) :
    r (l.foldl step s) (l.foldl step s') := by
  induction l generalizing s s' with
  | nil => exact h
  | cons a l ih => exact ih (hstep a h)

include hr hstep

/-- A step that commutes with those of a run can be made after it. -/
theorem foldl_step_last {a : ι} {l : List ι} (h : ∀ b ∈ l, Commuting step r a b) (s : σ) :
    r (l.foldl step (step s a)) (step (l.foldl step s) a) := by
  induction l generalizing s with
  | nil => exact hr.refl _
  | cons b l ih =>
    have hswap := h b List.mem_cons_self s
    have hrest := ih (fun c hc => h c (List.mem_cons_of_mem _ hc)) (step s b)
    exact hr.trans (foldl_related hstep hswap l) hrest

/-- Two blocks of commuting steps change places. -/
theorem foldl_append_comm {l l' : List ι} (h : ∀ a ∈ l, ∀ b ∈ l', Commuting step r a b) (s : σ) :
    r ((l ++ l').foldl step s) ((l' ++ l).foldl step s) := by
  induction l generalizing s with
  | nil => simpa using hr.refl _
  | cons a l ih =>
    have hfirst := ih (fun b hb => h b (List.mem_cons_of_mem _ hb)) (step s a)
    have hlast := foldl_step_last hr hstep (h a List.mem_cons_self) s
    have hmove := foldl_related hstep hlast l
    simp only [List.foldl_append, List.foldl_cons] at hfirst hmove ⊢
    exact hr.trans hfirst hmove

/-- Blocks whose steps commute with those of the other blocks run in any order. -/
theorem foldl_flatten_perm {bs bs' : List (List ι)} (hperm : bs.Perm bs')
    (h : bs.Pairwise fun l l' => ∀ a ∈ l, ∀ b ∈ l', Commuting step r a b) (s : σ) :
    r (bs.flatten.foldl step s) (bs'.flatten.foldl step s) := by
  have hsymm : ∀ {l l' : List ι}, (∀ a ∈ l, ∀ b ∈ l', Commuting step r a b) →
      ∀ b ∈ l', ∀ a ∈ l, Commuting step r b a :=
    fun h b hb a ha s => hr.symm (h a ha b hb s)
  induction hperm generalizing s with
  | nil => exact hr.refl _
  | cons l _ ih =>
    rw [List.flatten_cons, List.foldl_append, List.flatten_cons, List.foldl_append]
    exact ih (List.pairwise_cons.mp h).2 _
  | swap l l' bs =>
    have hpair := (List.pairwise_cons.mp h).1 l List.mem_cons_self
    have hblocks := foldl_related hstep (foldl_append_comm hr hstep hpair s) bs.flatten
    simpa only [List.flatten_cons, List.foldl_append] using hblocks
  | trans hfirst _ ih ih' =>
    exact hr.trans (ih h s) (ih' ((hfirst.pairwise_iff hsymm).mp h) s)

end

end Remo

/-! ## Edits of a keyed map

The updates of a map that is written by keys: an entry is put in place, or the entries of
some kind are dropped. Two edits commute unless one of them undoes or replaces what the
other one puts there.
-/

namespace Remo

/-- Maps with the same entries, in any order. -/
def AssocMap.Same {κ α : Type*} [DecidableEq κ] (m m' : AssocMap κ α) : Prop :=
  ∀ k, m.get? k = m'.get? k

/-- An edit of a map. -/
inductive MapEdit (κ α : Type*) where
  | put (k : κ) (v : α)
  | drop (p : κ → α → Bool)

namespace MapEdit

variable {κ α : Type*} [DecidableEq κ]

/-- The map after the edit. -/
def apply (m : AssocMap κ α) : MapEdit κ α → AssocMap κ α
  | put k v => m.insert k v
  | drop p => m.retain fun k v => !p k v

/-- Neither edit undoes or replaces what the other one puts into the map. -/
def Independent : MapEdit κ α → MapEdit κ α → Prop
  | put k v, put k' v' => k = k' → v = v'
  | put k v, drop p => p k v = false
  | drop p, put k v => p k v = false
  | drop _, drop _ => True

/-- An edit, entry by entry. -/
def entry (k : κ) (old : Option α) : MapEdit κ α → Option α
  | put k' v => if k = k' then some v else old
  | drop p => old.filter fun v => !p k v

@[simp] theorem entry_drop_none (k : κ) (old : Option α) :
    (drop fun _ _ => false).entry k old = old := by
  cases old <;> rfl

@[simp] theorem entry_drop_all (k : κ) (old : Option α) :
    (drop fun _ _ => true).entry k old = none := by
  cases old <;> rfl

theorem get?_apply (m : AssocMap κ α) (edit : MapEdit κ α) (k : κ) :
    (edit.apply m).get? k = edit.entry k (m.get? k) := by
  cases edit with
  | put k' v => exact AssocMap.get?_insert m k' v k
  | drop p => exact AssocMap.get?_retain m _ k

/-- Edits of maps with the same entries. -/
theorem apply_same {m m' : AssocMap κ α} (h : m.Same m') (edit : MapEdit κ α) :
    (edit.apply m).Same (edit.apply m') := by
  intro k
  rw [get?_apply, get?_apply, h k]

/-- Putting an entry and dropping some commute on every entry when the one put stays. -/
theorem entry_put_drop {k₁ : κ} {v : α} {p : κ → α → Bool} (h : p k₁ v = false) (k : κ)
    (old : Option α) :
    (drop p).entry k ((put k₁ v).entry k old) = (put k₁ v).entry k ((drop p).entry k old) := by
  by_cases hk : k = k₁
  · subst hk
    simp [entry, h, Option.filter]
  · simp [entry, hk]

/-- Independent edits commute on each entry. -/
theorem entry_comm {e e' : MapEdit κ α} (h : e.Independent e') (k : κ) (old : Option α) :
    e'.entry k (e.entry k old) = e.entry k (e'.entry k old) := by
  cases e with
  | put k₁ v => cases e' with
    | put k₂ v' =>
      by_cases h₁ : k = k₁
      · by_cases h₂ : k = k₂
        · obtain rfl := h (h₁.symm.trans h₂)
          simp [entry, h₁]
        · simp [entry, h₂]
      · simp [entry, h₁]
    | drop p => exact entry_put_drop h k old
  | drop p => cases e' with
    | put k₂ v' => exact (entry_put_drop h k old).symm
    | drop p' =>
      show (old.filter _).filter _ = (old.filter _).filter _
      rw [Option.filter_filter, Option.filter_filter]
      simp only [Bool.and_comm]

/-- Two edits give the same map in both orders exactly when they are independent. -/
theorem commute_iff (m : AssocMap κ α) {e e' : MapEdit κ α} :
    (e'.apply (e.apply m)).Same (e.apply (e'.apply m)) ↔ e.Independent e' := by
  have hentry : (e'.apply (e.apply m)).Same (e.apply (e'.apply m)) ↔
      ∀ k, e'.entry k (e.entry k (m.get? k)) = e.entry k (e'.entry k (m.get? k)) := by
    simp only [AssocMap.Same, get?_apply]
  rw [hentry]
  constructor
  · intro h
    -- the entry that one of them puts tells them apart
    cases e with
    | put k₁ v => cases e' with
      | put k₂ v' =>
        intro hk
        subst hk
        simpa [entry] using (h k₁).symm
      | drop p =>
        show p k₁ v = false
        simpa [entry, Option.filter] using h k₁
    | drop p => cases e' with
      | put k₂ v' =>
        show p k₂ v' = false
        simpa [entry, Option.filter] using (h k₂).symm
      | drop p' => trivial
  · exact fun h k => entry_comm h k _

end MapEdit

end Remo
