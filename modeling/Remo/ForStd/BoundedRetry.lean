import Mathlib.Data.List.Count

/-!
# Bounded retry

A work item waits, is handed out to a worker, comes back after a failed attempt,
and ends when it is finished or its attempts are used up. Whatever the order of
these steps, the failures are counted exactly, the item is handed out at most
`limit` times and ends at most once.
-/

namespace List

/-- Counting two exclusive kinds together. -/
theorem countP_add_countP {α : Type*} {p q r : α → Bool} (l : List α)
    (h : ∀ a ∈ l, r a = (p a || q a) ∧ ¬(p a = true ∧ q a = true)) :
    l.countP p + l.countP q = l.countP r := by
  induction l with
  | nil => rfl
  | cons a l ih =>
    obtain ⟨hr, hexcl⟩ := h a mem_cons_self
    have hrest := ih fun b hb => h b (mem_cons_of_mem _ hb)
    simp only [countP_cons, hr]
    cases hp : p a <;> cases hq : q a <;> simp_all <;> omega

end List

namespace Remo.BoundedRetry

/-- Where a work item is. -/
inductive Phase where
  | waiting
  | running
  | finished
deriving Repr, DecidableEq

/-- A work item with the number of its failed attempts. -/
structure Item where
  phase : Phase
  failed : Nat
deriving Repr, DecidableEq

/-- What happens to a work item in one step. -/
inductive Label where
  | quiet
  | handOut
  | retry
  | exhaust
  | finish
deriving Repr, DecidableEq

/-- The step is a failed attempt. -/
def Label.isFailure : Label → Bool
  | .retry | .exhaust => true
  | .quiet | .handOut | .finish => false

/-- The step ends the item. -/
def Label.isEnd : Label → Bool
  | .exhaust | .finish => true
  | .quiet | .handOut | .retry => false

/-- The step hands the item out. -/
def Label.isHandOut : Label → Bool
  | .handOut => true
  | .quiet | .retry | .exhaust | .finish => false

/-- The steps of a work item that may fail `limit` times. -/
inductive Step (limit : Nat) : Item → Label → Item → Prop where
  | quiet (i : Item) : Step limit i .quiet i
  | handOut (n : Nat) : Step limit ⟨.waiting, n⟩ .handOut ⟨.running, n⟩
  | retry (n : Nat) : n + 1 < limit → Step limit ⟨.running, n⟩ .retry ⟨.waiting, n + 1⟩
  | exhaust (n : Nat) : limit ≤ n + 1 → Step limit ⟨.running, n⟩ .exhaust ⟨.finished, n + 1⟩
  | finish (p : Phase) (n : Nat) : p ≠ .finished → Step limit ⟨p, n⟩ .finish ⟨.finished, n⟩

/-- A sequence of steps with its labels. -/
inductive Steps (limit : Nat) : Item → List Label → Item → Prop where
  | nil (i : Item) : Steps limit i [] i
  | cons {i j k : Item} {l : Label} {ls : List Label} :
      Step limit i l j → Steps limit j ls k → Steps limit i (l :: ls) k

/-- How often an item may still be handed out. -/
def Item.left (limit : Nat) (i : Item) : Nat :=
  match i.phase with
  | .waiting => limit - i.failed
  | .running => limit - i.failed - 1
  | .finished => 0

/-- How often an item may still end. -/
def Item.endsLeft (i : Item) : Nat :=
  match i.phase with
  | .waiting | .running => 1
  | .finished => 0

variable {limit : Nat} {i j : Item} {ls : List Label}

/-- An item that has not ended has an attempt left. -/
def Item.Open (limit : Nat) (i : Item) : Prop := i.phase ≠ .finished → i.failed < limit

theorem Step.open {l : Label} (h : Step limit i l j) (hi : i.Open limit) : j.Open limit := by
  cases h with
  | quiet => exact hi
  | handOut n => exact fun _ => hi (by simp)
  | retry n hlt => exact fun _ => hlt
  | exhaust | finish => exact fun h => absurd rfl h

/-- Every failed attempt is counted. -/
theorem Steps.failed_eq (h : Steps limit i ls j) :
    j.failed = i.failed + ls.countP Label.isFailure := by
  induction h with
  | nil => simp
  | cons hstep _ ih =>
    rw [ih, List.countP_cons]
    cases hstep <;> simp [Label.isFailure] <;> omega

/-- Hand-outs are bounded by what was left at the start. -/
theorem Steps.handOuts_le (h : Steps limit i ls j) (hi : i.Open limit) :
    ls.countP Label.isHandOut + j.left limit ≤ i.left limit := by
  induction h with
  | nil => simp
  | cons hstep _ ih =>
    have hrest := ih (hstep.open hi)
    rw [List.countP_cons]
    cases hstep with
    | quiet => simpa [Label.isHandOut] using hrest
    | handOut n =>
      have hlt : n < limit := hi (by simp)
      simp only [Item.left, Label.isHandOut, if_true] at hrest ⊢
      omega
    | retry n =>
      simp only [Item.left, Label.isHandOut, Bool.false_eq_true, if_false] at hrest ⊢
      omega
    | exhaust n | finish p n =>
      simp only [Item.left, Label.isHandOut, Bool.false_eq_true, if_false] at hrest ⊢
      omega

/-- An item ends at most once. -/
theorem Steps.ends_le (h : Steps limit i ls j) :
    ls.countP Label.isEnd + j.endsLeft ≤ i.endsLeft := by
  induction h with
  | nil => simp
  | cons hstep _ ih =>
    rw [List.countP_cons]
    cases hstep with
    | quiet => simpa [Label.isEnd] using ih
    | handOut n | retry n =>
      simp only [Item.endsLeft, Label.isEnd, Bool.false_eq_true, if_false] at ih ⊢
      omega
    | exhaust n =>
      simp only [Item.endsLeft, Label.isEnd, if_true] at ih ⊢
      omega
    | finish p n hp =>
      cases p <;> simp only [Item.endsLeft, Label.isEnd, if_true] at ih ⊢ <;> first
        | omega
        | exact absurd rfl hp

end Remo.BoundedRetry
