import Mathlib.Data.List.Nodup
import Mathlib.Data.List.Perm.Basic

/-!
# Delivery ledgers

A queue of waiting ids and a log of delivered ids. Ids are accepted into the
queue, taken back, reordered, or moved to the end of the log. Whatever happens in
whatever order, an accepted id is waiting, delivered or taken back, and only one
of these (`Run.exactlyOne`), and the log has it at most once (`Run.count_le_one`).
-/

namespace Remo

/-- Ids waiting for delivery and ids delivered, oldest first. -/
structure Ledger (ι : Type*) where
  pending : List ι
  delivered : List ι

/-- Exactly one of three propositions holds. -/
def ExactlyOne (p q r : Prop) : Prop := (p ∧ ¬q ∧ ¬r) ∨ (¬p ∧ q ∧ ¬r) ∨ (¬p ∧ ¬q ∧ r)

namespace Ledger

/-- What can happen to a ledger. -/
inductive Action (ι : Type*) where
  | accept (ids : List ι)
  | retract (id : ι)
  | reorder
  | deliver (ids : List ι)

variable {ι : Type*}

/-- One action. Only ids that are neither waiting nor delivered are accepted, and
    only waiting ids are taken back or delivered. -/
inductive Step : Ledger ι → Action ι → Ledger ι → Prop where
  | accept {l : Ledger ι} {ids : List ι} (hnodup : ids.Nodup)
      (hnew : ∀ i ∈ ids, i ∉ l.pending ∧ i ∉ l.delivered) :
      Step l (.accept ids) ⟨l.pending ++ ids, l.delivered⟩
  | retract {l : Ledger ι} {i : ι} {rest : List ι} (hperm : l.pending.Perm (i :: rest)) :
      Step l (.retract i) ⟨rest, l.delivered⟩
  | reorder {l : Ledger ι} {queue : List ι} (hperm : l.pending.Perm queue) :
      Step l .reorder ⟨queue, l.delivered⟩
  | deliver {l : Ledger ι} {ids rest : List ι} (hperm : l.pending.Perm (ids ++ rest)) :
      Step l (.deliver ids) ⟨rest, l.delivered ++ ids⟩

/-- A run of actions, oldest first. -/
inductive Run : Ledger ι → List (Action ι) → Ledger ι → Prop where
  | refl (l : Ledger ι) : Run l [] l
  | tail {l l' l'' : Ledger ι} {as : List (Action ι)} {a : Action ι} (hrun : Run l as l')
      (hstep : Step l' a l'') : Run l (as ++ [a]) l''

theorem Run.single {l l' : Ledger ι} {a : Action ι} (h : Step l a l') : Run l [a] l' :=
  .tail (.refl l) h

theorem Run.append {l l' l'' : Ledger ι} {as bs : List (Action ι)} (h : Run l as l')
    (h' : Run l' bs l'') : Run l (as ++ bs) l'' := by
  induction h' with
  | refl => simpa using h
  | tail _ hstep ih =>
    rw [← List.append_assoc]
    exact .tail ih hstep

/-- Waiting ids are pairwise distinct and not delivered. -/
structure WellFormed (l : Ledger ι) : Prop where
  nodup : l.pending.Nodup
  disjoint : l.pending.Disjoint l.delivered

/-- The action accepts the id. -/
def Action.Accepts (i : ι) : Action ι → Prop
  | .accept ids => i ∈ ids
  | _ => False

/-- The id was accepted at some time. -/
def Accepted (as : List (Action ι)) (i : ι) : Prop := ∃ a ∈ as, a.Accepts i

section Retracted

variable [DecidableEq ι]

/-- Whether the id counts as taken back after an action. -/
def Action.retracts (i : ι) (retracted : Bool) : Action ι → Bool
  | .accept ids => retracted && !decide (i ∈ ids)
  | .retract j => retracted || decide (i = j)
  | _ => retracted

/-- The last action that accepted the id or took it back took it back. -/
def retracted (as : List (Action ι)) (i : ι) : Bool := as.foldl (Action.retracts i) false

@[simp] theorem retracted_concat (as : List (Action ι)) (a : Action ι) (i : ι) :
    retracted (as ++ [a]) i = a.retracts i (retracted as i) := by
  simp [retracted]

end Retracted

theorem accepted_concat {as : List (Action ι)} {a : Action ι} {i : ι} :
    Accepted (as ++ [a]) i ↔ Accepted as i ∨ a.Accepts i := by
  simp [Accepted, or_and_right, exists_or]

/-! ## Steps -/

theorem Step.wellFormed {l l' : Ledger ι} {a : Action ι} (h : Step l a l')
    (hwf : l.WellFormed) : l'.WellFormed := by
  obtain ⟨hnodup, hdisjoint⟩ := hwf
  cases h with
  | accept hids hnew =>
    refine ⟨hnodup.append hids fun i hp hi => (hnew i hi).1 hp, ?_⟩
    exact List.disjoint_append_left.mpr ⟨hdisjoint, fun i hi hd => (hnew i hi).2 hd⟩
  | retract hperm =>
    have hnodup' := hperm.nodup_iff.mp hnodup
    refine ⟨(List.nodup_cons.mp hnodup').2, fun j hj hd => ?_⟩
    exact hdisjoint (hperm.mem_iff.mpr (List.mem_cons_of_mem _ hj)) hd
  | reorder hperm =>
    exact ⟨hperm.nodup_iff.mp hnodup, fun j hj hd => hdisjoint (hperm.mem_iff.mpr hj) hd⟩
  | @deliver ids rest hperm =>
    obtain ⟨-, hrest, hcross⟩ := List.nodup_append'.mp (hperm.nodup_iff.mp hnodup)
    refine ⟨hrest, List.disjoint_append_right.mpr ⟨fun j hj hd => ?_, fun j hj hi => hcross hi hj⟩⟩
    exact hdisjoint (hperm.mem_iff.mpr (List.mem_append_right _ hj)) hd

/-- Delivered ids were waiting, each once, and go to the end of the log. -/
theorem Step.of_deliver {l l' : Ledger ι} {ids : List ι} (h : Step l (.deliver ids) l')
    (hwf : l.WellFormed) :
    l'.delivered = l.delivered ++ ids ∧ ids.Nodup ∧ ids.Disjoint l.delivered := by
  cases h with
  | deliver hperm =>
    have hnodup := List.nodup_append.mp (hperm.nodup_iff.mp hwf.nodup)
    refine ⟨rfl, hnodup.1, fun i hi hd => ?_⟩
    exact hwf.disjoint (hperm.mem_iff.mpr (List.mem_append_left _ hi)) hd

/-- The log only grows at its end. -/
theorem Step.delivered_prefix {l l' : Ledger ι} {a : Action ι} (h : Step l a l') :
    l.delivered <+: l'.delivered := by
  cases h with
  | deliver _ => exact List.prefix_append _ _
  | _ => exact List.prefix_rfl

theorem Run.delivered_prefix {l l' : Ledger ι} {as : List (Action ι)} (h : Run l as l') :
    l.delivered <+: l'.delivered := by
  induction h with
  | refl => exact List.prefix_rfl
  | tail _ hstep ih => exact ih.trans hstep.delivered_prefix

theorem Run.wellFormed {l l' : Ledger ι} {as : List (Action ι)} (h : Run l as l')
    (hwf : l.WellFormed) : l'.WellFormed := by
  induction h with
  | refl => exact hwf
  | tail _ hstep ih => exact hstep.wellFormed ih

/-! ## Exactly once -/

section ExactlyOnce

variable [DecidableEq ι]

/-- Where an id is after the given history: it waits, it is delivered once, or it
    was taken back. -/
def Placed (l : Ledger ι) (as : List (Action ι)) (i : ι) : Prop :=
  ExactlyOne (i ∈ l.pending) (i ∈ l.delivered) (retracted as i = true) ∧
    l.delivered.count i ≤ 1

/-- An id that is waiting and well placed is not delivered and not taken back. -/
theorem Placed.of_pending {l : Ledger ι} {as : List (Action ι)} {i : ι} (h : Placed l as i)
    (hi : i ∈ l.pending) : i ∉ l.delivered ∧ retracted as i = false := by
  rcases h.1 with ⟨-, hd, hr⟩ | ⟨hp, -⟩ | ⟨hp, -⟩
  · exact ⟨hd, Bool.eq_false_iff.mpr hr⟩
  · exact absurd hi hp
  · exact absurd hi hp

/-- An action that accepts an id makes it wait. -/
theorem Step.placed_of_accepts {l l' : Ledger ι} {a : Action ι} {as : List (Action ι)} {i : ι}
    (h : Step l a l') (hi : a.Accepts i) : Placed l' (as ++ [a]) i := by
  cases h with
  | accept hids hnew =>
    have hmem : i ∈ _ := hi
    have hd := (hnew i hmem).2
    refine ⟨.inl ⟨List.mem_append_right _ hmem, hd, ?_⟩, ?_⟩
    · simp [Action.retracts, hmem]
    · rw [List.count_eq_zero_of_not_mem hd]
      exact Nat.zero_le 1
  | _ => exact hi.elim

/-- No action loses or doubles a placed id. -/
theorem Step.placed {l l' : Ledger ι} {a : Action ι} {as : List (Action ι)} {i : ι}
    (h : Step l a l') (hwf : l.WellFormed) (hplaced : Placed l as i) (hi : ¬a.Accepts i) :
    Placed l' (as ++ [a]) i := by
  obtain ⟨hone, hcount⟩ := hplaced
  cases h with
  | accept hids hnew =>
    have hmem : i ∉ _ := hi
    refine ⟨?_, hcount⟩
    simpa [Action.retracts, hmem] using hone
  | @retract j rest hperm =>
    have hnodup := List.nodup_cons.mp (hperm.nodup_iff.mp hwf.nodup)
    refine ⟨?_, hcount⟩
    by_cases hij : i = j
    · subst hij
      have hp : i ∈ l.pending := hperm.mem_iff.mpr List.mem_cons_self
      have hd := (Placed.of_pending ⟨hone, hcount⟩ hp).1
      exact .inr (.inr ⟨hnodup.1, hd, by simp [Action.retracts]⟩)
    · have hp : i ∈ l.pending ↔ i ∈ rest := by rw [hperm.mem_iff, List.mem_cons]; simp [hij]
      simpa [Action.retracts, hij, hp] using hone
  | reorder hperm =>
    refine ⟨?_, hcount⟩
    simpa [Action.retracts, ← hperm.mem_iff] using hone
  | @deliver ids rest hperm =>
    obtain ⟨hids, -, hcross⟩ := List.nodup_append'.mp (hperm.nodup_iff.mp hwf.nodup)
    by_cases hmem : i ∈ ids
    · have hp : i ∈ l.pending := hperm.mem_iff.mpr (List.mem_append_left _ hmem)
      obtain ⟨hd, hr⟩ := Placed.of_pending ⟨hone, hcount⟩ hp
      refine ⟨.inr (.inl ⟨hcross hmem, List.mem_append_right _ hmem, ?_⟩), ?_⟩
      · simp [Action.retracts, hr]
      · rw [List.count_append, List.count_eq_zero_of_not_mem hd, Nat.zero_add]
        exact List.nodup_iff_count_le_one.mp hids i
    · have hp : i ∈ l.pending ↔ i ∈ rest := by rw [hperm.mem_iff, List.mem_append]; simp [hmem]
      have hd : i ∈ l.delivered ++ ids ↔ i ∈ l.delivered := by simp [hmem]
      refine ⟨?_, ?_⟩
      · simpa [Action.retracts, hd, ← hp] using hone
      · rwa [List.count_append, List.count_eq_zero_of_not_mem hmem, Nat.add_zero]

theorem Run.placed {l l' : Ledger ι} {as : List (Action ι)} (h : Run l as l')
    (hwf : l.WellFormed) {i : ι} (hi : Accepted as i) : Placed l' as i := by
  induction h with
  | refl => exact absurd hi (by simp [Accepted])
  | tail hrun hstep ih =>
    rcases Classical.em (Action.Accepts i _) with hnow | hnow
    · exact hstep.placed_of_accepts hnow
    · have hbefore := (accepted_concat.mp hi).resolve_right hnow
      exact hstep.placed (hrun.wellFormed hwf) (ih hbefore) hnow

/-- An accepted id is waiting, delivered or taken back, and only one of these. -/
theorem Run.exactlyOne {l l' : Ledger ι} {as : List (Action ι)} (h : Run l as l')
    (hwf : l.WellFormed) {i : ι} (hi : Accepted as i) :
    ExactlyOne (i ∈ l'.pending) (i ∈ l'.delivered) (retracted as i = true) :=
  (h.placed hwf hi).1

/-- An accepted id is delivered at most once. -/
theorem Run.count_le_one {l l' : Ledger ι} {as : List (Action ι)} (h : Run l as l')
    (hwf : l.WellFormed) {i : ι} (hi : Accepted as i) : l'.delivered.count i ≤ 1 :=
  (h.placed hwf hi).2

end ExactlyOnce

end Ledger

end Remo
