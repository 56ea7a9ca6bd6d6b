import Mathlib.Data.Finset.Dedup
import Mathlib.Data.List.Nodup
import Mathlib.Order.Interval.Finset.Nat

/-!
# Consecutive numbers

## Key results

- `length_eq_iff_mem`: distinct numbers between two ends are all of them exactly when there are as
  many of them.
- `Backlog.push`, `Backlog.others` what was appended stays an initial part of the list
- `Backlog.flush`                  appending the missing items appends the rest, in order
-/

namespace Remo

/-- Distinct numbers between two ends are all of them exactly when there are as many of them. -/
theorem length_eq_iff_mem {ns : List Nat} {a b : Nat} (hnodup : ns.Nodup) (hle : a ≤ b)
    (hbounds : ∀ n ∈ ns, a ≤ n ∧ n ≤ b) :
    ns.length = b - a + 1 ↔ ∀ n, n ∈ ns ↔ a ≤ n ∧ n ≤ b := by
  have hcard : ns.toFinset.card = ns.length := List.toFinset_card_of_nodup hnodup
  have hsubset : ns.toFinset ⊆ Finset.Icc a b := by
    intro n hn
    exact Finset.mem_Icc.mpr (hbounds n (List.mem_toFinset.mp hn))
  have hIcc : (Finset.Icc a b).card = b + 1 - a := Nat.card_Icc a b
  constructor
  · intro hlength n
    have hge : (Finset.Icc a b).card ≤ ns.toFinset.card := by omega
    rw [← List.mem_toFinset, Finset.eq_of_subset_of_card_le hsubset hge, Finset.mem_Icc]
  · intro hall
    have heq : ns.toFinset = Finset.Icc a b := by
      ext n
      rw [List.mem_toFinset, hall, Finset.mem_Icc]
    rw [heq] at hcard
    omega

end Remo

/-! ## Appending a backlog

A writer keeps a list of items with distinct keys, and appends those whose key a shared log
lacks. The list grows, and other writers append items of their own.
-/

namespace Remo

variable {α κ : Type*} [DecidableEq κ] {key : α → κ} {base items log new : List α}

/-- The items whose key the log lacks. -/
def missing (key : α → κ) (log items : List α) : List α :=
  items.filter fun a => key a ∉ log.map key

/-- The entries of the log that carry the key of an item. -/
def among (key : α → κ) (items log : List α) : List α :=
  log.filter fun a => key a ∈ items.map key

theorem mem_missing {a : α} : a ∈ missing key log items ↔ a ∈ items ∧ key a ∉ log.map key := by
  simp [missing]

theorem mem_among {a : α} : a ∈ among key items log ↔ a ∈ log ∧ key a ∈ items.map key := by
  simp [among]

/-- Any test for the missing items gives them. -/
theorem filter_eq_missing {p : α → Bool} (h : ∀ a ∈ items, p a = true ↔ key a ∉ log.map key) :
    items.filter p = missing key log items := by
  apply List.filter_congr
  intro a ha
  rw [Bool.eq_iff_iff, h a ha]
  simp

theorem missing_append (log items new : List α) :
    missing key log (items ++ new) = missing key log items ++ missing key log new :=
  List.filter_append ..

theorem among_append (items log new : List α) :
    among key items (log ++ new) = among key items log ++ among key items new :=
  List.filter_append ..

theorem among_eq_nil (h : (new.map key).Disjoint (items.map key)) : among key items new = [] := by
  apply List.filter_eq_nil_iff.mpr
  intro a ha
  simpa using h (List.mem_map_of_mem ha)

theorem keys_missing_subset : (missing key log items).map key ⊆ items.map key :=
  (List.filter_sublist.map key).subset

/-- Of the items that `base` lacks, the log holds an initial part, once each and in order. -/
structure Backlog (key : α → κ) (base items log : List α) : Prop where
  nodup : (items.map key).Nodup
  kept : base.map key ⊆ log.map key
  front : among key (missing key base items) log <+: missing key base items

namespace Backlog

theorem init (h : (items.map key).Nodup) : Backlog key base items base where
  nodup := h
  kept := List.Subset.refl _
  front := by
    have hnone : among key (missing key base items) base = [] := by
      apply among_eq_nil
      intro k hk hmissing
      obtain ⟨a, ha, rfl⟩ := List.mem_map.mp hmissing
      exact (mem_missing.mp ha).2 hk
    rw [hnone]
    exact List.nil_prefix

/-- New items change nothing about the entries held, when the log has only those of `base`. -/
theorem among_push
    (hlog : ∀ k ∈ new.map key, k ∈ log.map key → k ∈ base.map key) :
    among key (missing key base (items ++ new)) log = among key (missing key base items) log := by
  apply List.filter_congr
  intro a ha
  rw [missing_append, List.map_append, decide_eq_decide, List.mem_append, or_iff_left_iff_imp]
  intro hmem
  obtain ⟨b, hb, hkey⟩ := List.mem_map.mp hmem
  obtain ⟨hnew, hbase⟩ := mem_missing.mp hb
  apply absurd _ hbase
  apply hlog (key b) (List.mem_map_of_mem hnew)
  rw [hkey]
  exact List.mem_map_of_mem ha

/-- New items at the end of the list. Of these the log has at most those of `base`. -/
theorem push (h : Backlog key base items log) (hnew : (new.map key).Nodup)
    (hitems : (new.map key).Disjoint (items.map key))
    (hlog : ∀ k ∈ new.map key, k ∈ log.map key → k ∈ base.map key) :
    Backlog key base (items ++ new) log where
  nodup := by
    rw [List.map_append]
    exact List.nodup_append'.mpr ⟨h.nodup, hnew, List.disjoint_comm.mp hitems⟩
  kept := h.kept
  front := by
    rw [among_push hlog, missing_append]
    exact h.front.trans (List.prefix_append _ _)

/-- Items of other writers at the end of the log. -/
theorem others (h : Backlog key base items log) (hnew : (new.map key).Disjoint (items.map key)) :
    Backlog key base items (log ++ new) where
  nodup := h.nodup
  kept := by
    rw [List.map_append]
    exact List.subset_append_of_subset_left _ h.kept
  front := by
    have hnone : among key (missing key base items) new = [] :=
      among_eq_nil fun k hk hmissing => hnew hk (keys_missing_subset hmissing)
    rw [among_append, hnone, List.append_nil]
    exact h.front

/-- What is missing in the log is what follows the initial part it holds. -/
theorem missing_log (h : Backlog key base items log) :
    among key (missing key base items) log ++ missing key log items = missing key base items := by
  obtain ⟨rest, hrest⟩ := h.front
  have hnodup : ((missing key base items).map key).Nodup :=
    (List.filter_sublist.map key).nodup h.nodup
  have hown : missing key log items = (missing key base items).filter fun a =>
      key a ∉ log.map key := by
    unfold missing
    rw [List.filter_filter]
    apply List.filter_congr
    intro a _
    by_cases hlog : key a ∈ log.map key
    · simp [hlog]
    · have hbase : key a ∉ base.map key := fun hb => hlog (h.kept hb)
      simp [hlog, hbase]
  have hheld : (among key (missing key base items) log).filter (fun a => key a ∉ log.map key) =
      [] := by
    apply List.filter_eq_nil_iff.mpr
    intro a ha
    have hlog := List.mem_map_of_mem (f := key) (mem_among.mp ha).1
    simpa using hlog
  have hopen : rest.filter (fun a => key a ∉ log.map key) = rest := by
    apply List.filter_eq_self.mpr
    intro a ha
    -- an entry with the key of `a` would be held, and the key would occur twice
    have hnot : key a ∉ log.map key := by
      intro hlog
      obtain ⟨b, hb, hkey⟩ := List.mem_map.mp hlog
      have hmem : key b ∈ (missing key base items).map key := by
        rw [hkey, ← hrest]
        exact List.mem_map_of_mem (List.mem_append_right _ ha)
      have hheldb : b ∈ among key (missing key base items) log := mem_among.mpr ⟨hb, hmem⟩
      rw [← hrest, List.map_append] at hnodup
      apply (List.nodup_append'.mp hnodup).2.2 (List.mem_map_of_mem hheldb)
      rw [hkey]
      exact List.mem_map_of_mem ha
    simpa using hnot
  rw [hown]
  conv_lhs => rw [← hrest]
  rw [List.filter_append]
  rw [hrest, hheld, hopen, List.nil_append, hrest]

/-- Appending the missing items completes the log. -/
theorem flush (h : Backlog key base items log) :
    among key (missing key base items) (log ++ missing key log items) =
      missing key base items := by
  have hall : among key (missing key base items) (missing key log items) =
      missing key log items := by
    apply List.filter_eq_self.mpr
    intro a ha
    have hmem : a ∈ missing key base items := by
      rw [← h.missing_log]
      exact List.mem_append_right _ ha
    simpa using List.mem_map_of_mem hmem
  rw [among_append, hall, h.missing_log]

theorem flushed (h : Backlog key base items log) :
    Backlog key base items (log ++ missing key log items) where
  nodup := h.nodup
  kept := by
    rw [List.map_append]
    exact List.subset_append_of_subset_left _ h.kept
  front := ⟨[], (List.append_nil _).trans h.flush⟩

end Backlog

end Remo
