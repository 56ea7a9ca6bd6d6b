import Mathlib.Algebra.GroupWithZero.Nat
import Mathlib.Data.List.Basic

/-!
# Draining a work queue

Entries of a queue are handled one after another. Handling takes out every entry with the key of
the handled one, and adds new entries at the end. A round walks over the wanted entries that are
there when it begins; rounds go on until no wanted entry is left.

## Key results

- `Walk.spec`: what a round leaves
- `Rounds.once_iff`: every wanted entry is handled once, and the others stay in order, exactly
  when no handled entry shares its key
-/

namespace Remo.WorkQueue

variable {α : Type*}

/-- A handled entry, with the queue it was found in and the entries it added. -/
structure Handled (α : Type*) where
  entry : α
  found : List α
  added : List α

variable (key : α → Nat) (wanted : α → Bool)

/-- The entries with the key of the handled one. -/
def Handled.copies (h : Handled α) : Nat := h.found.countP fun e => key e == key h.entry

/-- The queue behind a handled entry. -/
def Handled.left (h : Handled α) : List α :=
  (h.found.filter fun e => key e != key h.entry) ++ h.added

/-- All entries that were added. -/
def addedBy (steps : List (Handled α)) : List α := steps.flatMap Handled.added

/-- The entries of a list are handled in order, from one queue to another. -/
inductive Walk : List α → List α → List (Handled α) → List α → Prop
  | nil (queue : List α) : Walk [] queue [] queue
  | cons (h : Handled α) {todo result : List α} {steps : List (Handled α)} :
    Walk todo (h.left key) steps result → Walk (h.entry :: todo) h.found (h :: steps) result

/-- Rounds until no wanted entry is left. -/
inductive Rounds : List α → List (Handled α) → List α → Prop
  | done (queue : List α) : queue.filter wanted = [] → Rounds queue [] queue
  | round {queue middle result : List α} {steps more : List (Handled α)} :
    Walk key (queue.filter wanted) queue steps middle → Rounds middle more result →
      Rounds queue (steps ++ more) result

variable {key wanted} {queue todo result late : List α} {steps : List (Handled α)}

/-! ## Counting -/

theorem length_left (h : Handled α) :
    (h.left key).length + h.copies key = h.found.length + h.added.length := by
  have hsplit := @List.length_eq_countP_add_countP α (fun e => key e == key h.entry) h.found
  have hcount : (h.found.filter fun e => key e != key h.entry).length =
      h.found.countP fun e => !(key e == key h.entry) := by
    rw [List.countP_eq_length_filter]
    rfl
  unfold Handled.left Handled.copies
  rw [List.length_append, hcount]
  simp only [Bool.not_eq_true, Bool.decide_eq_false] at hsplit
  omega

/-- As many copies as steps, at least one each, are one each. -/
theorem copies_eq_one (hpos : ∀ h ∈ steps, 1 ≤ h.copies key)
    (hsum : (steps.map (Handled.copies key)).sum = steps.length) :
    ∀ h ∈ steps, h.copies key = 1 := by
  have hle : ∀ steps : List (Handled α), (∀ h ∈ steps, 1 ≤ h.copies key) →
      steps.length ≤ (steps.map (Handled.copies key)).sum := by
    intro steps
    induction steps with
    | nil => intro _; exact Nat.zero_le _
    | cons h steps ih =>
      intro hpos
      have hfirst := hpos h List.mem_cons_self
      have hrest := ih fun h' hmem => hpos h' (List.mem_cons_of_mem _ hmem)
      simp only [List.map_cons, List.sum_cons, List.length_cons]
      omega
  induction steps with
  | nil =>
    intro h hmem
    cases hmem
  | cons h steps ih =>
    have hfirst := hpos h List.mem_cons_self
    have hrestPos : ∀ h' ∈ steps, 1 ≤ h'.copies key :=
      fun h' hmem => hpos h' (List.mem_cons_of_mem _ hmem)
    have hrest := hle steps hrestPos
    simp only [List.map_cons, List.sum_cons, List.length_cons] at hsum
    intro h' hmem
    cases List.mem_cons.mp hmem with
    | inl heq =>
      rw [heq]
      omega
    | inr hmem => exact ih hrestPos (by omega) h' hmem

theorem filter_key_ne {k : Nat} {l : List α} (h : l.countP (fun e => key e == k) = 0) :
    (l.filter fun e => key e != k) = l := by
  rw [List.filter_eq_self]
  intro e he
  have hnot := List.countP_eq_zero.mp h e he
  simpa using hnot

/-! ## One round -/

/-- What the handled entry leaves of the wanted entries. -/
theorem filter_left {h : Handled α} (hqueue : h.found.filter wanted = h.entry :: todo ++ late)
    (hnodup : ((h.entry :: todo).map key).Nodup) :
    (h.left key).filter wanted =
      todo ++ ((late.filter fun e => key e != key h.entry) ++ h.added.filter wanted) := by
  have htodo : todo.countP (fun e => key e == key h.entry) = 0 := by
    rw [List.countP_eq_zero]
    intro e he heq
    apply (List.nodup_cons.mp hnodup).1
    rw [← beq_iff_eq.mp heq]
    exact List.mem_map_of_mem he
  unfold Handled.left
  rw [List.filter_append, List.filter_filter]
  have hcomm : (h.found.filter fun e => wanted e && key e != key h.entry) =
      (h.found.filter wanted).filter fun e => key e != key h.entry := by
    rw [List.filter_filter]
    congr 1
    funext e
    exact Bool.and_comm _ _
  rw [hcomm, hqueue, List.filter_append, List.filter_cons_of_neg (by simp),
    filter_key_ne htodo, List.append_assoc]

/-- A handled entry without copies takes nothing else out. -/
theorem filter_left_of_single {h : Handled α}
    (hqueue : h.found.filter wanted = h.entry :: todo ++ late) (hsingle : h.copies key = 1) :
    (late.filter fun e => key e != key h.entry) = late ∧
      (h.left key).filter (fun e => !wanted e) =
        h.found.filter (fun e => !wanted e) ++ h.added.filter fun e => !wanted e := by
  have hsplit := @List.countP_eq_countP_filter_add α h.found (fun e => key e == key h.entry) wanted
  have hwanted : (h.found.filter wanted).countP (fun e => key e == key h.entry) =
      1 + todo.countP (fun e => key e == key h.entry) +
        late.countP (fun e => key e == key h.entry) := by
    rw [hqueue, List.countP_append, List.countP_cons_of_pos (by simp)]
    omega
  unfold Handled.copies at hsingle
  have hlate : late.countP (fun e => key e == key h.entry) = 0 := by omega
  have hrest : (h.found.filter fun e => !wanted e).countP (fun e => key e == key h.entry) = 0 := by
    omega
  refine ⟨filter_key_ne hlate, ?_⟩
  unfold Handled.left
  rw [List.filter_append, List.filter_filter]
  have hcomm : (h.found.filter fun e => (!wanted e) && key e != key h.entry) =
      (h.found.filter fun e => !wanted e).filter fun e => key e != key h.entry := by
    rw [List.filter_filter]
    congr 1
    funext e
    exact Bool.and_comm _ _
  rw [hcomm, filter_key_ne hrest]

/-- What a round leaves. -/
structure RoundLeaves (key : α → Nat) (wanted : α → Bool) (todo late queue : List α)
    (steps : List (Handled α)) (result : List α) : Prop where
  entries : steps.map Handled.entry = todo
  copies : ∀ h ∈ steps, 1 ≤ h.copies key
  length : result.length + (steps.map (Handled.copies key)).sum =
    queue.length + (addedBy steps).length
  left : (result.filter wanted).Sublist (late ++ (addedBy steps).filter wanted)
  single : (∀ h ∈ steps, h.copies key = 1) →
    result.filter wanted = late ++ (addedBy steps).filter wanted ∧
      result.filter (fun e => !wanted e) =
        queue.filter (fun e => !wanted e) ++ (addedBy steps).filter fun e => !wanted e

theorem Walk.spec (h : Walk key todo queue steps result)
    (hqueue : queue.filter wanted = todo ++ late) (hnodup : (todo.map key).Nodup) :
    RoundLeaves key wanted todo late queue steps result := by
  induction h generalizing late with
  | nil queue =>
    refine ⟨rfl, ?_, rfl, ?_, ?_⟩
    · intro h hmem
      cases hmem
    · rw [hqueue]
      simp [addedBy]
    · intro _
      rw [hqueue]
      simp [addedBy]
  | cons h hwalk ih =>
    have hafter := ih (filter_left hqueue hnodup) (List.nodup_cons.mp hnodup).2
    have hadded : ∀ steps, addedBy (h :: steps) = h.added ++ addedBy steps := fun _ => rfl
    have hlength := @length_left _ key h
    constructor
    · rw [List.map_cons, hafter.entries]
    · intro h' hmem
      cases List.mem_cons.mp hmem with
      | inl heq =>
        rw [heq]
        have hin : h.entry ∈ h.found := by
          apply List.mem_of_mem_filter
          rw [hqueue]
          exact List.mem_append_left _ List.mem_cons_self
        exact List.countP_pos_iff.mpr ⟨h.entry, hin, beq_self_eq_true _⟩
      | inr hmem => exact hafter.copies h' hmem
    · have hrest := hafter.length
      rw [hadded, List.map_cons, List.sum_cons, List.length_append]
      omega
    · rw [hadded, List.filter_append]
      apply hafter.left.trans
      rw [List.append_assoc]
      exact List.filter_sublist.append (List.Sublist.refl _)
    · intro hsingle
      obtain ⟨hlate, hothers⟩ := filter_left_of_single hqueue (hsingle h List.mem_cons_self)
      obtain ⟨hresult, hrest⟩ := hafter.single fun h' hmem =>
        hsingle h' (List.mem_cons_of_mem _ hmem)
      rw [hlate] at hresult
      rw [hadded, List.filter_append, List.filter_append, hresult, hrest, hothers]
      simp

/-! ## All rounds -/

/-- What all rounds leave. -/
structure Drains (key : α → Nat) (wanted : α → Bool) (queue : List α) (steps : List (Handled α))
    (result : List α) : Prop where
  none : result.filter wanted = []
  copies : ∀ h ∈ steps, 1 ≤ h.copies key
  length : result.length + (steps.map (Handled.copies key)).sum =
    queue.length + (addedBy steps).length
  single : (∀ h ∈ steps, h.copies key = 1) →
    steps.map Handled.entry = (queue ++ addedBy steps).filter wanted ∧
      result.filter (fun e => !wanted e) = (queue ++ addedBy steps).filter fun e => !wanted e

theorem addedBy_append (steps more : List (Handled α)) :
    addedBy (steps ++ more) = addedBy steps ++ addedBy more :=
  List.flatMap_append

theorem Rounds.spec (h : Rounds key wanted queue steps result)
    (hnodup : ((queue.filter wanted).map key).Nodup)
    (hadded : ((addedBy steps).map key).Pairwise (· < ·)) :
    Drains key wanted queue steps result := by
  induction h with
  | done queue hnone =>
    refine ⟨hnone, ?_, rfl, ?_⟩
    · intro h hmem
      cases hmem
    · intro _
      simp [addedBy, hnone]
  | @round queue middle result steps more hwalk hrounds ih =>
    rw [addedBy_append, List.map_append, List.pairwise_append] at hadded
    obtain ⟨hfirst, hmore, -⟩ := hadded
    have hround := @Walk.spec _ key wanted queue _ middle [] steps hwalk (by simp) hnodup
    -- what is wanted behind the round was added in it
    have hmiddle : ((middle.filter wanted).map key).Nodup := by
      have hsub := hround.left
      rw [List.nil_append] at hsub
      have hkeys := (hsub.trans List.filter_sublist).map key
      exact (hfirst.imp Nat.ne_of_lt).sublist hkeys
    have hafter := ih hmiddle hmore
    constructor
    · exact hafter.none
    · intro h hmem
      cases List.mem_append.mp hmem with
      | inl hmem => exact hround.copies h hmem
      | inr hmem => exact hafter.copies h hmem
    · have hfirstLength := hround.length
      have hrestLength := hafter.length
      rw [addedBy_append, List.map_append, List.sum_append, List.length_append]
      omega
    · intro hsingle
      obtain ⟨hwanted, hothers⟩ := hround.single fun h hmem =>
        hsingle h (List.mem_append_left _ hmem)
      obtain ⟨hentries, hrest⟩ := hafter.single fun h hmem =>
        hsingle h (List.mem_append_right _ hmem)
      rw [List.nil_append] at hwanted
      rw [List.map_append, hround.entries, hentries, hrest, addedBy_append]
      simp only [List.filter_append, hwanted, hothers, List.append_assoc, and_self]

/-- Every wanted entry is handled once, and the others stay in order, exactly when no handled
    entry shares its key. -/
theorem Rounds.once_iff (h : Rounds key wanted queue steps result)
    (hnodup : ((queue.filter wanted).map key).Nodup)
    (hadded : ((addedBy steps).map key).Pairwise (· < ·)) :
    ((steps.map Handled.entry).Perm ((queue ++ addedBy steps).filter wanted) ∧
        result.filter (fun e => !wanted e) =
          (queue ++ addedBy steps).filter fun e => !wanted e) ↔
      ∀ h ∈ steps, h.copies key = 1 := by
  have hdrains := h.spec hnodup hadded
  constructor
  · intro honce
    obtain ⟨hperm, hothers⟩ := honce
    apply copies_eq_one hdrains.copies
    have hhandled := hperm.length_eq
    have hkept := congrArg List.length hothers
    have hresult := @List.length_eq_length_filter_add _ result wanted
    have hall := @List.length_eq_length_filter_add _ (queue ++ addedBy steps) wanted
    have hlength := hdrains.length
    rw [hdrains.none, List.length_nil] at hresult
    rw [List.length_map] at hhandled
    rw [List.length_append] at hall
    omega
  · intro hsingle
    obtain ⟨hentries, hothers⟩ := hdrains.single hsingle
    exact ⟨List.Perm.of_eq hentries, hothers⟩

end Remo.WorkQueue
