import Mathlib.Data.List.Sort
import Remo.Native.Message.Append

/-!
# The rules of a freeze

What a freeze may take out of the pending queue is said by rules about the selected indexes. The
selection loop follows the rules, and a list of indexes follows them exactly when it is an
initial part of what the loop selects.

Key results:
* `selectPendingFrom_scan`      the loop takes the eligible entries up to where it ends
* `FreezeRules.prefix_select`   what follows the rules is an initial part of the selection
* `select_greatest`             the selection follows the rules, and the loop ends only at an
  entry that the rules forbid to take
-/

namespace Remo

variable (pending : List PendingMessageRecord) (boundary : DeliveryBoundary)
  (currentRunId : Option String)

/-! ## The rules -/

/-- The freeze may consume the entry at the index. -/
def EligibleAt (i : Nat) : Prop :=
  ∃ entry, pending[i]? = some entry ∧ eligibleForFreeze entry boundary currentRunId = true

/-- The freeze may pass over the entry at the index: it is ineligible, carries no barrier and
    belongs to a lane that can be skipped. -/
def PassedAt (i : Nat) : Prop :=
  ∃ entry, pending[i]? = some entry ∧ eligibleForFreeze entry boundary currentRunId = false ∧
    entry.deliveryMode.barrier = false ∧ canSkipIneligible entry boundary = true

/-- The entry at the index carries a barrier. -/
def BarrierAt (i : Nat) : Prop :=
  ∃ entry, pending[i]? = some entry ∧ entry.deliveryMode.barrier = true

/-- The entry at the index is to be consumed alone. -/
def OneAt (i : Nat) : Prop :=
  ∃ entry, pending[i]? = some entry ∧ entry.deliveryMode.granularity = .one

/-- The run an entry is targeted at allows the freeze: it is the current one, or the entry falls
    back to a new run. -/
def TargetAllows (entry : PendingMessageRecord) : Prop :=
  ∀ runId, entry.deliveryMode.targetRunId = some runId →
    if boundary = .newRun then entry.deliveryMode.fallbackToNewRun = true
    else currentRunId = some runId

/-- The rules about the indexes that a freeze selects. -/
structure FreezeRules (selected : List Nat) : Prop where
  ascending : selected.Pairwise (· < ·)
  eligible : ∀ i ∈ selected, EligibleAt pending boundary currentRunId i
  /-- What is skipped before a selected entry may be passed over. -/
  skipped : ∀ i j, i ∉ selected → j ∈ selected → i < j → PassedAt pending boundary currentRunId i
  /-- A selected barrier is last, and everything before it is selected. -/
  barrier : ∀ i ∈ selected, BarrierAt pending i →
    (∀ j ∈ selected, j ≤ i) ∧ ∀ j, j < i → j ∈ selected
  one : ∀ i ∈ selected, OneAt pending i → selected = [i]
  /-- Nothing is selected behind a barrier that is not selected. -/
  behind : ∀ i, BarrierAt pending i → i ∉ selected → ∀ j ∈ selected, j < i
  targeted : ∀ i ∈ selected, ∀ entry, pending[i]? = some entry →
    TargetAllows boundary currentRunId entry

variable {pending boundary currentRunId} {selected : List Nat} {stop : Nat}

theorem not_passedAt_of_eligibleAt {i : Nat} (h : EligibleAt pending boundary currentRunId i) :
    ¬ PassedAt pending boundary currentRunId i := by
  intro hpassed
  obtain ⟨entry, hget, helig⟩ := h
  obtain ⟨entry', hget', hinelig, -⟩ := hpassed
  obtain rfl := Option.some.inj (hget.symm.trans hget')
  rw [helig] at hinelig
  cases hinelig

theorem targetAllows_of_eligible {entry : PendingMessageRecord}
    (h : eligibleForFreeze entry boundary currentRunId = true) :
    TargetAllows boundary currentRunId entry := by
  intro runId htarget
  unfold eligibleForFreeze at h
  simp only [htarget, Bool.and_eq_true] at h
  split
  · rename_i hnew
    simpa [hnew] using h.1
  · rename_i hnew
    have heq : some runId = currentRunId := by simpa [hnew] using h.1
    exact heq.symm

/-! ## The loop -/

variable (pending boundary currentRunId) in
/-- The indexes of the eligible entries before a position. -/
def eligibleIndexes (n : Nat) : List Nat :=
  (List.range n).filter fun i =>
    pending[i]?.any fun entry => eligibleForFreeze entry boundary currentRunId

theorem mem_eligibleIndexes {n i : Nat} :
    i ∈ eligibleIndexes pending boundary currentRunId n ↔
      i < n ∧ EligibleAt pending boundary currentRunId i := by
  simp [eligibleIndexes, EligibleAt, Option.any_eq_true]

theorem eligibleIndexes_pairwise (n : Nat) :
    (eligibleIndexes pending boundary currentRunId n).Pairwise (· < ·) :=
  List.pairwise_lt_range.filter _

theorem eligibleIndexes_prefix {m n : Nat} (h : m ≤ n) :
    eligibleIndexes pending boundary currentRunId m <+:
      eligibleIndexes pending boundary currentRunId n := by
  have hrange : List.range m <+: List.range n := by
    obtain ⟨k, rfl⟩ := Nat.exists_eq_add_of_le h
    rw [List.range_add]
    exact List.prefix_append _ _
  exact hrange.filter _

theorem eligibleIndexes_succ {n : Nat} {entry : PendingMessageRecord}
    (hget : pending[n]? = some entry) :
    eligibleIndexes pending boundary currentRunId (n + 1) =
      eligibleIndexes pending boundary currentRunId n ++
        if eligibleForFreeze entry boundary currentRunId then [n] else [] := by
  unfold eligibleIndexes
  rw [List.range_succ, List.filter_append]
  congr 1
  simp [hget, List.filter_cons]

theorem eligibleIndexes_isEmpty {n : Nat} :
    (eligibleIndexes pending boundary currentRunId n).isEmpty = false ↔
      ∃ i, i < n ∧ EligibleAt pending boundary currentRunId i := by
  rw [← Bool.not_eq_true, List.isEmpty_iff, List.eq_nil_iff_forall_not_mem]
  simp only [mem_eligibleIndexes, not_forall, not_not]

variable (pending boundary currentRunId) in
/-- No entry taken before the position ends the loop. -/
def TakenOpen (n : Nat) : Prop :=
  ∀ i, i < n → EligibleAt pending boundary currentRunId i →
    ¬ BarrierAt pending i ∧ ¬ OneAt pending i

variable (pending boundary currentRunId) in
/-- Something is passed over before the position. -/
def SkippedBefore (n : Nat) : Prop := ∃ i, i < n ∧ ¬ EligibleAt pending boundary currentRunId i

variable (pending boundary currentRunId) in
/-- Whatever is not eligible before the position may be passed over. -/
def PassedBefore (n : Nat) : Prop :=
  ∀ i, i < n → ¬ EligibleAt pending boundary currentRunId i →
    PassedAt pending boundary currentRunId i

variable (pending boundary currentRunId) in
/-- Why the loop ends where it does. -/
inductive ScanEnd : Nat → Prop
  | finished : TakenOpen pending boundary currentRunId pending.length → ScanEnd pending.length
  | ineligible {stop : Nat} {entry : PendingMessageRecord} :
    TakenOpen pending boundary currentRunId stop → pending[stop]? = some entry →
    eligibleForFreeze entry boundary currentRunId = false →
    entry.deliveryMode.barrier = true ∨ canSkipIneligible entry boundary = false → ScanEnd stop
  | barrierBehind {stop : Nat} {entry : PendingMessageRecord} :
    TakenOpen pending boundary currentRunId stop → pending[stop]? = some entry →
    eligibleForFreeze entry boundary currentRunId = true → entry.deliveryMode.barrier = true →
    SkippedBefore pending boundary currentRunId stop → ScanEnd stop
  | oneBehind {stop : Nat} {entry : PendingMessageRecord} :
    TakenOpen pending boundary currentRunId stop → pending[stop]? = some entry →
    eligibleForFreeze entry boundary currentRunId = true →
    entry.deliveryMode.granularity = .one →
    (∃ i, i < stop ∧ EligibleAt pending boundary currentRunId i) → ScanEnd stop
  | taken {last : Nat} {entry : PendingMessageRecord} :
    TakenOpen pending boundary currentRunId last → pending[last]? = some entry →
    eligibleForFreeze entry boundary currentRunId = true →
    entry.deliveryMode.barrier = true ∨ entry.deliveryMode.granularity = .one →
    (entry.deliveryMode.barrier = true → ¬ SkippedBefore pending boundary currentRunId last) →
    (entry.deliveryMode.granularity = .one →
      ∀ i, i < last → ¬ EligibleAt pending boundary currentRunId i) →
    ScanEnd (last + 1)

section Entry

variable {entry : PendingMessageRecord} {index : Nat} (hget : pending[index]? = some entry)

include hget

theorem eligibleAt_iff : EligibleAt pending boundary currentRunId index ↔
    eligibleForFreeze entry boundary currentRunId = true := by
  simp [EligibleAt, hget]

theorem barrierAt_iff : BarrierAt pending index ↔ entry.deliveryMode.barrier = true := by
  simp [BarrierAt, hget]

theorem oneAt_iff : OneAt pending index ↔ entry.deliveryMode.granularity = .one := by
  simp [OneAt, hget]

end Entry

/-- From a position on, the loop takes the eligible entries up to where it ends, and passes over
    the others. -/
theorem selectPendingFrom_scan (rest : List PendingMessageRecord) (index : Nat)
    (skippedPrior : Bool) (hrest : pending.drop index = rest) (hindex : index ≤ pending.length)
    (hopen : TakenOpen pending boundary currentRunId index)
    (hpassed : PassedBefore pending boundary currentRunId index)
    (hskipped : skippedPrior = true ↔ SkippedBefore pending boundary currentRunId index) :
    ∃ stop, selectPendingFrom boundary currentRunId index skippedPrior
        (eligibleIndexes pending boundary currentRunId index) rest =
          eligibleIndexes pending boundary currentRunId stop ∧
      ScanEnd pending boundary currentRunId stop ∧
      PassedBefore pending boundary currentRunId stop := by
  induction rest generalizing index skippedPrior with
  | nil =>
    have hend : index = pending.length := by
      have hle := List.drop_eq_nil_iff.mp hrest
      omega
    subst hend
    exact ⟨pending.length, rfl, .finished hopen, hpassed⟩
  | cons entry rest ih =>
    have hget : pending[index]? = some entry := by
      have h0 := congrArg (fun l : List PendingMessageRecord => l[0]?) hrest
      simpa using h0
    have hlt : index < pending.length := (List.getElem?_eq_some_iff.mp hget).1
    have hrest' : pending.drop (index + 1) = rest := by
      rw [← List.tail_drop, hrest, List.tail_cons]
    unfold selectPendingFrom
    cases helig : eligibleForFreeze entry boundary currentRunId with
    | false =>
      have hnot : ¬ EligibleAt pending boundary currentRunId index := by
        simp [eligibleAt_iff hget, helig]
      simp only [Bool.not_false, if_true]
      cases hbarrier : entry.deliveryMode.barrier with
      | true => exact ⟨index, rfl, .ineligible hopen hget helig (.inl hbarrier), hpassed⟩
      | false =>
        simp only [Bool.false_eq_true, if_false]
        cases hskip : canSkipIneligible entry boundary with
        | false => exact ⟨index, rfl, .ineligible hopen hget helig (.inr hskip), hpassed⟩
        | true =>
          have hsame := @eligibleIndexes_succ pending boundary currentRunId _ _ hget
          rw [helig, if_neg Bool.false_ne_true, List.append_nil] at hsame
          rw [if_pos rfl, ← hsame]
          apply ih (index + 1) true hrest' hlt
          · intro i hi hi'
            have hne : i ≠ index := fun heq => hnot (heq ▸ hi')
            exact hopen i (by omega) hi'
          · intro i hi hi'
            by_cases heq : i = index
            · exact heq ▸ ⟨entry, hget, helig, hbarrier, hskip⟩
            · exact hpassed i (by omega) hi'
          · simp only [true_iff]
            exact ⟨index, Nat.lt_succ_self index, hnot⟩
    | true =>
      have hat : EligibleAt pending boundary currentRunId index := (eligibleAt_iff hget).mpr helig
      have hmore := @eligibleIndexes_succ pending boundary currentRunId _ _ hget
      rw [helig, if_pos rfl] at hmore
      simp only [Bool.not_true, Bool.false_eq_true, if_false]
      split
      · rename_i hbehind
        obtain ⟨hbarrier, hprior⟩ := (Bool.and_eq_true _ _).mp hbehind
        exact ⟨index, rfl, .barrierBehind hopen hget helig hbarrier (hskipped.mp hprior), hpassed⟩
      rename_i hbehind
      split
      · rename_i halone
        obtain ⟨hsome, hone⟩ := (Bool.and_eq_true _ _).mp halone
        have hsome' := eligibleIndexes_isEmpty.mp (by simpa using hsome)
        exact ⟨index, rfl, .oneBehind hopen hget helig (by simpa using hone) hsome', hpassed⟩
      rename_i halone
      -- the entry is taken
      have hpassed' : PassedBefore pending boundary currentRunId (index + 1) := by
        intro i hi hi'
        have hne : i ≠ index := fun heq => hi' (heq ▸ hat)
        exact hpassed i (by omega) hi'
      split
      · rename_i hlast
        have hlast' : entry.deliveryMode.barrier = true ∨
            entry.deliveryMode.granularity = .one := by simpa using hlast
        refine ⟨index + 1, hmore.symm, .taken hopen hget helig hlast' ?_ ?_, hpassed'⟩
        · intro hbarrier hskip
          exact hbehind (by simp [hbarrier, hskipped.mpr hskip])
        · intro hone i hi hi'
          have hsome := eligibleIndexes_isEmpty.mpr ⟨i, hi, hi'⟩
          exact halone (by simp [hsome, hone])
      · rename_i hlast
        have hlast' : ¬ (entry.deliveryMode.barrier = true ∨
            entry.deliveryMode.granularity = .one) := by simpa using hlast
        rw [← hmore]
        apply ih (index + 1) skippedPrior hrest' hlt
        · intro i hi hi'
          by_cases heq : i = index
          · subst heq
            rw [barrierAt_iff hget, oneAt_iff hget]
            exact not_or.mp hlast'
          · exact hopen i (by omega) hi'
        · exact hpassed'
        · rw [hskipped]
          constructor
          · intro hskip
            obtain ⟨i, hi, hi'⟩ := hskip
            exact ⟨i, by omega, hi'⟩
          · intro hskip
            obtain ⟨i, hi, hi'⟩ := hskip
            have hne : i ≠ index := fun heq => hi' (heq ▸ hat)
            exact ⟨i, by omega, hi'⟩

/-- The selection takes the eligible entries up to where the loop ends. -/
theorem select_scan (pending : List PendingMessageRecord) (boundary : DeliveryBoundary)
    (currentRunId : Option String) :
    ∃ stop, selectPendingForFreezeForRun pending boundary currentRunId =
        eligibleIndexes pending boundary currentRunId stop ∧
      ScanEnd pending boundary currentRunId stop ∧
      PassedBefore pending boundary currentRunId stop := by
  have hnone : ∀ i : Nat, ¬ i < 0 := Nat.not_lt_zero
  apply selectPendingFrom_scan pending 0 false rfl (Nat.zero_le _)
  · exact fun i hi => absurd hi (hnone i)
  · exact fun i hi => absurd hi (hnone i)
  · simp [SkippedBefore, hnone]

/-! ## The selection follows the rules -/

section Taken

variable {i : Nat} (h : ScanEnd pending boundary currentRunId stop) (hi : i < stop)
  (helig : EligibleAt pending boundary currentRunId i)

include h hi helig

/-- A taken barrier is the last entry before the end, and nothing is passed over before it. -/
theorem ScanEnd.barrier (hbarrier : BarrierAt pending i) :
    i + 1 = stop ∧ ¬ SkippedBefore pending boundary currentRunId i := by
  cases h with
  | finished hopen => exact absurd hbarrier (hopen i hi helig).1
  | ineligible hopen _ _ _ => exact absurd hbarrier (hopen i hi helig).1
  | barrierBehind hopen _ _ _ _ => exact absurd hbarrier (hopen i hi helig).1
  | oneBehind hopen _ _ _ _ => exact absurd hbarrier (hopen i hi helig).1
  | @taken last entry hopen hget _ _ hskip _ =>
    by_cases heq : i = last
    · subst heq
      exact ⟨rfl, hskip ((barrierAt_iff hget).mp hbarrier)⟩
    · exact absurd hbarrier (hopen i (by omega) helig).1

/-- A taken entry of granularity one is the last entry before the end, and nothing is taken
    before it. -/
theorem ScanEnd.one (hone : OneAt pending i) :
    i + 1 = stop ∧ ∀ j, j < i → ¬ EligibleAt pending boundary currentRunId j := by
  cases h with
  | finished hopen => exact absurd hone (hopen i hi helig).2
  | ineligible hopen _ _ _ => exact absurd hone (hopen i hi helig).2
  | barrierBehind hopen _ _ _ _ => exact absurd hone (hopen i hi helig).2
  | oneBehind hopen _ _ _ _ => exact absurd hone (hopen i hi helig).2
  | @taken last entry hopen hget _ _ _ halone =>
    by_cases heq : i = last
    · subst heq
      exact ⟨rfl, halone ((oneAt_iff hget).mp hone)⟩
    · exact absurd hone (hopen i (by omega) helig).2

end Taken

/-- Up to its end the loop follows the rules. -/
theorem ScanEnd.rules (h : ScanEnd pending boundary currentRunId stop)
    (hpassed : PassedBefore pending boundary currentRunId stop) :
    FreezeRules pending boundary currentRunId
      (eligibleIndexes pending boundary currentRunId stop) where
  ascending := eligibleIndexes_pairwise stop
  eligible := by
    intro i hi
    exact (mem_eligibleIndexes.mp hi).2
  skipped := by
    intro i j hi hj hij
    have hj' := (mem_eligibleIndexes.mp hj).1
    have hlt : i < stop := by omega
    exact hpassed i hlt fun helig => hi (mem_eligibleIndexes.mpr ⟨hlt, helig⟩)
  barrier := by
    intro i hi hbarrier
    obtain ⟨hlt, helig⟩ := mem_eligibleIndexes.mp hi
    obtain ⟨hlast, hskip⟩ := h.barrier hlt helig hbarrier
    constructor
    · intro j hj
      have hj' := (mem_eligibleIndexes.mp hj).1
      omega
    · intro j hj
      apply mem_eligibleIndexes.mpr
      refine ⟨by omega, ?_⟩
      by_contra hne
      exact hskip ⟨j, hj, hne⟩
  one := by
    intro i hi hone
    obtain ⟨hlt, helig⟩ := mem_eligibleIndexes.mp hi
    obtain ⟨hlast, hnone⟩ := h.one hlt helig hone
    obtain ⟨entry, hget, hentry⟩ := helig
    have hnil : eligibleIndexes pending boundary currentRunId i = [] := by
      apply List.eq_nil_iff_forall_not_mem.mpr
      intro j hj
      obtain ⟨hj', helig'⟩ := mem_eligibleIndexes.mp hj
      exact hnone j hj' helig'
    rw [← hlast, eligibleIndexes_succ hget, hnil, hentry, if_pos rfl, List.nil_append]
  behind := by
    intro i hbarrier hi j hj
    have hj' := (mem_eligibleIndexes.mp hj).1
    by_contra hle
    have hlt : i < stop := by omega
    have hnot : ¬ EligibleAt pending boundary currentRunId i :=
      fun helig => hi (mem_eligibleIndexes.mpr ⟨hlt, helig⟩)
    obtain ⟨entry, hget, -, hno, -⟩ := hpassed i hlt hnot
    rw [barrierAt_iff hget, hno] at hbarrier
    cases hbarrier
  targeted := by
    intro i hi entry hget
    have helig := (mem_eligibleIndexes.mp hi).2
    exact targetAllows_of_eligible ((eligibleAt_iff hget).mp helig)

/-! ## What follows the rules -/

namespace FreezeRules

variable (h : FreezeRules pending boundary currentRunId selected)

include h

/-- Before a selected entry exactly the eligible ones are selected. -/
theorem mem_iff_of_lt {i j : Nat} (hj : j ∈ selected) (hij : i < j) :
    i ∈ selected ↔ EligibleAt pending boundary currentRunId i := by
  constructor
  · exact fun hi => h.eligible i hi
  · intro helig
    by_contra hi
    exact not_passedAt_of_eligibleAt helig (h.skipped i j hi hj hij)

/-- A list that follows the rules is made up of the eligible entries before a position. -/
theorem eq_eligibleIndexes :
    ∃ n, selected = eligibleIndexes pending boundary currentRunId n ∧
      ∀ i, n = i + 1 → i ∈ selected := by
  cases hlast : selected.getLast? with
  | none =>
    rw [List.getLast?_eq_none_iff.mp hlast]
    exact ⟨0, rfl, by omega⟩
  | some last =>
    have hmem : last ∈ selected := List.mem_of_getLast? hlast
    have hmax : ∀ j ∈ selected, j ≤ last := by
      obtain ⟨front, rfl⟩ := List.getLast?_eq_some_iff.mp hlast
      intro j hj
      cases List.mem_append.mp hj with
      | inl hfront =>
        have hlt := (List.pairwise_append.mp h.ascending).2.2 j hfront last (by simp)
        omega
      | inr hlast' => simp_all
    refine ⟨last + 1, ?_, ?_⟩
    · apply h.ascending.eq_of_mem_iff (eligibleIndexes_pairwise _)
      intro i
      rw [mem_eligibleIndexes]
      constructor
      · intro hi
        have hle := hmax i hi
        exact ⟨by omega, h.eligible i hi⟩
      · intro hi
        by_cases heq : i = last
        · exact heq ▸ hmem
        · exact (h.mem_iff_of_lt hmem (by omega)).mpr hi.2
    · intro i hi
      obtain rfl : last = i := by omega
      exact hmem

end FreezeRules

/-- What follows the rules is an initial part of the selection. -/
theorem FreezeRules.prefix_select (h : FreezeRules pending boundary currentRunId selected) :
    selected <+: selectPendingForFreezeForRun pending boundary currentRunId := by
  obtain ⟨stop, hselect, hend, -⟩ := select_scan pending boundary currentRunId
  obtain ⟨n, hn, hlast⟩ := h.eq_eligibleIndexes
  rw [hselect, hn]
  apply eligibleIndexes_prefix
  by_contra hlt
  -- the last selected entry lies at the end of the loop or behind it
  obtain ⟨last, rfl⟩ : ∃ last, n = last + 1 := ⟨n - 1, by omega⟩
  have hmem := hlast last rfl
  have hpast : stop ≤ last := by omega
  have hstop : EligibleAt pending boundary currentRunId stop → stop ∈ selected := by
    intro helig
    by_cases heq : stop = last
    · exact heq ▸ hmem
    · exact (h.mem_iff_of_lt hmem (by omega)).mpr helig
  cases hend with
  | finished _ =>
    obtain ⟨entry, hget, -⟩ := h.eligible last hmem
    have hlt' := (List.getElem?_eq_some_iff.mp hget).1
    omega
  | @ineligible _ entry _ hget hinelig hno =>
    have hnot : stop ∉ selected := by
      intro hin
      have helig := (eligibleAt_iff hget).mp (h.eligible stop hin)
      rw [hinelig] at helig
      cases helig
    have hne : stop ≠ last := fun heq => hnot (heq ▸ hmem)
    obtain ⟨entry', hget', -, hbarrier, hskip⟩ := h.skipped stop last hnot hmem (by omega)
    obtain rfl := Option.some.inj (hget.symm.trans hget')
    simp [hbarrier, hskip] at hno
  | barrierBehind _ hget helig hbarrier hskipped =>
    have hin := hstop ((eligibleAt_iff hget).mpr helig)
    obtain ⟨i, hi, hnot⟩ := hskipped
    exact hnot (h.eligible i ((h.barrier stop hin ((barrierAt_iff hget).mpr hbarrier)).2 i hi))
  | oneBehind _ hget helig hone hsome =>
    have hin := hstop ((eligibleAt_iff hget).mpr helig)
    obtain ⟨i, hi, helig'⟩ := hsome
    have hi' : i ∈ selected := (h.mem_iff_of_lt hin hi).mpr helig'
    rw [h.one stop hin ((oneAt_iff hget).mpr hone), List.mem_singleton] at hi'
    omega
  | @taken k entry _ hget helig hends _ _ =>
    have hin : k ∈ selected :=
      (h.mem_iff_of_lt hmem (by omega)).mpr ((eligibleAt_iff hget).mpr helig)
    cases hends with
    | inl hbarrier =>
      have hle := (h.barrier k hin ((barrierAt_iff hget).mpr hbarrier)).1 last hmem
      omega
    | inr hone =>
      rw [h.one k hin ((oneAt_iff hget).mpr hone), List.mem_singleton] at hmem
      omega

theorem ScanEnd.le_length (h : ScanEnd pending boundary currentRunId stop) :
    stop ≤ pending.length := by
  cases h with
  | finished _ => exact Nat.le_refl _
  | ineligible _ hget _ _ => exact Nat.le_of_lt (List.getElem?_eq_some_iff.mp hget).1
  | barrierBehind _ hget _ _ _ => exact Nat.le_of_lt (List.getElem?_eq_some_iff.mp hget).1
  | oneBehind _ hget _ _ _ => exact Nat.le_of_lt (List.getElem?_eq_some_iff.mp hget).1
  | taken _ hget _ _ _ _ => exact (List.getElem?_eq_some_iff.mp hget).1

/-- The selection follows the rules, and every list that follows them is an initial part of it.
    The loop looks at the entries up to some position, passes over those it does not select, and
    ends before the last entry only where the rules forbid to take the next one. -/
theorem select_greatest (pending : List PendingMessageRecord) (boundary : DeliveryBoundary)
    (currentRunId : Option String) :
    let selected := selectPendingForFreezeForRun pending boundary currentRunId
    FreezeRules pending boundary currentRunId selected ∧
    (∀ other, FreezeRules pending boundary currentRunId other → other <+: selected) ∧
    ∃ stop, stop ≤ pending.length ∧ (∀ i ∈ selected, i < stop) ∧
      (∀ i, i < stop → i ∉ selected → PassedAt pending boundary currentRunId i) ∧
      (stop < pending.length → ¬ FreezeRules pending boundary currentRunId (selected ++ [stop])) := by
  dsimp only
  obtain ⟨stop, hselect, hend, hpassed⟩ := select_scan pending boundary currentRunId
  refine ⟨?_, fun other hother => hother.prefix_select, stop, hend.le_length, ?_, ?_, ?_⟩
  · rw [hselect]
    exact hend.rules hpassed
  · rw [hselect]
    exact fun i hi => (mem_eligibleIndexes.mp hi).1
  · rw [hselect]
    intro i hi hnot
    exact hpassed i hi fun helig => hnot (mem_eligibleIndexes.mpr ⟨hi, helig⟩)
  · intro _ hmore
    have hle := hmore.prefix_select.length_le
    rw [List.length_append, List.length_singleton] at hle
    omega

end Remo
