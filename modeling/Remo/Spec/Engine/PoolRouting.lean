import Remo.Native.Engine.PoolRouter

/-!
# Where a pool routes

A home is an entry of the home role, and a healthy one where there is one. Rounds deal every
candidate its weight. A deterministic home moves only when its own entry fails.

## Key results

- `poolRouting`: the laws of home selection
- `selectFailover_spec`: a failover target is healthy and another member
-/

namespace Remo.PoolRouter

variable {S : Type*} [LinearOrder S]

/-! ## Candidates -/

/-- Some entry that may be a home is healthy. -/
def hasHealthyHome (r : PoolRouter) (healthy : HealthMask) : Bool :=
  (List.range r.members.length).any fun idx => r.eligible idx && isHealthy healthy idx

/-- The entry may be a home, and is healthy if any such entry is. -/
def isCandidate (r : PoolRouter) (healthy : HealthMask) (idx : Nat) : Bool :=
  r.eligible idx && (!r.hasHealthyHome healthy || isHealthy healthy idx)

/-- The weight an entry takes part in a round with. -/
def effectiveWeight (r : PoolRouter) (idx : Nat) : Nat :=
  ((r.members[idx]?).map fun m => max m.weight.toNat 1).getD 0

def candidateIndexes (r : PoolRouter) (healthy : HealthMask) : List Nat :=
  (List.range r.members.length).filter (r.isCandidate healthy)

/-- The total weight of the candidates. -/
def totalWeight (r : PoolRouter) (healthy : HealthMask) : Nat :=
  ((r.candidateIndexes healthy).map r.effectiveWeight).sum

/-- The laws of home selection. -/
structure Routes (r : PoolRouter) (score : String → String → UInt32 → S) : Prop where
  /-- A home has the home role. -/
  eligible : ∀ routingKey healthy sequence,
    r.eligible (r.selectHomeWithSequence score routingKey healthy sequence) = true
  /-- A home is healthy if any entry of the home role is. -/
  healthy : ∀ routingKey healthy sequence idx,
    r.eligible idx = true → isHealthy healthy idx = true →
      isHealthy healthy (r.selectHomeWithSequence score routingKey healthy sequence) = true
  /-- A round deals every candidate its weight. -/
  share : r.home = .roundRobin → ∀ routingKey healthy first,
    first + r.totalWeight healthy ≤ 0x10000000000000000 → ∀ idx,
      r.isCandidate healthy idx = true →
        ((Finset.Ico first (first + r.totalWeight healthy)).filter fun n =>
          r.selectHomeWithSequence score routingKey healthy (some (UInt64.ofNat n)) = idx).card =
            r.effectiveWeight idx
  /-- Another member's failure does not move the home. -/
  stable : r.home = .deterministic → ∀ routingKey healthy healthy' sequence idx,
    idx ≠ r.selectHomeWithSequence score routingKey healthy sequence →
      isHealthy healthy' idx = false →
        (∀ i, i ≠ idx → isHealthy healthy' i = isHealthy healthy i) →
          r.selectHomeWithSequence score routingKey healthy' sequence =
            r.selectHomeWithSequence score routingKey healthy sequence

variable {r : PoolRouter} {score : String → String → UInt32 → S}

theorem lt_of_eligible {idx : Nat} (h : r.eligible idx = true) : idx < r.members.length := by
  by_contra hge
  simp [eligible, List.getElem?_eq_none (not_lt.mp hge)] at h

theorem isCandidate_eligible {healthy : HealthMask} {idx : Nat}
    (h : r.isCandidate healthy idx = true) : r.eligible idx = true := by
  simp only [isCandidate, Bool.and_eq_true] at h
  exact h.1

theorem mem_candidateIndexes {healthy : HealthMask} {idx : Nat} :
    idx ∈ r.candidateIndexes healthy ↔ r.isCandidate healthy idx = true := by
  simp only [candidateIndexes, List.mem_filter, List.mem_range, and_iff_right_iff_imp]
  intro h
  exact lt_of_eligible (isCandidate_eligible h)

theorem hasHealthyHome_iff {healthy : HealthMask} :
    r.hasHealthyHome healthy = true ↔
      ∃ idx, r.eligible idx = true ∧ isHealthy healthy idx = true := by
  simp only [hasHealthyHome, List.any_eq_true, List.mem_range, Bool.and_eq_true]
  constructor
  · intro h
    obtain ⟨idx, -, h⟩ := h
    exact ⟨idx, h⟩
  · intro h
    obtain ⟨idx, h⟩ := h
    exact ⟨idx, lt_of_eligible h.1, h⟩

/-- A candidate is healthy if any entry of the home role is. -/
theorem isCandidate_healthy {healthy : HealthMask} {idx i : Nat}
    (h : r.isCandidate healthy idx = true) (he : r.eligible i = true)
    (hh : isHealthy healthy i = true) : isHealthy healthy idx = true := by
  have hsome : r.hasHealthyHome healthy = true := hasHealthyHome_iff.mpr ⟨i, he, hh⟩
  simp only [isCandidate, hsome, Bool.and_eq_true] at h
  simpa using h.2

/-- Where some entry has the home role, there is a candidate. -/
theorem exists_isCandidate (hmember : ∃ idx, r.eligible idx = true) (healthy : HealthMask) :
    ∃ idx, r.isCandidate healthy idx = true := by
  cases hsome : r.hasHealthyHome healthy with
  | true =>
    obtain ⟨idx, he, hh⟩ := hasHealthyHome_iff.mp hsome
    exact ⟨idx, by simp [isCandidate, he, hh]⟩
  | false =>
    obtain ⟨idx, he⟩ := hmember
    exact ⟨idx, by simp [isCandidate, he, hsome]⟩

/-! ## Scans -/

theorem mem_accepted {accept : Nat → Bool} {entry : RouterMember × Nat} :
    entry ∈ r.accepted accept ↔
      r.members[entry.2]? = some entry.1 ∧ accept entry.2 = true := by
  rw [accepted, List.mem_filter, List.mem_zipIdx_iff_getElem?]

theorem accepted_map_snd (accept : Nat → Bool) :
    (r.accepted accept).map Prod.snd = (List.range r.members.length).filter accept := by
  have hrange : r.members.zipIdx.map Prod.snd = List.range r.members.length := by
    rw [List.zipIdx_map_snd, List.range_eq_range']
  rw [← hrange, List.filter_map]
  rfl

/-- A scan of all entries of the home role finds one. -/
theorem accepted_ne_nil {accept : Nat → Bool} {idx : Nat} (hlt : idx < r.members.length)
    (h : accept idx = true) : r.accepted accept ≠ [] := by
  intro hnil
  have hmap := accepted_map_snd (r := r) accept
  rw [hnil] at hmap
  have hmem : idx ∈ (List.range r.members.length).filter accept :=
    List.mem_filter.mpr ⟨List.mem_range.mpr hlt, h⟩
  rw [← hmap] at hmem
  cases hmem

theorem accepted_eq_nil {accept : Nat → Bool} (h : ∀ idx, accept idx = false) :
    r.accepted accept = [] := by
  apply List.filter_eq_nil_iff.mpr
  intro entry _
  simp [h entry.2]

theorem accept_of_bestByScore {key : String} {accept : Nat → Bool} {idx : Nat}
    (h : r.bestByScore score key accept = some idx) :
    idx < r.members.length ∧ accept idx = true := by
  have hmem : ∃ entry ∈ r.accepted accept, entry.2 = idx := by
    unfold bestByScore at h
    cases hhome : r.home <;> simp only [hhome] at h <;>
      obtain ⟨entry, hfirst, hidx⟩ := Option.map_eq_some_iff.mp h <;>
      exact ⟨entry, mem_of_firstMax? hfirst, hidx⟩
  obtain ⟨entry, hentry, rfl⟩ := hmem
  obtain ⟨hget, haccept⟩ := mem_accepted.mp hentry
  exact ⟨(List.getElem?_eq_some_iff.mp hget).1, haccept⟩

theorem bestByScore_isSome (score : String → String → UInt32 → S) (key : String)
    {accept : Nat → Bool} {idx : Nat} (hlt : idx < r.members.length) (h : accept idx = true) :
    (r.bestByScore score key accept).isSome = true := by
  have hne := accepted_ne_nil hlt h
  unfold bestByScore
  cases r.home <;> simp only [Option.isSome_map] <;> exact firstMax?_isSome _ hne

theorem bestByScore_eq_none {key : String} {accept : Nat → Bool}
    (h : ∀ idx, accept idx = false) : r.bestByScore score key accept = none := by
  have hnil := accepted_eq_nil (r := r) h
  unfold bestByScore
  cases r.home <;> simp only [hnil] <;> rfl

theorem accepted_erase {accept accept' : Nat → Bool} {idx : Nat} (hidx : accept' idx = false)
    (hrest : ∀ i, i ≠ idx → accept' i = accept i) :
    r.accepted accept' = (r.accepted accept).filter fun entry => entry.2 != idx := by
  unfold accepted
  rw [List.filter_filter]
  apply List.filter_congr
  intro entry _
  by_cases heq : entry.2 = idx
  · simp [heq, hidx]
  · simp [heq, hrest entry.2 heq]

theorem firstMax?_erase {T : Type*} [LinearOrder T] {rank : RouterMember × Nat → T}
    {entries : List (RouterMember × Nat)} {home idx : Nat} (hne : idx ≠ home)
    (h : (firstMax? rank entries).map Prod.snd = some home) :
    (firstMax? rank (entries.filter fun entry => entry.2 != idx)).map Prod.snd = some home := by
  obtain ⟨entry, hentry, hsnd⟩ := Option.map_eq_some_iff.mp h
  have hkept : (entry.2 != idx) = true := by
    rw [hsnd]
    exact bne_iff_ne.mpr hne.symm
  rw [firstMax?_filter hentry hkept, Option.map_some, hsnd]

/-- The scan finds the same entry when another is not accepted any more. -/
theorem bestByScore_congr {key : String} {accept accept' : Nat → Bool} {home : Nat}
    (h : r.bestByScore score key accept = some home) {idx : Nat} (hne : idx ≠ home)
    (hidx : accept' idx = false) (hrest : ∀ i, i ≠ idx → accept' i = accept i) :
    r.bestByScore score key accept' = some home := by
  have herase := accepted_erase (r := r) hidx hrest
  unfold bestByScore at h ⊢
  cases hhome : r.home <;> simp only [hhome, herase] at h ⊢ <;> exact firstMax?_erase hne h

/-! ## Scored homes -/

theorem isCandidate_of_healthy {healthy : HealthMask} {idx : Nat}
    (h : (r.eligible idx && isHealthy healthy idx) = true) : r.isCandidate healthy idx = true := by
  rw [Bool.and_eq_true] at h
  simp [isCandidate, h.1, h.2]

/-- Both scans of a scored home. -/
theorem selectHome_scored (score : String → String → UInt32 → S) (hhome : r.home ≠ .roundRobin)
    (hmember : ∃ idx, r.eligible idx = true) (key : String) (healthy : HealthMask)
    (sequence : Option UInt64) :
    ∃ home, r.selectHomeWithSequence score key healthy sequence = home ∧
      ((r.bestByScore score key fun idx => r.eligible idx && isHealthy healthy idx) = some home ∨
        r.hasHealthyHome healthy = false ∧ r.bestByScore score key r.eligible = some home) := by
  unfold selectHomeWithSequence
  rw [if_neg hhome]
  cases hbest : r.bestByScore score key fun idx => r.eligible idx && isHealthy healthy idx with
  | some home => exact ⟨home, rfl, Or.inl rfl⟩
  | none =>
    obtain ⟨idx, he⟩ := hmember
    obtain ⟨home, hany⟩ := Option.isSome_iff_exists.mp
      (bestByScore_isSome score key (lt_of_eligible he) he)
    refine ⟨home, by simp [hany], Or.inr ⟨?_, hany⟩⟩
    cases hsome : r.hasHealthyHome healthy with
    | false => rfl
    | true =>
      obtain ⟨i, hi, hh⟩ := hasHealthyHome_iff.mp hsome
      have haccept : (r.eligible i && isHealthy healthy i) = true := by simp [hi, hh]
      have hfound : (r.bestByScore score key fun idx =>
          r.eligible idx && isHealthy healthy idx).isSome = true :=
        bestByScore_isSome score key (lt_of_eligible hi) haccept
      rw [hbest] at hfound
      cases hfound

/-- A scored home is a candidate. -/
theorem isCandidate_scored (hhome : r.home ≠ .roundRobin)
    (hmember : ∃ idx, r.eligible idx = true) (key : String) (healthy : HealthMask)
    (sequence : Option UInt64) :
    r.isCandidate healthy (r.selectHomeWithSequence score key healthy sequence) = true := by
  obtain ⟨home, heq, hscan⟩ :=
    selectHome_scored score hhome hmember key healthy sequence
  rw [heq]
  cases hscan with
  | inl hbest => exact isCandidate_of_healthy (accept_of_bestByScore hbest).2
  | inr hany =>
    obtain ⟨hnone, hbest⟩ := hany
    simp [isCandidate, hnone, (accept_of_bestByScore hbest).2]

/-- Another member's failure does not move a scored home. -/
theorem stable_scored (hhome : r.home ≠ .roundRobin) (hmember : ∃ idx, r.eligible idx = true)
    {key : String} {healthy healthy' : HealthMask} {sequence : Option UInt64} {idx : Nat}
    (hne : idx ≠ r.selectHomeWithSequence score key healthy sequence)
    (hidx : isHealthy healthy' idx = false)
    (hrest : ∀ i, i ≠ idx → isHealthy healthy' i = isHealthy healthy i) :
    r.selectHomeWithSequence score key healthy' sequence =
      r.selectHomeWithSequence score key healthy sequence := by
  obtain ⟨home, heq, hscan⟩ :=
    selectHome_scored score hhome hmember key healthy sequence
  rw [heq] at hne ⊢
  unfold selectHomeWithSequence
  rw [if_neg hhome]
  cases hscan with
  | inl hbest =>
    have hsame : (r.bestByScore score key fun i => r.eligible i && isHealthy healthy' i) =
        some home := by
      apply bestByScore_congr hbest hne
      · simp [hidx]
      · intro i hi
        rw [hrest i hi]
    rw [hsame]
    rfl
  | inr hany =>
    obtain ⟨hnone, hbest⟩ := hany
    -- no entry was healthy before, so none is now
    have hempty : (r.bestByScore score key fun i => r.eligible i && isHealthy healthy' i) =
        none := by
      apply bestByScore_eq_none
      intro i
      by_cases hi : i = idx
      · simp [hi, hidx]
      · rw [hrest i hi]
        by_contra htrue
        have hsome : r.hasHealthyHome healthy = true := by
          apply hasHealthyHome_iff.mpr
          exact ⟨i, by simpa using htrue⟩
        rw [hnone] at hsome
        cases hsome
    rw [hempty, hbest]
    rfl

/-! ## Rounds -/

theorem homeCandidates_eq (healthy : HealthMask) (requireHealthy : Bool) :
    r.homeCandidates healthy requireHealthy =
      ((List.range r.members.length).filter fun idx =>
        r.eligible idx && (!requireHealthy || isHealthy healthy idx)).map
          fun idx => (idx, r.effectiveWeight idx) := by
  rw [← accepted_map_snd, List.map_map]
  unfold homeCandidates
  apply List.map_congr_left
  intro entry hentry
  have hget := (mem_accepted.mp hentry).1
  simp [effectiveWeight, hget]

/-- The candidates with the weights they take part with. -/
def weightedCandidates (r : PoolRouter) (healthy : HealthMask) : List (Nat × Nat) :=
  (r.candidateIndexes healthy).map fun idx => (idx, r.effectiveWeight idx)

theorem totalSlots_weightedCandidates (healthy : HealthMask) :
    totalSlots (r.weightedCandidates healthy) = r.totalWeight healthy := by
  unfold totalSlots weightedCandidates totalWeight
  rw [List.map_map]
  rfl

theorem weightedCandidates_of_healthy {healthy : HealthMask}
    (h : r.hasHealthyHome healthy = true) :
    r.homeCandidates healthy true = r.weightedCandidates healthy := by
  rw [homeCandidates_eq]
  unfold weightedCandidates candidateIndexes
  congr 1
  apply List.filter_congr
  intro idx _
  simp [isCandidate, h]

theorem weightedCandidates_of_none {healthy : HealthMask}
    (h : r.hasHealthyHome healthy = false) :
    r.homeCandidates healthy true = [] ∧
      r.homeCandidates healthy false = r.weightedCandidates healthy := by
  constructor
  · rw [homeCandidates_eq, List.map_eq_nil_iff, List.filter_eq_nil_iff]
    intro idx hidx hhealthy
    have hsome : r.hasHealthyHome healthy = true :=
      hasHealthyHome_iff.mpr ⟨idx, by simpa using hhealthy⟩
    rw [h] at hsome
    cases hsome
  · rw [homeCandidates_eq]
    unfold weightedCandidates candidateIndexes
    congr 1
    apply List.filter_congr
    intro idx _
    simp [isCandidate, h]

theorem effectiveWeight_pos {idx : Nat} (h : r.eligible idx = true) :
    0 < r.effectiveWeight idx := by
  have hlt := lt_of_eligible h
  simp only [effectiveWeight, List.getElem?_eq_getElem hlt, Option.map_some, Option.getD_some]
  omega

theorem totalWeight_pos (hmember : ∃ idx, r.eligible idx = true) (healthy : HealthMask) :
    0 < r.totalWeight healthy := by
  obtain ⟨idx, hidx⟩ := exists_isCandidate hmember healthy
  have hle : r.effectiveWeight idx ≤ r.totalWeight healthy := by
    apply List.le_sum_of_mem
    exact List.mem_map_of_mem (mem_candidateIndexes.mpr hidx)
  have hpos := effectiveWeight_pos (isCandidate_eligible hidx)
  omega

/-- A round's home owns the sequence number's slot. -/
theorem roundRobinHome_eq (hmember : ∃ idx, r.eligible idx = true) (healthy : HealthMask)
    (sequence : UInt64) :
    ∃ home, r.roundRobinHome healthy sequence = some home ∧ r.isCandidate healthy home = true ∧
      slotOf (r.weightedCandidates healthy) (sequence.toNat % r.totalWeight healthy) =
        some home := by
  have hpos := totalWeight_pos hmember healthy
  have hslot : sequence.toNat % r.totalWeight healthy <
      totalSlots (r.weightedCandidates healthy) := by
    rw [totalSlots_weightedCandidates]
    exact Nat.mod_lt _ hpos
  obtain ⟨item, hitem, howner⟩ := slotOf_mem hslot
  have hcandidate : r.isCandidate healthy item.1 = true := by
    obtain ⟨idx, hidx, rfl⟩ := List.mem_map.mp hitem
    exact mem_candidateIndexes.mp hidx
  refine ⟨item.1, ?_, hcandidate, howner⟩
  have hchoose : ∀ requireHealthy,
      r.homeCandidates healthy requireHealthy = r.weightedCandidates healthy →
        r.roundRobinChoose healthy sequence requireHealthy = some item.1 := by
    intro requireHealthy heq
    unfold roundRobinChoose
    dsimp only
    rw [heq, totalSlots_weightedCandidates, if_neg (by omega), howner]
  unfold roundRobinHome
  cases hsome : r.hasHealthyHome healthy with
  | true =>
    rw [hchoose true (weightedCandidates_of_healthy hsome)]
    rfl
  | false =>
    obtain ⟨hnil, hall⟩ := weightedCandidates_of_none hsome
    have hnone : r.roundRobinChoose healthy sequence true = none := by
      unfold roundRobinChoose
      dsimp only
      rw [hnil]
      rfl
    rw [hnone, hchoose false hall]
    rfl

theorem selectHome_roundRobin (score : String → String → UInt32 → S) (hhome : r.home = .roundRobin)
    (hmember : ∃ idx, r.eligible idx = true) (key : String) (healthy : HealthMask)
    (sequence : Option UInt64) :
    r.isCandidate healthy (r.selectHomeWithSequence score key healthy sequence) = true ∧
      slotOf (r.weightedCandidates healthy)
          ((sequence.getD 0).toNat % r.totalWeight healthy) =
        some (r.selectHomeWithSequence score key healthy sequence) := by
  obtain ⟨home, heq, hcandidate, hslot⟩ := roundRobinHome_eq hmember healthy (sequence.getD 0)
  unfold selectHomeWithSequence
  rw [if_pos hhome, heq]
  exact ⟨hcandidate, hslot⟩

/-- Every home is a candidate. -/
theorem isCandidate_selectHome (hmember : ∃ idx, r.eligible idx = true) (key : String)
    (healthy : HealthMask) (sequence : Option UInt64) :
    r.isCandidate healthy (r.selectHomeWithSequence score key healthy sequence) = true := by
  by_cases hhome : r.home = .roundRobin
  · exact (selectHome_roundRobin score hhome hmember key healthy sequence).1
  · exact isCandidate_scored hhome hmember key healthy sequence

/-- A round deals every candidate its weight. -/
theorem share_roundRobin (hhome : r.home = .roundRobin) (hmember : ∃ idx, r.eligible idx = true)
    (key : String) (healthy : HealthMask) {first : Nat}
    (hfirst : first + r.totalWeight healthy ≤ 0x10000000000000000) {idx : Nat}
    (hidx : r.isCandidate healthy idx = true) :
    ((Finset.Ico first (first + r.totalWeight healthy)).filter fun n =>
      r.selectHomeWithSequence score key healthy (some (UInt64.ofNat n)) = idx).card =
        r.effectiveWeight idx := by
  have hnodup : ((r.weightedCandidates healthy).map Prod.fst).Nodup := by
    have hfst : (r.weightedCandidates healthy).map Prod.fst = r.candidateIndexes healthy := by
      unfold weightedCandidates
      rw [List.map_map]
      exact List.map_id _
    rw [hfst]
    exact List.nodup_range.filter _
  have hmem : (idx, r.effectiveWeight idx) ∈ r.weightedCandidates healthy :=
    List.mem_map_of_mem (f := fun i => (i, r.effectiveWeight i)) (mem_candidateIndexes.mpr hidx)
  rw [← card_dealt hnodup hmem first, totalSlots_weightedCandidates]
  congr 1
  apply Finset.filter_congr
  intro n hn
  have hlt : n < 0x10000000000000000 := by
    have := (Finset.mem_Ico.mp hn).2
    omega
  have hnat : (UInt64.ofNat n).toNat = n := UInt64.toNat_ofNat_of_lt' hlt
  have hslot := (selectHome_roundRobin score hhome hmember key healthy
    (some (UInt64.ofNat n))).2
  rw [Option.getD_some, hnat] at hslot
  rw [hslot, Option.some_inj]

/-! ## The laws -/

/-- Home selection over members with a home role among them. -/
theorem poolRouting (r : PoolRouter) (score : String → String → UInt32 → S)
    (hmember : ∃ idx, r.eligible idx = true) : r.Routes score where
  eligible key healthy sequence :=
    isCandidate_eligible (isCandidate_selectHome hmember key healthy sequence)
  healthy key healthy sequence _ he hh :=
    isCandidate_healthy (isCandidate_selectHome hmember key healthy sequence) he hh
  share hhome key healthy _ hfirst _ hidx := share_roundRobin hhome hmember key healthy hfirst hidx
  stable hhome _ _ _ _ _ hne hidx hrest := by
    have hscored : r.home ≠ .roundRobin := by
      rw [hhome]
      decide
    exact stable_scored hscored hmember hne hidx hrest

/-- Two members of the home role share the rounds. -/
theorem poolRouting_pair :
    (PoolRouter.mk [⟨"small", .member, 1⟩, ⟨"large", .member, 3⟩, ⟨"spare", .failoverOnly, 9⟩]
      .roundRobin).Routes fun _ _ weight => weight.toNat :=
  poolRouting _ _ ⟨0, by decide⟩

/-- A failover target is healthy and another member. -/
theorem selectFailover_spec {key : String} {currentIdx idx : Nat} {healthy : HealthMask}
    (h : r.selectFailover score key currentIdx healthy = some idx) :
    idx < r.members.length ∧ idx ≠ currentIdx ∧ isHealthy healthy idx = true := by
  obtain ⟨hlt, haccept⟩ := accept_of_bestByScore h
  rw [Bool.and_eq_true, bne_iff_ne] at haccept
  exact ⟨hlt, haccept⟩

end Remo.PoolRouter
