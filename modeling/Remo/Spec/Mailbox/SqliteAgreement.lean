import Remo.Spec.Mailbox.SqliteRefinement

/-!
# Runs on which the two stores agree

The in-memory store changes records in a loop where the SQLite store runs one
statement. The loops have a closed form: every visited record is rewritten, the
others stay. With it the remaining calls follow each other, and so do whole runs
all of whose calls are in `AgreesOn`.
-/

namespace Remo

namespace InMemoryMailboxStore

/-- A loop over stored dispatches all of whose passes return rewrites the visited
    dispatches and nothing else. -/
theorem forEach_withDispatch_closed {α : Type} (missing : String → Outcome α)
    {f : String → InMemoryMailboxStore → Method Fault RunDispatch α} {ids : List String}
    (hnd : ids.Nodup) {s : InMemoryMailboxStore} (g : RunDispatch → RunDispatch)
    (hf : ∀ id ∈ ids, ∃ d, s.dispatches.get? id = some d ∧
      ∀ s₁, s₁.state = s.state → ∃ a, f id s₁ d = (.ok a, g d)) :
    ∃ bs, Method.forEach (fun id => withDispatch id (missing id) (f id)) ids s =
      (.ok bs, { s with
        dispatches := s.dispatches.mapValues fun k d => if k ∈ ids then g d else d }) := by
  induction ids generalizing s with
  | nil =>
    refine ⟨[], ?_⟩
    have hsame : (s.dispatches.mapValues fun k d => if k ∈ ([] : List String) then g d else d) =
        s.dispatches := by
      simp only [List.not_mem_nil, if_false]
      ext1
      simp [AssocMap.mapValues]
    rw [hsame]
    rfl
  | cons id ids ih =>
    obtain ⟨hnot, hnd'⟩ := List.nodup_cons.mp hnd
    obtain ⟨d, hd, hpass⟩ := hf id List.mem_cons_self
    obtain ⟨a, ha⟩ := hpass s rfl
    -- the first pass leaves the dispatches of the later passes alone
    obtain ⟨bs, hrest⟩ := ih (s := { s with dispatches := s.dispatches.modify id fun _ => g d })
      hnd' fun id' hid' => by
        obtain ⟨d', hd', hpass'⟩ := hf id' (List.mem_cons_of_mem _ hid')
        have hne : id' ≠ id := fun heq => hnot (heq ▸ hid')
        exact ⟨d', by rw [AssocMap.get?_modify_of_ne _ _ hne, hd'], hpass'⟩
    have hclosed : (s.dispatches.modify id fun _ => g d).mapValues
        (fun k d => if k ∈ ids then g d else d) =
        s.dispatches.mapValues fun k d => if k ∈ id :: ids then g d else d := by
      rw [AssocMap.modify, AssocMap.mapValues_mapValues]
      refine AssocMap.mapValues_congr fun k e he => ?_
      by_cases hk : k = id
      · subst hk
        rw [hd] at he
        cases he
        simp [hnot]
      · simp [hk]
    refine ⟨a :: bs, ?_⟩
    rw [← hclosed, Method.forEach, Method.bind, withDispatch, hd]
    dsimp only
    rw [ha]
    simp only [Method.bind, hrest]

end InMemoryMailboxStore

namespace SqliteMailboxStore

open DispatchRow

variable {driver : SqliteDriver} {s : InMemoryMailboxStore} {q : SqliteMailboxStore}

/-! ## Enqueue -/

theorem Mirrors.hasDuplicate (h : Mirrors driver s q) (dispatch : RunDispatch) :
    q.hasDuplicate dispatch = s.hasDuplicate dispatch := by
  unfold SqliteMailboxStore.hasDuplicate InMemoryMailboxStore.hasDuplicate
  cases dispatch.dedupeKey with
  | none => rfl
  | some dk =>
    dsimp only
    rw [h.holds.any_values]
    simp only [ofDispatch, terminalStatuses_contains]

theorem Mirrors.enqueue (h : Mirrors driver s q) {dispatch : RunDispatch}
    (hok : AgreesOn s (.enqueue dispatch)) :
    Follows driver (InMemoryMailboxStore.enqueue dispatch s) (enqueue driver dispatch q) := by
  unfold InMemoryMailboxStore.enqueue
  rcases h.holds.enqueue_cases dispatch with ⟨e, hv, hcall⟩ | ⟨hv, hdup, e, hcall⟩ |
    ⟨hv, hdup, hthere, e, q', hcall, hq'⟩ | ⟨hv, hdup, hnone, q', hcall, hq'⟩
  all_goals rw [hcall, hv]
  · exact h.unchanged trivial
  · simp only [← h.hasDuplicate, hdup, if_true]
    exact h.unchanged trivial
  · obtain ⟨hnone, -⟩ := hok hv
    rw [hnone] at hthere
    cases hthere
  · obtain ⟨-, havailable, hcreated, hupdated⟩ := hok hv
    obtain ⟨hvalid, -⟩ := RunDispatch.validateForEnqueue_ok.mp hv
    have hprepared := RunDispatch.prepareForEnqueue_valid hvalid (s.currentEpoch dispatch.threadId)
    simp only [← h.hasDuplicate, hdup, Bool.false_eq_true, if_false,
      InMemoryMailboxStore.currentEpoch_orInsert, RunDispatch.validateForPersist_ok.mpr hprepared]
    refine ⟨trivial, ?_, fun k d hd => ?_⟩
    · have hepochs : InMemoryMailboxStore.currentEpoch
          ⟨s.dispatches.insert dispatch.dispatchId
            (dispatch.prepareForEnqueue (s.currentEpoch dispatch.threadId)),
            s.state.orInsert dispatch.threadId ⟨0⟩⟩ = s.currentEpoch :=
        funext fun t => InMemoryMailboxStore.currentEpoch_orInsert s dispatch.threadId t
      dsimp only
      rw [show (dispatch.prepareForEnqueue (s.currentEpoch dispatch.threadId)).dispatchId =
        dispatch.dispatchId from rfl, hepochs]
      exact hq'
    · dsimp only at hd
      rw [AssocMap.get?_insert] at hd
      split at hd
      · cases hd
        exact ⟨havailable, hcreated, hupdated, by rintro _ ⟨⟩⟩
      · exact h.bounded k d hd

/-! ## Claim -/

/-- The loop over stale dispatches does what the statement does. -/
theorem Mirrors.supersedeStaleQueued (h : Mirrors driver s q) (threadId : String) (now : UInt64) :
    ∃ bs, InMemoryMailboxStore.supersedeStaleQueued threadId now (s.currentEpoch threadId) s =
      (.ok bs, { s with
        dispatches := staleSuperseded s.dispatches threadId (s.currentEpoch threadId) now }) := by
  have hpass : ∀ id ∈ s.dispatches.keys, ∃ d, s.dispatches.get? id = some d ∧
      ∀ s₁ : InMemoryMailboxStore, s₁.state = s.state → ∃ a,
        InMemoryMailboxStore.supersedeIfStale threadId now (s.currentEpoch threadId) d =
          (.ok a, (InMemoryMailboxStore.supersedeIfStale threadId now (s.currentEpoch threadId)
            d).2) := by
    intro id hid
    obtain ⟨d, hd⟩ := AssocMap.mem_keys.mp hid
    refine ⟨d, hd, fun _ _ => ⟨(), Prod.ext ?_ rfl⟩⟩
    unfold InMemoryMailboxStore.supersedeIfStale
    split
    · rename_i hcond
      simp only [Bool.and_eq_true, beq_iff_eq] at hcond
      rw [InMemoryMailboxStore.markSupersededAtEpoch_ok (h.valid hd).identified
        (by rw [hcond.1.2]; rfl)]
    · rfl
  obtain ⟨bs, hloop⟩ := InMemoryMailboxStore.forEach_withDispatch_closed
    (fun _ => .ok ()) s.dispatches.nodup_keys _ hpass
  refine ⟨bs, hloop.trans ?_⟩
  congr 2
  refine AssocMap.mapValues_congr fun k d hd => ?_
  rw [if_pos (AssocMap.mem_keys.mpr ⟨d, hd⟩), InMemoryMailboxStore.supersedeIfStale_snd]
  have hcond : InMemoryMailboxStore.StaleQueued threadId (s.currentEpoch threadId) d ↔
      (d.threadId == threadId && statusToStr d.status == "Queued"
        && decide (d.dispatchEpoch.toInt64 < (s.currentEpoch threadId).toInt64)) = true := by
    have hqueued : statusToStr d.status = "Queued" ↔ d.status = .queued :=
      statusToStr_inj (b := .queued)
    simp only [InMemoryMailboxStore.StaleQueued, Bool.and_eq_true, beq_iff_eq, decide_eq_true_eq,
      hqueued, toInt64_lt (h.dispatchEpoch hd) (h.epochs threadId), and_assoc]
  by_cases hstale : InMemoryMailboxStore.StaleQueued threadId (s.currentEpoch threadId) d
  · obtain ⟨-, -, hprojection⟩ := (h.valid hd).queued hstale.2.1
    rw [if_pos hstale, if_pos (hcond.mp hstale), RunDispatch.sqlSuperseded_eq hprojection]
  · rw [if_neg hstale, if_neg (fun hc => hstale (hcond.mpr hc))]

/-- A limit that fits takes the same rows signed and unsigned. -/
theorem sqlLimit_of_fits {α : Type} {limit : UInt64} {l : List α} {n : Nat} (hl : l.length ≤ n)
    (h : limit.toNat < 0x8000000000000000 ∨ n ≤ limit.toNat) :
    sqlLimit limit.toInt64 l = l.take limit.toNat := by
  unfold sqlLimit
  split
  · rename_i hneg
    rcases h with hsmall | hlarge
    · exact absurd hneg (not_toInt64_neg hsmall)
    · exact (List.take_of_length_le (by omega)).symm
  · rfl

/-- Queue order does not depend on the sign of the columns for times that fit. -/
theorem queueRowLe_iff {a b : RunDispatch} (ha : a.Bounded) (hb : b.Bounded) :
    queueRowLe driver a b ↔ a.queueLe b := by
  simp only [queueRowLe, queueLe, ofDispatch, RunDispatch.queueLe, priority_toInt64_lt,
    priority_toInt64_inj, toInt64_le ha.createdAt hb.createdAt]

/-- Sorting by the columns is sorting by the records. -/
theorem insertionSort_queueRowLe {ds : List RunDispatch} (h : ∀ d ∈ ds, d.Bounded) :
    ds.insertionSort (queueRowLe driver) = ds.insertionSort RunDispatch.queueLe := by
  have hsort := List.map_insertionSort (queueRowLe driver) RunDispatch.queueLe id ds
    fun a ha b hb => queueRowLe_iff (h a ha) (h b hb)
  simpa using hsort

/-- The two stores hand out the same dispatches. -/
theorem eligibleIds_eq {m : AssocMap String RunDispatch} {epoch : String → UInt64}
    (hholds : Holds driver q m epoch) (hbounded : ∀ k d, m.get? k = some d → d.Bounded)
    {threadId : String} {now limit : UInt64} (hnow : now.toNat < 0x8000000000000000)
    (hlimit : limit.toNat < 0x8000000000000000 ∨ m.values.length ≤ limit.toNat)
    (state : AssocMap String InMemoryMailboxStore.MailboxState) :
    (eligibleRows driver m threadId now limit).map RunDispatch.dispatchId =
      InMemoryMailboxStore.eligibleIds ⟨m, state⟩ threadId now limit := by
  have hbound : ∀ d ∈ m.values, d.Bounded := fun d hd => hbounded _ d (hholds.get?_of_mem hd)
  have hselect : (m.values.filter fun d =>
      d.threadId == threadId && statusToStr d.status == "Queued"
        && decide (d.availableAt.toInt64 ≤ now.toInt64)) =
      m.values.filter (InMemoryMailboxStore.eligible threadId now) := by
    refine List.filter_congr fun d hd => ?_
    have hqueued : (statusToStr d.status == "Queued") = (d.status == .queued) := by
      rw [Bool.eq_iff_iff, beq_iff_eq, beq_iff_eq]
      exact statusToStr_inj (b := .queued)
    rw [InMemoryMailboxStore.eligible, hqueued]
    congr 1
    exact decide_eq_decide.mpr (toInt64_le (hbound d hd).availableAt hnow)
  have hlen : ((m.values.filter (InMemoryMailboxStore.eligible threadId now)).insertionSort
      RunDispatch.queueLe).length ≤ m.values.length := by
    rw [List.length_insertionSort]
    exact List.length_filter_le _ _
  -- the memory store sorts entries, the statement sorts rows
  have hentries : (m.entries.filter fun p => InMemoryMailboxStore.eligible threadId now p.2).map
      Prod.snd = m.values.filter (InMemoryMailboxStore.eligible threadId now) := by
    rw [AssocMap.values, List.filter_map]
    rfl
  have hsorted := List.map_insertionSort
    (fun a b : String × RunDispatch => a.2.queueLe b.2) RunDispatch.queueLe Prod.snd
    (m.entries.filter fun p => InMemoryMailboxStore.eligible threadId now p.2)
    fun _ _ _ _ => Iff.rfl
  rw [eligibleRows, hselect, insertionSort_queueRowLe fun d hd =>
    hbound d (List.mem_of_mem_filter hd), sqlLimit_of_fits hlen hlimit,
    InMemoryMailboxStore.eligibleIds, ← hentries, ← hsorted, ← List.map_take, List.map_map]
  refine List.map_congr_left fun p hp => ?_
  have hentry := (List.mem_insertionSort _).mp (List.mem_of_mem_take hp)
  exact hholds.keyed p.1 p.2 (AssocMap.get?_eq_some.mpr (List.mem_of_mem_filter hentry))

/-- Claiming one queued dispatch under a lease end that does not overflow. -/
theorem claimRecord_ok {d : RunDispatch} (hd : d.Valid) (hs : d.status = .queued)
    {consumerId : String} (hconsumer : Str.isBlank consumerId = false) {leaseMs now : UInt64}
    {leaseUntil : UInt64} (hadd : Outcome.addU64 now leaseMs = .ok leaseUntil) (token : Uuid) :
    InMemoryMailboxStore.claimRecord consumerId leaseMs now token d =
      (.ok (d.writeClaimed consumerId token.text leaseUntil now),
        d.writeClaimed consumerId token.text leaseUntil now) := by
  have hvalid := RunDispatch.writeClaimed_valid hd hconsumer token.notBlank leaseUntil now
  have hclaim : d.claim consumerId token.text leaseUntil now =
      (.ok (), d.writeClaimed consumerId token.text leaseUntil now) :=
    RunDispatch.transition_ok _ _ hs hvalid
  unfold InMemoryMailboxStore.claimRecord
  rw [hadd]
  dsimp only
  rw [hclaim]
  rfl

/-- Claiming selected dispatches, from a state that need not be in the relation yet. -/
theorem claimAll_follows {m : AssocMap String RunDispatch}
    {state : AssocMap String InMemoryMailboxStore.MailboxState}
    (hholds : Holds driver q m (InMemoryMailboxStore.currentEpoch ⟨m, state⟩))
    (hbounded : ∀ k d, m.get? k = some d → d.Bounded) {ids : List String} (hnd : ids.Nodup)
    (hids : ∀ id ∈ ids, ∃ d, m.get? id = some d ∧ d.status = .queued) {consumerId : String}
    (hconsumer : Str.isBlank consumerId = false) {leaseMs now : UInt64}
    (hnow : now.toNat < 0x8000000000000000) (hfits : LeaseFits now leaseMs) (token : Uuid) :
    Follows driver (InMemoryMailboxStore.claimAll consumerId leaseMs now token ids ⟨m, state⟩)
      (claimAll driver consumerId leaseMs now token ids q) := by
  rcases hholds.claimAll_cases hnd hids hconsumer leaseMs now token with
    ⟨hnil, hcall⟩ | ⟨hne, f, hadd, hcall⟩ | ⟨-, leaseUntil, ds, q', hadd, hcall, hq'⟩
  · rw [hcall, hnil]
    exact ⟨trivial, hholds, hbounded⟩
  · -- the first pass of the loop panics before it writes
    rw [hcall]
    cases ids with
    | nil => exact absurd rfl hne
    | cons id rest =>
      obtain ⟨d, hd, -⟩ := hids id List.mem_cons_self
      have hfirst : InMemoryMailboxStore.claimAll consumerId leaseMs now token (id :: rest)
          ⟨m, state⟩ = (.error f, ⟨m, state⟩) := by
        unfold InMemoryMailboxStore.claimAll
        rw [Method.forEach, Method.bind, InMemoryMailboxStore.withDispatch, hd]
        simp only [InMemoryMailboxStore.claimRecord, hadd, AssocMap.modify_get? hd]
      rw [hfirst]
      exact ⟨sameOutcome_error f, hholds, hbounded⟩
  · obtain ⟨bs, hloop⟩ := InMemoryMailboxStore.forEach_withDispatch_closed
      (fun id => Outcome.fail (.notFound id))
      (f := fun _ _ => InMemoryMailboxStore.claimRecord consumerId leaseMs now token)
      (s := ⟨m, state⟩) hnd (fun d => d.writeClaimed consumerId token.text leaseUntil now)
      fun id hid => by
        obtain ⟨d, hd, hs⟩ := hids id hid
        exact ⟨d, hd, fun _ _ => ⟨_, claimRecord_ok (hholds.valid _ _ hd) hs hconsumer hadd token⟩⟩
    rw [hcall, InMemoryMailboxStore.claimAll, hloop]
    refine follows_rewritten (s := ⟨m, state⟩) (sameOutcome_ok _ _) hq' fun k d hd => ?_
    have hbound := hbounded k d hd
    split
    · exact ⟨hbound.availableAt, hbound.createdAt, hnow, fun t ht => by
        cases ht
        exact hfits.bound hadd⟩
    · exact hbound

theorem Mirrors.claim (h : Mirrors driver s q) {threadId consumerId : String}
    {leaseMs now limit : UInt64} {token : Uuid}
    (hok : AgreesOn s (.claim threadId consumerId leaseMs now limit token)) :
    Follows driver (InMemoryMailboxStore.claim threadId consumerId leaseMs now limit token s)
      (claim driver threadId consumerId leaseMs now limit token q) := by
  obtain ⟨hnow, hconsumer, hfits, hlimit⟩ := hok
  obtain ⟨bs, hfirst⟩ := h.supersedeStaleQueued threadId now
  obtain ⟨q₁, m₁, hm₁, hholds, hcases⟩ :=
    h.holds.claim_cases threadId consumerId leaseMs now limit token
  rw [← hm₁] at hfirst
  have hbounded : ∀ k d, m₁.get? k = some d → d.Bounded := by
    intro k e he
    rw [hm₁, staleSuperseded, AssocMap.get?_mapValues, Option.map_eq_some_iff] at he
    obtain ⟨d, hd, rfl⟩ := he
    have hbound := h.bounded k d hd
    split
    · exact ⟨hbound.availableAt, hbound.createdAt, hnow, by rintro _ ⟨⟩⟩
    · exact hbound
  have hlen : m₁.values.length = s.dispatches.values.length := by
    rw [hm₁, staleSuperseded, AssocMap.values_mapValues, List.length_map]
  unfold InMemoryMailboxStore.claim
  rw [Method.bind, hfirst]
  dsimp only
  rcases hcases with ⟨hclaimed, hcall⟩ | ⟨hidle, hcall⟩
  · rw [hcall, InMemoryMailboxStore.hasClaimed, if_pos hclaimed]
    exact ⟨trivial, hholds, hbounded⟩
  · rw [hcall, InMemoryMailboxStore.hasClaimed, hidle, if_neg Bool.false_ne_true,
      ← eligibleIds_eq hholds hbounded hnow (by rw [hlen]; exact hlimit) s.state]
    refine claimAll_follows hholds hbounded (hholds.nodup_eligibleRows threadId now limit)
      (fun id hid => ?_) hconsumer hnow hfits token
    obtain ⟨d, hd, rfl⟩ := List.mem_map.mp hid
    obtain ⟨hmem, -, hqueued⟩ := mem_eligibleRows hd
    exact ⟨d, hholds.get?_of_mem hmem, hqueued⟩

theorem Mirrors.claimDispatch (h : Mirrors driver s q) {dispatchId consumerId : String}
    {leaseMs now : UInt64} {token : Uuid}
    (hok : AgreesOn s (.claimDispatch dispatchId consumerId leaseMs now token)) :
    Follows driver (InMemoryMailboxStore.claimDispatch dispatchId consumerId leaseMs now token s)
      (claimDispatch driver dispatchId consumerId leaseMs now token q) := by
  obtain ⟨hnow, hconsumer, hfits⟩ := hok
  have hother : ∀ t, q.hasOtherClaimed t dispatchId = s.hasOtherClaimed t dispatchId :=
    fun t => h.holds.hasOtherClaimed t dispatchId
  unfold InMemoryMailboxStore.claimDispatch InMemoryMailboxStore.withDispatch
  rcases h.holds.claimDispatch_cases dispatchId hconsumer leaseMs now token with
    ⟨hd, hcall⟩ | ⟨d, hd, ⟨hs, hcall⟩ | ⟨hs, hlt, q', hcall, hq'⟩ | ⟨hs, hge, hbusy, hcall⟩ |
      ⟨hs, hge, hfree, f, hadd, hcall⟩ | ⟨hs, hge, hfree, leaseUntil, q', hadd, hcall, hq'⟩⟩
  all_goals rw [hcall, hd]
  · exact h.unchanged trivial
  · simp only [ne_eq, hs, not_false_eq_true, if_true]
    rw [AssocMap.modify_get? hd]
    exact h.unchanged trivial
  · obtain ⟨-, -, hprojection⟩ := (h.valid hd).queued hs
    have hmark := InMemoryMailboxStore.markSupersededAtEpoch_ok (h.valid hd).identified
      (by rw [hs]; rfl) now (s.currentEpoch d.threadId)
      (some MailboxState.reasonQueuedSupersededByEpoch)
    have hbound := h.bounded _ _ hd
    simp only [ne_eq, hs, not_true_eq_false, if_false, hlt, if_true, Method.map, hmark]
    rw [RunDispatch.sqlSuperseded_eq hprojection] at hq'
    exact h.replaced (sameOutcome_ok _ _) hq'
      ⟨hbound.availableAt, hbound.createdAt, hnow, by rintro _ ⟨⟩⟩
  · rw [hother] at hbusy
    simp only [ne_eq, hs, not_true_eq_false, if_false, hge, hbusy, if_true]
    rw [AssocMap.modify_get? hd]
    exact h.unchanged trivial
  · rw [hother] at hfree
    simp only [ne_eq, hs, not_true_eq_false, if_false, hge, hfree, Bool.false_eq_true, Method.map,
      InMemoryMailboxStore.claimRecord, hadd]
    rw [AssocMap.modify_get? hd]
    exact h.unchanged (sameOutcome_error f)
  · rw [hother] at hfree
    have hclaim := claimRecord_ok (h.valid hd) hs hconsumer hadd token
    have hbound := h.bounded _ _ hd
    simp only [ne_eq, hs, not_true_eq_false, if_false, hge, hfree, Bool.false_eq_true, Method.map,
      hclaim]
    exact h.replaced (sameOutcome_ok _ _) hq' ⟨hbound.availableAt, hbound.createdAt, hnow,
      fun t ht => by cases ht; exact hfits.bound hadd⟩

/-! ## Interrupt -/

/-- The epochs after an interrupt. -/
theorem bumped_eq {m : AssocMap String RunDispatch} (threadId : String) :
    bumped (s.currentEpoch) threadId = InMemoryMailboxStore.currentEpoch
      ⟨m, (s.state.orInsert threadId ⟨0⟩).modify threadId fun _ =>
        ⟨s.currentEpoch threadId + 1⟩⟩ := by
  funext t
  have hinsert := InMemoryMailboxStore.currentEpoch_orInsert s threadId t
  unfold bumped
  by_cases ht : t = threadId
  · subst ht
    rw [if_pos rfl]
    simp [InMemoryMailboxStore.currentEpoch, AssocMap.get?_orInsert]
  · rw [if_neg ht, ← hinsert]
    simp only [InMemoryMailboxStore.currentEpoch, AssocMap.get?_modify_of_ne _ _ ht]

/-- One visit of the interrupt loop returns and does what the statement does. -/
theorem Mirrors.interruptVisit (h : Mirrors driver s q) {k : String} {d : RunDispatch}
    (hd : s.dispatches.get? k = some d) (threadId : String) (now : UInt64)
    (hroom : (s.currentEpoch threadId).toNat + 1 < 0x8000000000000000) :
    ∃ visit, InMemoryMailboxStore.interruptVisit threadId now (s.currentEpoch threadId) d =
      (.ok visit, if d.threadId == threadId && statusToStr d.status == "Queued"
          && decide (d.dispatchEpoch.toInt64 < (s.currentEpoch threadId + 1).toInt64) then
        d.sqlSuperseded d.dispatchEpoch MailboxState.reasonQueuedSupersededByInterrupt now
      else d) := by
  have hsucc : (s.currentEpoch threadId + 1).toNat = (s.currentEpoch threadId).toNat + 1 := by
    rw [UInt64.toNat_add, UInt64.toNat_one, Nat.mod_eq_of_lt (by omega)]
  have hqueued : statusToStr d.status = "Queued" ↔ d.status = .queued :=
    statusToStr_inj (b := .queued)
  have hle : d.dispatchEpoch.toInt64 < (s.currentEpoch threadId + 1).toInt64 ↔
      d.dispatchEpoch ≤ s.currentEpoch threadId := by
    rw [toInt64_lt (h.dispatchEpoch hd) (by omega), UInt64.lt_iff_toNat_lt,
      UInt64.le_iff_toNat_le, hsucc, Nat.lt_succ_iff]
  have hcond : (d.threadId == threadId && statusToStr d.status == "Queued"
      && decide (d.dispatchEpoch.toInt64 < (s.currentEpoch threadId + 1).toInt64)) = true ↔
      d.threadId = threadId ∧ d.status = .queued ∧
        d.dispatchEpoch ≤ s.currentEpoch threadId := by
    simp only [Bool.and_eq_true, beq_iff_eq, decide_eq_true_eq, hqueued, hle, and_assoc]
  have hmark : d.status = .queued → MailboxState.markSuperseded now
      (some MailboxState.reasonQueuedSupersededByInterrupt) d =
      (.ok (), d.writeSuperseded now (some MailboxState.reasonQueuedSupersededByInterrupt)) :=
    fun hs => InMemoryMailboxStore.expecting_transition_ok _ _ hs
      (RunDispatch.writeSuperseded_valid (h.valid hd).identified _ _)
  have hreturns : ∃ visit, (InMemoryMailboxStore.interruptVisit threadId now
      (s.currentEpoch threadId) d).1 = .ok visit := by
    unfold InMemoryMailboxStore.interruptVisit
    split
    · exact ⟨_, rfl⟩
    · split
      · rename_i hvisit
        rw [Method.bind, hmark hvisit.1]
        exact ⟨_, rfl⟩
      · split
        · exact ⟨_, rfl⟩
        · exact ⟨_, rfl⟩
  obtain ⟨visit, hvisit⟩ := hreturns
  refine ⟨visit, Prod.ext hvisit ?_⟩
  rw [InMemoryMailboxStore.interruptVisit_snd]
  by_cases hc : d.threadId = threadId ∧ d.status = .queued ∧
      d.dispatchEpoch ≤ s.currentEpoch threadId
  · obtain ⟨-, -, hprojection⟩ := (h.valid hd).queued hc.2.1
    rw [if_pos hc]
    dsimp only
    rw [if_pos (hcond.mpr hc)]
    exact (RunDispatch.sqlSuperseded_eq hprojection _ _ _).symm
  · rw [if_neg hc]
    dsimp only
    rw [if_neg fun hc' => hc (hcond.mp hc')]

theorem Mirrors.interruptDetailed (h : Mirrors driver s q) {threadId : String} {now : UInt64}
    (hnow : now.toNat < 0x8000000000000000) (hroom : (s.currentEpoch threadId).toNat + 1 < 0x8000000000000000) :
    Follows driver (InMemoryMailboxStore.interruptDetailed threadId now s)
      (interruptDetailed driver threadId now q) := by
  have hne : s.currentEpoch threadId ≠ 0x7FFFFFFFFFFFFFFF := by
    intro heq
    rw [heq] at hroom
    exact absurd hroom (by decide)
  obtain ⟨details, q', hcall, hq'⟩ := h.holds.interruptDetailed hne now
  have hadd : Outcome.addU64 (s.currentEpoch threadId) 1 =
      .ok (s.currentEpoch threadId + 1) := by
    unfold Outcome.addU64
    rw [if_pos (by rw [UInt64.toNat_one]; omega)]
  obtain ⟨visits, hloop⟩ := InMemoryMailboxStore.forEach_withDispatch_closed
    (fun _ => .ok InMemoryMailboxStore.InterruptVisit.skipped)
    (f := fun _ _ => InMemoryMailboxStore.interruptVisit threadId now (s.currentEpoch threadId))
    (s := { s with state := (s.state.orInsert threadId ⟨0⟩).modify threadId fun _ =>
      ⟨s.currentEpoch threadId + 1⟩ })
    s.dispatches.nodup_keys
    (fun d => if d.threadId == threadId && statusToStr d.status == "Queued"
        && decide (d.dispatchEpoch.toInt64 < (s.currentEpoch threadId + 1).toInt64) then
      d.sqlSuperseded d.dispatchEpoch MailboxState.reasonQueuedSupersededByInterrupt now else d)
    fun id hid => by
      obtain ⟨d, hd⟩ := AssocMap.mem_keys.mp hid
      exact ⟨d, hd, fun _ _ => h.interruptVisit hd threadId now hroom⟩
  have hall : (s.dispatches.mapValues fun k d => if k ∈ s.dispatches.keys then
      (if d.threadId == threadId && statusToStr d.status == "Queued"
        && decide (d.dispatchEpoch.toInt64 < (s.currentEpoch threadId + 1).toInt64) then
      d.sqlSuperseded d.dispatchEpoch MailboxState.reasonQueuedSupersededByInterrupt now else d)
      else d) = interrupted s.dispatches threadId (s.currentEpoch threadId + 1) now :=
    AssocMap.mapValues_congr fun k d hd => if_pos (AssocMap.mem_keys.mpr ⟨d, hd⟩)
  rw [hall] at hloop
  unfold InMemoryMailboxStore.interruptDetailed
  rw [hcall]
  simp only [InMemoryMailboxStore.currentEpoch_orInsert, hadd, Method.map,
    InMemoryMailboxStore.interruptVisits, hloop]
  refine ⟨trivial, ?_, fun k e he => ?_⟩
  · dsimp only
    rw [← bumped_eq]
    exact hq'
  · dsimp only at he
    rw [interrupted, AssocMap.get?_mapValues, Option.map_eq_some_iff] at he
    obtain ⟨d, hd, rfl⟩ := he
    have hbound := h.bounded k d hd
    split
    · exact ⟨hbound.availableAt, hbound.createdAt, hnow, by rintro _ ⟨⟩⟩
    · exact hbound

/-! ## Lease sweeps -/

/-- The two stores take back the same dispatches. -/
theorem Mirrors.expiredRows (h : Mirrors driver s q) {now limit : UInt64}
    (hnow : now.toNat < 0x8000000000000000) (hlimit : LimitFits s limit) :
    expiredRows s.dispatches now limit = (s.expired now).take limit.toNat := by
  have hselect : (s.dispatches.values.filter fun d => statusToStr d.status == "Claimed"
      && (d.leaseUntil.map UInt64.toInt64).any fun leaseUntil =>
        decide (leaseUntil < now.toInt64)) = s.expired now := by
    refine List.filter_congr fun d hd => ?_
    have hclaimed : (statusToStr d.status == "Claimed") = (d.status == .claimed) := by
      rw [Bool.eq_iff_iff, beq_iff_eq, beq_iff_eq]
      exact statusToStr_inj (b := .claimed)
    rw [InMemoryMailboxStore.leaseExpired, hclaimed]
    congr 1
    cases hlease : d.leaseUntil with
    | none => rfl
    | some leaseUntil =>
      have hbound := (h.bounded _ _ (h.holds.get?_of_mem hd)).leaseUntil _ hlease
      exact decide_eq_decide.mpr (toInt64_lt hbound hnow)
  rw [SqliteMailboxStore.expiredRows, hselect]
  exact sqlLimit_of_fits (List.length_filter_le _ _) hlimit

/-- Where sweeps agree, the loop writes what the statements write. -/
theorem ReclaimsAlike.reclaimRecord {now : UInt64} {d : RunDispatch} (h : ReclaimsAlike s now d)
    (hd : d.Valid) (hs : d.status = .claimed) :
    ∃ taken, InMemoryMailboxStore.reclaimRecord now (s.currentEpoch d.threadId) d =
        (.ok taken, reclaimWrite now (s.currentEpoch d.threadId) d) ∧
      ¬CannotCount (s.currentEpoch d.threadId) d ∧
      (reclaimWrite now (s.currentEpoch d.threadId) d).Valid := by
  unfold ReclaimsAlike at h
  unfold InMemoryMailboxStore.reclaimRecord reclaimWrite CannotCount
  by_cases hstale : d.dispatchEpoch < s.currentEpoch d.threadId
  · have hbehind : Behind s d := hstale
    rw [if_pos hbehind] at h
    have hmark := InMemoryMailboxStore.markSupersededAtEpoch_ok hd.identified
      (by rw [hs]; rfl) now (s.currentEpoch d.threadId)
      (some MailboxState.reasonClaimedLeaseExpiredAfterInterrupt)
    rw [if_pos hstale, if_pos hstale, Method.map, hmark, RunDispatch.sqlSuperseded_eq h]
    exact ⟨_, rfl, fun hc => hc.1 hstale, RunDispatch.writeSupersededAtEpoch_valid hd.identified _ _ _⟩
  · have hbehind : ¬Behind s d := hstale
    rw [if_neg hbehind] at h
    obtain ⟨hleft, havailable, hrest⟩ := h
    obtain ⟨hsucc, hcan⟩ := RunDispatch.saturatingSucc_of_lt hleft
    have hvalid := (RunDispatch.writeExpiredLease_valid_iff hd.identified now
      MailboxState.reasonLeaseExpiredMaxAttempts).mpr (.inl hleft)
    have hmark : MailboxState.markExpiredLease now d =
        (.ok (), d.writeExpiredLease now MailboxState.reasonLeaseExpiredMaxAttempts) :=
      InMemoryMailboxStore.expecting_transition_ok _ _ hs hvalid
    have hwrite : d.writeExpiredLease now MailboxState.reasonLeaseExpiredMaxAttempts =
        if d.maxAttempts ≤ d.attemptCount + 1 then d.sqlReclaimDeadLetter (d.attemptCount + 1) now
        else d.sqlReclaimRequeue (d.attemptCount + 1) now := by
      rw [RunDispatch.writeExpiredLease_eq, hsucc]
      split
      · rename_i hused
        have hlast : ¬d.attemptCount.toNat + 1 < d.maxAttempts.toNat := by
          rw [UInt32.le_iff_toNat_le, UInt32.toNat_add, UInt32.toNat_one] at hused
          have := Nat.mod_le (d.attemptCount.toNat + 1) (2 ^ 32)
          omega
        rw [if_neg hlast] at hrest
        rw [RunDispatch.writeLeaseExhausted, hsucc]
        simp only [RunDispatch.sqlReclaimDeadLetter, RunDispatch.clearClaimFields,
          RunDispatch.clearRuntimeProjection, havailable, hrest]
      · rename_i hmore
        rw [if_pos (RunDispatch.not_maxAttempts_le_succ hcan hmore)] at hrest
        rw [RunDispatch.writeLeaseRequeued, hsucc]
        simp only [RunDispatch.sqlReclaimRequeue, RunDispatch.clearClaimFields,
          RunDispatch.clearRuntimeProjection, havailable, hrest]
    rw [hwrite] at hmark hvalid
    rw [if_neg hstale, if_neg hstale, Method.bind, hmark]
    exact ⟨_, rfl, fun hc => hcan hc.2, hvalid⟩

theorem reclaimWrite_bounded {now : UInt64} {d : RunDispatch} (h : d.Bounded)
    (hnow : now.toNat < 0x8000000000000000) (epoch : UInt64) : (reclaimWrite now epoch d).Bounded := by
  unfold reclaimWrite
  split
  · exact ⟨h.availableAt, h.createdAt, hnow, by rintro _ ⟨⟩⟩
  · split
    · exact ⟨h.availableAt, h.createdAt, hnow, by rintro _ ⟨⟩⟩
    · exact ⟨h.availableAt, h.createdAt, hnow, by rintro _ ⟨⟩⟩

theorem Mirrors.reclaimExpiredLeases (h : Mirrors driver s q) {now limit : UInt64}
    (hok : AgreesOn s (.reclaimExpiredLeases now limit)) :
    Follows driver (InMemoryMailboxStore.reclaimExpiredLeases now limit s)
      (reclaimExpiredLeases driver now limit q) := by
  obtain ⟨hnow, hlimit, halike⟩ := hok
  have hrows := h.expiredRows hnow hlimit
  have hrecord : ∀ d ∈ SqliteMailboxStore.expiredRows s.dispatches now limit, ∃ taken,
      InMemoryMailboxStore.reclaimRecord now (s.currentEpoch d.threadId) d =
        (.ok taken, reclaimWrite now (s.currentEpoch d.threadId) d) ∧
      ¬CannotCount (s.currentEpoch d.threadId) d ∧
      (reclaimWrite now (s.currentEpoch d.threadId) d).Valid := by
    intro d hd
    obtain ⟨hmem, hs⟩ := mem_expiredRows hd
    rw [hrows] at hd
    exact (halike d hd).reclaimRecord (h.valid (h.holds.get?_of_mem hmem)) hs
  have hids : s.expiredIds now limit =
      (SqliteMailboxStore.expiredRows s.dispatches now limit).map RunDispatch.dispatchId := by
    rw [hrows]
    rfl
  obtain ⟨taken, hloop⟩ := InMemoryMailboxStore.forEach_withDispatch_closed
    (fun id => Outcome.fail (.notFound id))
    (f := fun _ s dispatch =>
      InMemoryMailboxStore.reclaimRecord now (s.currentEpoch dispatch.threadId) dispatch)
    (h.holds.nodup_expiredRows now limit)
    (fun d => reclaimWrite now (s.currentEpoch d.threadId) d) fun id hid => by
      obtain ⟨d, hd, rfl⟩ := List.mem_map.mp hid
      refine ⟨d, h.holds.get?_of_mem (mem_expiredRows hd).1, fun s₁ hs₁ => ?_⟩
      obtain ⟨taken, hcall, -⟩ := hrecord d hd
      rw [InMemoryMailboxStore.currentEpoch_congr hs₁]
      exact ⟨taken, hcall⟩
  unfold InMemoryMailboxStore.reclaimExpiredLeases
  rw [Method.map, hids, hloop]
  rcases h.holds.reclaimExpiredLeases_cases now limit fun d hd _ => (hrecord d hd).choose_spec.2.2
    with ⟨⟨d, hd, hover⟩, -⟩ | ⟨-, ds, q', hcall, hq'⟩
  · exact absurd hover (hrecord d hd).choose_spec.2.1
  · rw [hcall]
    refine follows_rewritten (sameOutcome_ok _ _) hq' fun k d hd => ?_
    split
    · exact reclaimWrite_bounded (h.bounded k d hd) hnow _
    · exact h.bounded k d hd

/-! ## Purge -/

/-- A purge that leaves no thread with an epoch behind keeps every epoch. -/
theorem PurgesAlike.currentEpoch {olderThan : UInt64} (h : PurgesAlike s olderThan) :
    (InMemoryMailboxStore.purgeTerminal olderThan s).2.currentEpoch = s.currentEpoch := by
  funext t
  unfold InMemoryMailboxStore.currentEpoch
  simp only [InMemoryMailboxStore.purgeTerminal]
  rw [AssocMap.get?_retain]
  cases hstate : s.state.get? t with
  | none => rfl
  | some entry =>
    rcases h (t, entry) (AssocMap.get?_eq_some.mp hstate) with hzero | hlive
    · simp only [Option.filter]
      split
      · rfl
      · exact hzero.symm
    · simp only [InMemoryMailboxStore.purgeTerminal] at hlive
      simp only [Option.filter, hlive, if_true]

theorem Mirrors.purgeTerminal (h : Mirrors driver s q) {olderThan : UInt64}
    (hok : AgreesOn s (.purgeTerminal olderThan)) :
    Follows driver (InMemoryMailboxStore.purgeTerminal olderThan s)
      (SqliteMailboxStore.purgeTerminal olderThan q) := by
  obtain ⟨htime, hpurges⟩ := hok
  obtain ⟨n, q', hcall, hq'⟩ := h.holds.purgeTerminal olderThan
  have hkept : (s.dispatches.retain fun _ d =>
      !(d.status.isTerminal && decide (d.updatedAt.toInt64 < olderThan.toInt64))) =
      s.dispatches.retain fun _ d => !(d.status.isTerminal && decide (d.updatedAt < olderThan)) := by
    ext1
    refine List.filter_congr fun e he => ?_
    have hbound := (h.bounded _ _ (AssocMap.get?_eq_some.mpr he)).updatedAt
    dsimp only
    rw [decide_eq_decide.mpr (toInt64_lt hbound htime)]
  rw [hcall]
  refine ⟨trivial, ?_, fun k d hd => ?_⟩
  · rw [hpurges.currentEpoch]
    rw [hkept] at hq'
    exact hq'
  · simp only [InMemoryMailboxStore.purgeTerminal, AssocMap.get?_retain,
      Option.filter_eq_some_iff] at hd
    exact h.bounded k d hd.1

/-! ## Whole calls and runs -/

/-- The replies end alike, and those that show dispatch records or an epoch are the
    same. -/
def SameReply (op : MailboxOp) (x y : Outcome MailboxReply) : Prop :=
  SameOutcome x y ∧ match op with
    | .loadDispatch _ | .listDispatches _ _ _ _ | .currentDispatchEpoch _ => x = y
    | _ => True

/-- A listing selects the same dispatches in the same order. -/
theorem Mirrors.listedRows (h : Mirrors driver s q) (threadId : String)
    (statusFilter : Option (List RunDispatchStatus)) :
    listedRows driver s.dispatches threadId statusFilter = s.queueOrder threadId statusFilter := by
  unfold SqliteMailboxStore.listedRows InMemoryMailboxStore.queueOrder
  exact insertionSort_queueRowLe fun d hd =>
    h.bounded _ _ (h.holds.get?_of_mem (List.mem_of_mem_filter hd))

/-- A call on which the stores agree leaves tables that show the in-memory result. -/
theorem Mirrors.call_follows (h : Mirrors driver s q) {op : MailboxOp} (hok : AgreesOn s op) :
    Follows driver (InMemoryMailboxStore.call op s) (call driver op q) := by
  cases op with
  | enqueue => exact (h.enqueue hok).map _ _
  | claim => exact (h.claim hok).map _ _
  | claimDispatch => exact (h.claimDispatch hok).map _ _
  | ack => exact (h.ack hok).map _ _
  | recordDispatchStart => exact (h.recordDispatchStart hok).map _ _
  | recordRunResult => exact (h.recordRunResult hok).map _ _
  | nack => exact (h.nack hok).map _ _
  | deadLetter => exact (h.deadLetter hok).map _ _
  | cancel => exact (h.cancel hok).map _ _
  | extendLease => exact (h.extendLease hok).map _ _
  | interrupt => exact ((h.interruptDetailed hok.1 hok.2).map _ _).map _ _
  | interruptDetailed => exact (h.interruptDetailed hok.1 hok.2).map _ _
  | supersedeClaimed => exact (h.supersedeClaimed hok).map _ _
  | reclaimExpiredLeases => exact (h.reclaimExpiredLeases hok).map _ _
  | purgeTerminal => exact (h.purgeTerminal hok).map _ _
  | currentDispatchEpoch threadId =>
    simp only [InMemoryMailboxStore.call, call, h.holds.epochs]
    exact h.unchanged trivial
  | loadDispatch dispatchId =>
    simp only [InMemoryMailboxStore.call, call, h.holds.loadRow]
    exact h.unchanged trivial
  | listDispatches threadId statusFilter limit offset =>
    simp only [InMemoryMailboxStore.call, call, h.holds.listDispatches threadId statusFilter
      hok.1 hok.2]
    exact h.unchanged trivial
  | countDispatchesByStatus | queuedThreadIds => exact h.unchanged trivial
  | listTerminalDispatches limit offset =>
    obtain ⟨ds, hds⟩ := h.holds.listTerminalDispatches limit offset
    simp only [InMemoryMailboxStore.call, call, hds]
    exact h.unchanged trivial

/-- A call on which the stores agree gets the same reply. -/
theorem Mirrors.sameReply (h : Mirrors driver s q) {op : MailboxOp} (hok : AgreesOn s op) :
    SameReply op (InMemoryMailboxStore.call op s).1 (call driver op q).1 := by
  refine ⟨(h.call_follows hok).outcome, ?_⟩
  cases op with
  | currentDispatchEpoch threadId =>
    simp only [InMemoryMailboxStore.call, call, h.holds.epochs]
    rfl
  | loadDispatch dispatchId =>
    simp only [InMemoryMailboxStore.call, call, h.holds.loadRow]
    rfl
  | listDispatches threadId statusFilter limit offset =>
    simp only [InMemoryMailboxStore.call, call, h.holds.listDispatches threadId statusFilter
      hok.1 hok.2, h.listedRows]
    rfl
  | _ => trivial

/-- A call on which the stores agree keeps the epochs within the columns. -/
theorem Mirrors.call_epochs (h : Mirrors driver s q) {op : MailboxOp} (hok : AgreesOn s op)
    (t : String) : ((InMemoryMailboxStore.call op s).2.currentEpoch t).toNat < 0x8000000000000000 := by
  have hbump : ∀ threadId now, (s.currentEpoch threadId).toNat + 1 < 0x8000000000000000 →
      ((InMemoryMailboxStore.interruptDetailed threadId now s).2.currentEpoch t).toNat < 0x8000000000000000 := by
    intro threadId now hroom
    rw [InMemoryMailboxStore.interruptDetailed_currentEpoch]
    cases hadd : Outcome.addU64 (s.currentEpoch threadId) 1 with
    | error f => exact h.epochs t
    | ok newDispatchEpoch =>
      dsimp only
      split
      · rw [Outcome.addU64_eq_ok hadd, UInt64.toNat_add, UInt64.toNat_one,
          Nat.mod_eq_of_lt (by omega)]
        exact hroom
      · exact h.epochs t
  by_cases hinterrupt : op.interrupted = some t
  · cases op <;> simp only [MailboxOp.interrupted, reduceCtorEq] at hinterrupt
    all_goals exact hbump _ _ hok.2
  · by_cases hpurge : ∃ olderThan, op = .purgeTerminal olderThan
    · obtain ⟨olderThan, rfl⟩ := hpurge
      simp only [InMemoryMailboxStore.call, Method.map_snd, hok.2.currentEpoch]
      exact h.epochs t
    · rw [InMemoryMailboxStore.call_currentEpoch_of_ne s hinterrupt fun o ho => hpurge ⟨o, ho⟩]
      exact h.epochs t

/-- Any iteration order keeps the relation. -/
theorem Mirrors.reorder (h : Mirrors driver s q) (order : String → Nat) :
    Mirrors driver (s.reorder order) (q.reorder order) :=
  ⟨h.holds.reorder order, InMemoryMailboxStore.reorder_coherent order h.coherent,
    fun k d hd => h.bounded k d (by simpa [InMemoryMailboxStore.reorder] using hd), h.epochs⟩

theorem mirrors_new : Mirrors driver InMemoryMailboxStore.new new :=
  ⟨holds_new, InMemoryMailboxStore.coherent_new, fun _ _ h => (nomatch h),
    fun _ => (by decide : (0 : UInt64).toNat < 0x8000000000000000)⟩

/-- The step does the same on both stores, under the iteration order of the step. -/
def AgreesOnStep (s : InMemoryMailboxStore) (e : MailboxEvent) : Prop :=
  AgreesOn (s.reorder e.order) e.op

instance (s : InMemoryMailboxStore) (e : MailboxEvent) : Decidable (AgreesOnStep s e) :=
  inferInstanceAs (Decidable (AgreesOn _ _))

theorem Mirrors.step (h : Mirrors driver s q) {e : MailboxEvent} (hok : AgreesOnStep s e) :
    SameReply e.op (InMemoryMailboxStore.machine.step s e).1 ((machine driver).step q e).1 ∧
      Mirrors driver (InMemoryMailboxStore.machine.step s e).2 ((machine driver).step q e).2 := by
  have hordered := h.reorder e.order
  have hcall := hordered.call_follows hok
  exact ⟨hordered.sameReply hok, hcall.holds, InMemoryMailboxStore.step_coherent s e h.coherent,
    hcall.bounded, hordered.call_epochs hok⟩

/-- Running calls on which the stores agree leaves them related. -/
theorem run_mirrors {es : List MailboxEvent}
    (hok : InMemoryMailboxStore.machine.Along AgreesOnStep InMemoryMailboxStore.new es) :
    Mirrors driver (InMemoryMailboxStore.machine.run InMemoryMailboxStore.new es)
      ((machine driver).run new es) :=
  (Machine.replies_related InMemoryMailboxStore.machine (machine driver) (Mirrors driver)
    (fun _ _ => True) AgreesOnStep (fun _ _ _ h he => ⟨trivial, (h.step he).2⟩) mirrors_new es
    hok).2

/-- In every run of calls on which the two stores agree, every call ends alike on
    both, and shows the same dispatch records and the same epoch. -/
theorem run_agrees (driver : SqliteDriver) (es : List MailboxEvent)
    (hok : InMemoryMailboxStore.machine.Along AgreesOnStep InMemoryMailboxStore.new es) :
    ∀ pre e post, es = pre ++ e :: post →
      SameReply e.op
        (InMemoryMailboxStore.machine.step
          (InMemoryMailboxStore.machine.run InMemoryMailboxStore.new pre) e).1
        ((machine driver).step ((machine driver).run new pre) e).1 := by
  rintro pre e post rfl
  obtain ⟨hpre, hpost⟩ := (Machine.along_append _ _ _ _ _).mp hok
  exact ((run_mirrors hpre).step hpost.1).1

/-- A dispatch that is given back, claimed again and completed, and a thread that is
    interrupted. -/
theorem run_agrees_on_retry :
    let es : List MailboxEvent :=
      [.inOrder (.enqueue (.queued "d-1" "t" "r-1" 0)),
        .inOrder (.claimDispatch "d-1" "c" 100 0 .firstToken),
        .inOrder (.recordDispatchStart "d-1" "token-1" "instance-1" 1),
        .inOrder (.nack "d-1" "token-1" 5 "failed" 2),
        .inOrder (.claim "t" "c" 100 5 1 .secondToken),
        .inOrder (.recordRunResult "d-1" "token-2"
          ⟨"r-1", "instance-2", .done, none, some "answer", none⟩ 6),
        .inOrder (.ack "d-1" "token-2" 7),
        .inOrder (.enqueue (.queued "d-2" "t" "r-2" 8)),
        .inOrder (.interrupt "t" 9),
        .inOrder (.listDispatches "t" none 10 0)]
    ∀ pre e post, es = pre ++ e :: post →
      SameReply e.op
        (InMemoryMailboxStore.machine.step
          (InMemoryMailboxStore.machine.run InMemoryMailboxStore.new pre) e).1
        ((machine .plain).step ((machine .plain).run new pre) e).1 :=
  run_agrees .plain _ (by decide)

/-- The SQLite store holds the dispatch under the id. -/
def Stores (driver : SqliteDriver) (q : SqliteMailboxStore) (k : String) (d : RunDispatch) : Prop :=
  ∃ row, q.runDispatches.get? k = some row ∧ row.rowToDispatch driver = .ok d

theorem Mirrors.get?_of_stores (h : Mirrors driver s q) {k : String} {d : RunDispatch}
    (hd : q.Stores driver k d) : s.dispatches.get? k = some d := by
  obtain ⟨row, hrow, hd⟩ := hd
  rw [h.holds.get?, Option.map_eq_some_iff] at hrow
  obtain ⟨d', hget, rfl⟩ := hrow
  rw [hget, ((DispatchRow.rowToDispatch_ofDispatch driver).mp hd).2]

theorem SameOutcome.isOk {α β : Type} {x : Outcome α} {y : Outcome β} (h : SameOutcome x y) :
    x.isOk = y.isOk := by
  rcases x with (_ | _) | _ <;> rcases y with (_ | _) | _ <;> first | rfl | exact h.elim

/-- The executor's order on a failed run: record the result, give the dispatch back. -/
def resultThenNack : List MailboxEvent :=
  [.inOrder (.enqueue (.queued "d-1" "t" "r-1" 0)),
    .inOrder (.claimDispatch "d-1" "c" 100 0 .token),
    .inOrder (.recordRunResult "d-1" "token"
      ⟨"r-1", "instance-1", .done, none, none, some "boom"⟩ 1),
    .inOrder (.nack "d-1" "token" 5 "failed" 2)]

/-- The executor's order tells the stores apart: afterwards the in-memory store loads
    the dispatch and the SQLite store fails. -/
theorem stores_differ_after_result_and_nack :
    ¬∀ (driver : SqliteDriver) (es : List MailboxEvent),
      (es.filterMap fun e => e.op.enqueuedId).Nodup →
      (∀ e ∈ es, ∀ now ∈ e.op.now, now.toNat < 0x8000000000000000) →
      ∀ pre e post, es = pre ++ e :: post →
        SameReply e.op
          (InMemoryMailboxStore.machine.step
            (InMemoryMailboxStore.machine.run InMemoryMailboxStore.new pre) e).1
          ((machine driver).step ((machine driver).run new pre) e).1 := by
  intro h
  have hmemory : (InMemoryMailboxStore.machine.step
      (InMemoryMailboxStore.machine.run InMemoryMailboxStore.new resultThenNack)
      (.inOrder (.loadDispatch "d-1"))).1.isOk = true := by decide
  have hsqlite : ((machine .plain).step ((machine .plain).run new resultThenNack)
      (.inOrder (.loadDispatch "d-1"))).1.isOk = false := by decide
  have hids : ((resultThenNack ++ [MailboxEvent.inOrder (.loadDispatch "d-1")]).filterMap
      fun e => e.op.enqueuedId).Nodup := by decide
  have htimes : ∀ e ∈ resultThenNack ++ [MailboxEvent.inOrder (.loadDispatch "d-1")],
      ∀ now ∈ e.op.now, now.toNat < 0x8000000000000000 := by
    simp [resultThenNack, MailboxEvent.inOrder, MailboxOp.now]
  have hsame := h .plain _ hids htimes resultThenNack (.inOrder (.loadDispatch "d-1")) [] rfl
  have hkinds := hsame.1.isOk
  rw [hmemory, hsqlite] at hkinds
  cases hkinds

end SqliteMailboxStore

end Remo
