import Remo.Spec.Mailbox.Replies

/-!
# Thread exclusivity

`claimDispatch` hands out a dispatch only when its thread is idle, and `claim`
checks once that the thread is idle before it hands out a whole batch. A thread
therefore keeps at most one claimed dispatch exactly as long as no `claim` finds
two dispatches to hand out.
-/

namespace Remo.InMemoryMailboxStore

variable {s : InMemoryMailboxStore}

/-- The dispatch is claimed for the thread. -/
def ClaimedFor (s : InMemoryMailboxStore) (threadId k : String) : Prop :=
  ∃ d, s.dispatches.get? k = some d ∧ d.threadId = threadId ∧ d.status = .claimed

/-- Every thread has at most one claimed dispatch. -/
def Exclusive (s : InMemoryMailboxStore) : Prop :=
  ∀ threadId k₁ k₂, s.ClaimedFor threadId k₁ → s.ClaimedFor threadId k₂ → k₁ = k₂

/-- A dispatch `claim` may hand out: queued for the thread, not stale, and due. -/
def Claimable (s : InMemoryMailboxStore) (threadId : String) (now : UInt64) (k : String) : Prop :=
  ∃ d, s.dispatches.get? k = some d ∧ d.threadId = threadId ∧ d.status = .queued ∧
    s.currentEpoch threadId ≤ d.dispatchEpoch ∧ d.availableAt ≤ now

/-- A `claim` hands out at most one dispatch: its limit says so, its thread is not
    idle, it fails for a blank consumer or an overflowing lease, or there are no
    two dispatches to hand out. -/
def ClaimsAtMostOne (s : InMemoryMailboxStore) : MailboxOp → Prop
  | .claim threadId consumerId leaseMs now limit _ =>
    limit ≤ 1 ∨ ¬s.Idle threadId ∨ Str.isBlank consumerId = true ∨
      0x10000000000000000 ≤ now.toNat + leaseMs.toNat ∨
      ∀ k₁ k₂, s.Claimable threadId now k₁ → s.Claimable threadId now k₂ → k₁ = k₂
  | _ => True

/-! ## What a batch claims -/

/-- After a call, a dispatch claimed for a thread was claimed for it before, or
    the call claimed it while the thread was idle. -/
theorem Effect.claimedFor {k : String} {op : MailboxOp} {d' : RunDispatch} (hs : s.Coherent)
    (h : Effect s k op (s.dispatches.get? k) (some d')) (hclaimed : d'.status = .claimed) :
    s.ClaimedFor d'.threadId k ∨
      (s.Idle d'.threadId ∧ ∃ d, s.dispatches.get? k = some d ∧ d.status = .queued ∧
        d.threadId = d'.threadId ∧
        ((∃ consumerId leaseMs now limit token,
            op = .claim d'.threadId consumerId leaseMs now limit token ∧
            s.Claimable d'.threadId now k) ∨
          ∃ consumerId leaseMs now token, op = .claimDispatch k consumerId leaseMs now token)) := by
  generalize hx : s.dispatches.get? k = x at h
  cases h with
  | kept => exact .inl ⟨d', hx, rfl, hclaimed⟩
  | admitted => cases hclaimed
  | changed _ d _ hchange =>
    have hid := hs.keyed k d hx
    cases hchange with
    | claim consumerId leaseMs now limit token hqueued he havail hidle =>
      exact .inr ⟨hidle, d, rfl, hqueued, rfl, .inl ⟨consumerId, leaseMs, now, limit, token, rfl,
        d, hx, rfl, hqueued, he, havail⟩⟩
    | claimDispatch consumerId leaseMs now token hqueued he hidle =>
      exact .inr ⟨hidle, d, rfl, hqueued, rfl, .inr ⟨consumerId, leaseMs, now, token, by rw [hid]⟩⟩
    | recordDispatchStart _ _ _ hc => exact .inl ⟨d, hx, rfl, hc⟩
    | recordRunResult _ _ _ hc => exact .inl ⟨d, hx, rfl, hc⟩
    | extendLease _ _ _ hc => exact .inl ⟨d, hx, rfl, hc⟩
    | _ => cases hclaimed

/-- A record that overflows or names a blank consumer is not claimed. -/
theorem claimRecord_error {d : RunDispatch} (hqueued : d.status = .queued) (hvalid : d.Valid)
    {consumerId : String} (hblank : Str.isBlank consumerId = true) (leaseMs now : UInt64)
    (token : Uuid) : ∃ f, (claimRecord consumerId leaseMs now token d).1 = .error f := by
  unfold claimRecord
  cases hadd : Outcome.addU64 now leaseMs with
  | error f => exact ⟨f, rfl⟩
  | ok leaseUntil =>
    simp only [RunDispatch.claim, RunDispatch.transition_of_status _ _ hqueued]
    cases hv : (d.writeClaimed consumerId token.text leaseUntil now).validateForPersist with
    | error e => exact ⟨_, rfl⟩
    | ok _ =>
      have hnamed := (RunDispatch.writeClaimed_valid_iff hvalid consumerId token.text
        token.notBlank leaseUntil now).mp (RunDispatch.validateForPersist_ok.mp hv)
      cases hblank.symm.trans hnamed

/-- A queued dispatch that `claim` claimed was handed out by its loop. -/
theorem mem_eligibleIds_of_claimed {threadId consumerId : String} {leaseMs now limit : UInt64}
    {token : Uuid} {k : String} {d d' : RunDispatch} (hd : s.dispatches.get? k = some d)
    (hqueued : d.status = .queued)
    (hd' : (claim threadId consumerId leaseMs now limit token s).2.dispatches.get? k = some d')
    (hclaimed : d'.status = .claimed) :
    ∃ bs s₁, supersedeStaleQueued threadId now (s.currentEpoch threadId) s = (.ok bs, s₁) ∧
      (claim threadId consumerId leaseMs now limit token s).2 =
        (claimAll consumerId leaseMs now token (s₁.eligibleIds threadId now limit) s₁).2 ∧
      s₁.dispatches.get? k = some d ∧ k ∈ s₁.eligibleIds threadId now limit := by
  have hfirst := supersedeStaleQueued_get? threadId now (s.currentEpoch threadId) s k
  unfold claim Method.bind at hd' ⊢
  rcases hr : supersedeStaleQueued threadId now (s.currentEpoch threadId) s with ⟨r, s₁⟩
  rw [hr] at hfirst
  simp only [hr] at hd' ⊢
  -- the first loop leaves no queued dispatch claimed
  have hnot : s₁.dispatches.get? k ≠ some d' := by
    intro hsame
    rcases hfirst with hkept | ⟨d₀, -, -, hat⟩
    · rw [hkept, hd] at hsame
      cases hsame
      cases hqueued.symm.trans hclaimed
    · rw [hat] at hsame
      cases hsame
      cases hclaimed
  cases r with
  | error e => exact absurd hd' hnot
  | ok bs =>
    dsimp only at hd' ⊢
    by_cases hbusy : s₁.hasClaimed threadId = true
    · rw [if_pos hbusy] at hd'
      exact absurd hd' hnot
    · rw [if_neg hbusy] at hd' ⊢
      refine ⟨bs, s₁, rfl, rfl, ?_⟩
      rcases forEach_withDispatch_get? (fun id => Outcome.fail (.notFound id))
        (f := fun _ _ => claimRecord consumerId leaseMs now token)
        (s₁.eligibleIds threadId now limit) (nodup_eligibleIds _ _ _ _) s₁ k with
        hkept | ⟨_, d₁, hmem, -, hd₁, -⟩
      · exact absurd (hkept.symm.trans hd') hnot
      · rcases hfirst with hkept | ⟨_, -, -, hat⟩
        · exact ⟨hkept.trans hd, hmem⟩
        · obtain ⟨d₂, hd₂, -, hqueued₂, -⟩ := mem_eligibleIds hmem
          rw [hat] at hd₂
          cases hd₂
          cases hqueued₂

/-- The limit bounds the batch. -/
theorem length_eligibleIds_le (s : InMemoryMailboxStore) (threadId : String)
    (now limit : UInt64) : (s.eligibleIds threadId now limit).length ≤ limit.toNat := by
  unfold eligibleIds
  rw [List.length_map]
  exact List.length_take_le _ _

/-- A batch within the condition claims at most one dispatch. -/
theorem claimed_unique (h : s.Ready) {threadId consumerId : String} {leaseMs now limit : UInt64}
    {token : Uuid} (hidle : s.Idle threadId)
    (hone : ClaimsAtMostOne s (.claim threadId consumerId leaseMs now limit token))
    {k₁ k₂ : String} {d₁ d₂ d₁' d₂' : RunDispatch}
    (hd₁ : s.dispatches.get? k₁ = some d₁) (hqueued₁ : d₁.status = .queued)
    (hd₁' : (claim threadId consumerId leaseMs now limit token s).2.dispatches.get? k₁ = some d₁')
    (hclaimed₁ : d₁'.status = .claimed) (helig₁ : s.Claimable threadId now k₁)
    (hd₂ : s.dispatches.get? k₂ = some d₂) (hqueued₂ : d₂.status = .queued)
    (hd₂' : (claim threadId consumerId leaseMs now limit token s).2.dispatches.get? k₂ = some d₂')
    (hclaimed₂ : d₂'.status = .claimed) (helig₂ : s.Claimable threadId now k₂) : k₁ = k₂ := by
  obtain ⟨bs, s₁, hr, hclaim, hkept₁, hmem₁⟩ :=
    mem_eligibleIds_of_claimed hd₁ hqueued₁ hd₁' hclaimed₁
  obtain ⟨_, _, hr₂, -, hkept₂, hmem₂⟩ := mem_eligibleIds_of_claimed hd₂ hqueued₂ hd₂' hclaimed₂
  cases hr.symm.trans hr₂
  rcases hone with hlimit | hbusy | hblank | hover | hunique
  · have hlength := length_eligibleIds_le s₁ threadId now limit
    generalize s₁.eligibleIds threadId now limit = ids at hmem₁ hmem₂ hlength
    have hle : ids.length ≤ 1 := Nat.le_trans hlength (UInt64.le_iff_toNat_le.mp hlimit)
    match ids, hle with
    | [_], _ => rw [List.mem_singleton.mp hmem₁, List.mem_singleton.mp hmem₂]
  · exact absurd hidle hbusy
  · -- the pass for the first id fails, so the loop ends there
    generalize hids : s₁.eligibleIds threadId now limit = ids at hclaim hmem₁ hmem₂
    cases ids with
    | nil => exact absurd hmem₁ List.not_mem_nil
    | cons i is =>
      obtain ⟨d, hd, hthread, hqueued, -⟩ :=
        mem_eligibleIds (s := s₁) (hids ▸ List.mem_cons_self)
      obtain ⟨hbefore, -⟩ := queued_of_supersedeStaleQueued hr hd hthread hqueued
      obtain ⟨f, hf⟩ := claimRecord_error hqueued (h.queued i d hbefore hqueued) hblank leaseMs now
        token
      have hpass : (withDispatch i (Outcome.fail (.notFound i))
          (fun _ => claimRecord consumerId leaseMs now token) s₁).1 = .error f := by
        rw [withDispatch_fst _ _ _ hd, hf]
      rw [claimAll, Method.forEach_cons_error (fun id => withDispatch id
        (Outcome.fail (.notFound id)) fun _ => claimRecord consumerId leaseMs now token)
        hpass] at hclaim
      have hfirst : ∀ k d d', s₁.dispatches.get? k = some d → d.status = .queued →
          (claim threadId consumerId leaseMs now limit token s).2.dispatches.get? k = some d' →
          d'.status = .claimed → k = i := by
        intro k d d' hk hq hk' hc
        by_contra hne
        rw [hclaim, withDispatch_get?, if_neg hne, hk] at hk'
        cases hk'
        cases hq.symm.trans hc
      rw [hfirst k₁ d₁ d₁' hkept₁ hqueued₁ hd₁' hclaimed₁,
        hfirst k₂ d₂ d₂' hkept₂ hqueued₂ hd₂' hclaimed₂]
  · rw [hclaim] at hd₁'
    rcases forEach_withDispatch_get? (fun id => Outcome.fail (.notFound id))
      (f := fun _ _ => claimRecord consumerId leaseMs now token)
      (s₁.eligibleIds threadId now limit) (nodup_eligibleIds _ _ _ _) s₁ k₁ with
      hkept | ⟨_, d, -, -, hd, hat⟩
    · rw [claimAll, hkept, hkept₁] at hd₁'
      cases hd₁'
      cases hqueued₁.symm.trans hclaimed₁
    · rw [claimRecord_of_overflow hover] at hat
      dsimp only at hat
      rw [← hd, hkept₁] at hat
      cases hat.symm.trans hd₁'
      cases hqueued₁.symm.trans hclaimed₁
  · exact hunique k₁ k₂ helig₁ helig₂

/-! ## A batch of two -/

/-- A batch takes two dispatches when there are two and the limit allows it. -/
theorem two_mem_eligibleIds {threadId : String} {now limit : UInt64} (hlimit : ¬limit ≤ 1)
    {k₁ k₂ : String} (hne : k₁ ≠ k₂) {d₁ d₂ : RunDispatch}
    (hd₁ : s.dispatches.get? k₁ = some d₁) (helig₁ : eligible threadId now d₁ = true)
    (hd₂ : s.dispatches.get? k₂ = some d₂) (helig₂ : eligible threadId now d₂ = true) :
    ∃ i j, i ≠ j ∧ i ∈ s.eligibleIds threadId now limit ∧
      j ∈ s.eligibleIds threadId now limit := by
  have hnodup : ((s.dispatches.entries.filter fun p => eligible threadId now p.2).insertionSort
      (fun a b => a.2.queueLe b.2) |>.map Prod.fst).Nodup :=
    ((List.perm_insertionSort _ _).map Prod.fst).nodup_iff.mpr
      (s.dispatches.nodup.sublist (List.filter_sublist.map Prod.fst))
  have hmem : ∀ k d, s.dispatches.get? k = some d → eligible threadId now d = true →
      (k, d) ∈ (s.dispatches.entries.filter fun p => eligible threadId now p.2).insertionSort
        fun a b => a.2.queueLe b.2 := fun k d hd helig =>
    (List.mem_insertionSort _).mpr (List.mem_filter.mpr ⟨AssocMap.get?_eq_some.mp hd, helig⟩)
  have hmem₁ := hmem k₁ d₁ hd₁ helig₁
  have hmem₂ := hmem k₂ d₂ hd₂ helig₂
  have htwo : 2 ≤ limit.toNat := by
    have hlt := UInt64.lt_iff_toNat_lt.mp (UInt64.not_le.mp hlimit)
    exact hlt
  unfold eligibleIds
  dsimp only
  generalize (s.dispatches.entries.filter fun p => eligible threadId now p.2).insertionSort
    (fun a b => a.2.queueLe b.2) = sorted at hnodup hmem₁ hmem₂ ⊢
  match sorted, htwo with
  | [], _ => exact absurd hmem₁ List.not_mem_nil
  | [p], _ =>
    have h₁ := List.mem_singleton.mp hmem₁
    have h₂ := List.mem_singleton.mp hmem₂
    exact absurd (congrArg Prod.fst (h₁.trans h₂.symm)) hne
  | p :: q :: rest, htwo =>
    obtain ⟨n, hn⟩ := Nat.exists_eq_add_of_le' htwo
    refine ⟨p.1, q.1, ?_, ?_, ?_⟩
    · intro heq
      simp [heq] at hnodup
    · simp [hn]
    · simp [hn]

/-- The first loop of `claim` does not fail. -/
theorem supersedeStaleQueued_returns (h : s.Ready) (threadId : String) (now epoch : UInt64) :
    ∃ bs s₁, supersedeStaleQueued threadId now epoch s = (.ok bs, s₁) := by
  refine forEach_withDispatch_returns (fun _ => .ok ())
    (f := fun _ _ => supersedeIfStale threadId now epoch) s.dispatches.nodup_keys
    (fun _ _ _ => ⟨(), rfl⟩) fun k _ _ d hd => ?_
  unfold supersedeIfStale
  split
  · rename_i hcond
    simp only [Bool.and_eq_true, beq_iff_eq, decide_eq_true_eq] at hcond
    have hlive : d.status.isTerminal = false := by rw [hcond.1.2]; rfl
    rw [markSupersededAtEpoch_ok (h.identified k d hd hlive) hlive]
    exact ⟨(), rfl⟩
  · exact ⟨(), rfl⟩

/-- A claim of a valid queued record for a named consumer succeeds. -/
theorem claimRecord_returns {d : RunDispatch} (hqueued : d.status = .queued) (hvalid : d.Valid)
    {consumerId : String} (hnamed : Str.isBlank consumerId = false) {leaseMs now : UInt64}
    (hadd : now.toNat + leaseMs.toNat < 0x10000000000000000) (token : Uuid) :
    claimRecord consumerId leaseMs now token d =
      (.ok (d.writeClaimed consumerId token.text (now + leaseMs) now),
        d.writeClaimed consumerId token.text (now + leaseMs) now) := by
  have hvalid' := RunDispatch.writeClaimed_valid hvalid hnamed token.notBlank (now + leaseMs) now
  unfold claimRecord Outcome.addU64
  rw [if_pos hadd]
  simp only [RunDispatch.claim, RunDispatch.transition_of_status _ _ hqueued,
    RunDispatch.validateForPersist_ok.mpr hvalid']
  rfl

/-- Two dispatches that can be handed out make a batch of two. -/
theorem claim_not_exclusive (h : s.Ready) {threadId consumerId : String}
    {leaseMs now limit : UInt64} {token : Uuid} (hlimit : ¬limit ≤ 1) (hidle : s.Idle threadId)
    (hnamed : Str.isBlank consumerId = false) (hadd : now.toNat + leaseMs.toNat < 0x10000000000000000)
    {k₁ k₂ : String} (hne : k₁ ≠ k₂) (h₁ : s.Claimable threadId now k₁)
    (h₂ : s.Claimable threadId now k₂) :
    ¬(claim threadId consumerId leaseMs now limit token s).2.Exclusive := by
  obtain ⟨bs, s₁, hr⟩ :=
    supersedeStaleQueued_returns h threadId now (s.currentEpoch threadId)
  have hfirst := supersedeStaleQueued_get? threadId now (s.currentEpoch threadId) s
  simp only [hr] at hfirst
  have hfree : s₁.hasClaimed threadId = false := by
    rw [hasClaimed, ← Bool.not_eq_true, AssocMap.any_values]
    rintro ⟨k, d, hd, hcond⟩
    simp only [Bool.and_eq_true, beq_iff_eq] at hcond
    rcases hfirst k with hkept | ⟨d', -, -, hat⟩
    · exact hidle k d (hkept.symm.trans hd) hcond.1 hcond.2
    · cases hat.symm.trans hd
      cases hcond.2
  have hkept : ∀ k, s.Claimable threadId now k →
      ∃ d, s₁.dispatches.get? k = some d ∧ eligible threadId now d = true := by
    rintro k ⟨d, hd, hthread, hqueued, he, havail⟩
    refine ⟨d, ?_, by simp [eligible, hthread, hqueued, havail]⟩
    rcases hfirst k with hkept | ⟨d', hd', hstale, -⟩
    · exact hkept.trans hd
    · cases hd.symm.trans hd'
      exact absurd hstale.2.2 (UInt64.not_lt.mpr he)
  obtain ⟨d₁, hd₁, helig₁⟩ := hkept k₁ h₁
  obtain ⟨d₂, hd₂, helig₂⟩ := hkept k₂ h₂
  obtain ⟨i, j, hij, hi, hj⟩ := two_mem_eligibleIds hlimit hne hd₁ helig₁ hd₂ helig₂
  have hbatch : (claim threadId consumerId leaseMs now limit token s).2 =
      (claimAll consumerId leaseMs now token (s₁.eligibleIds threadId now limit) s₁).2 := by
    simp only [claim, Method.bind, hr, hfree, Bool.false_eq_true, if_false]
  -- every dispatch of the batch is claimed
  have hqueued : ∀ k ∈ s₁.eligibleIds threadId now limit, ∀ d, s₁.dispatches.get? k = some d →
      d.threadId = threadId ∧ claimRecord consumerId leaseMs now token d =
        (.ok (d.writeClaimed consumerId token.text (now + leaseMs) now),
          d.writeClaimed consumerId token.text (now + leaseMs) now) := by
    intro k hk d hd
    obtain ⟨d', hd', hthread, hq, -⟩ := mem_eligibleIds hk
    cases hd.symm.trans hd'
    obtain ⟨hbefore, -⟩ := queued_of_supersedeStaleQueued hr hd hthread hq
    exact ⟨hthread, claimRecord_returns hq (h.queued k d hbefore hq) hnamed hadd token⟩
  obtain ⟨ds, s₂, hloop⟩ := forEach_withDispatch_returns
    (fun id => Outcome.fail (.notFound id))
    (f := fun _ _ => claimRecord consumerId leaseMs now token)
    (nodup_eligibleIds s₁ threadId now limit)
    (fun k hk hnone => by
      obtain ⟨d, hd, -⟩ := mem_eligibleIds hk
      cases hnone.symm.trans hd)
    fun k hk _ d hd => ⟨_, congrArg Prod.fst (hqueued k hk d hd).2⟩
  have hall := forEach_withDispatch_ok (fun id => Outcome.fail (.notFound id))
    (f := fun _ _ => claimRecord consumerId leaseMs now token)
    (s₁.eligibleIds threadId now limit) (nodup_eligibleIds _ _ _ _) s₁ ds (by rw [hloop])
  have hclaimed : ∀ k ∈ s₁.eligibleIds threadId now limit,
      (claim threadId consumerId leaseMs now limit token s).2.ClaimedFor threadId k := by
    intro k hk
    obtain ⟨b, -, hcase⟩ := hall.exists_of_mem_left hk
    rcases hcase with ⟨-, hmissing⟩ | ⟨_, d, -, hd, -, hat⟩
    · cases hmissing
    · obtain ⟨hthread, hwrite⟩ := hqueued k hk d hd
      rw [hwrite] at hat
      exact ⟨d.writeClaimed consumerId token.text (now + leaseMs) now, by
        rw [hbatch, claimAll, hat], hthread, rfl⟩
  exact fun hexclusive => hij (hexclusive threadId i j (hclaimed i hi) (hclaimed j hj))

/-! ## Exactly the harmless batches keep threads exclusive -/

theorem reorder_claimable (order : String → Nat) (threadId : String) (now : UInt64) (k : String) :
    (s.reorder order).Claimable threadId now k ↔ s.Claimable threadId now k := by
  simp only [Claimable, reorder_get?, reorder_currentEpoch]

theorem reorder_claimsAtMostOne (order : String → Nat) (op : MailboxOp) :
    (s.reorder order).ClaimsAtMostOne op ↔ s.ClaimsAtMostOne op := by
  cases op <;> simp only [ClaimsAtMostOne, reorder_claimable, idle_reorder]

theorem reorder_exclusive (order : String → Nat) : (s.reorder order).Exclusive ↔ s.Exclusive := by
  simp only [Exclusive, ClaimedFor, reorder_get?]

/-- A call that claims at most one dispatch keeps every thread exclusive. -/
theorem call_exclusive (h : s.Ready) (hexclusive : s.Exclusive) {op : MailboxOp}
    (hone : ClaimsAtMostOne s op) : (call op s).2.Exclusive := by
  rintro threadId k₁ k₂ ⟨d₁', hd₁', hthread₁, hclaimed₁⟩ ⟨d₂', hd₂', hthread₂, hclaimed₂⟩
  subst hthread₁
  have heffect₁ := call_effect h.coherent k₁ op
  have heffect₂ := call_effect h.coherent k₂ op
  rw [hd₁'] at heffect₁
  rw [hd₂'] at heffect₂
  have hcase₁ := heffect₁.claimedFor h.coherent hclaimed₁
  have hcase₂ := heffect₂.claimedFor h.coherent hclaimed₂
  rw [hthread₂] at hcase₂
  rcases hcase₁ with hold₁ | ⟨hidle, d₁, hd₁, hqueued₁, -, hnew₁⟩
  · rcases hcase₂ with hold₂ | ⟨hidle, -⟩
    · exact hexclusive _ k₁ k₂ hold₁ hold₂
    · obtain ⟨d, hd, hthread, hclaimed⟩ := hold₁
      exact absurd hclaimed (hidle k₁ d hd hthread)
  · rcases hcase₂ with ⟨d, hd, hthread, hclaimed⟩ | ⟨-, d₂, hd₂, hqueued₂, -, hnew₂⟩
    · exact absurd hclaimed (hidle k₂ d hd hthread)
    · rcases hnew₁ with ⟨consumerId, leaseMs, now, limit, token, rfl, helig₁⟩ |
        ⟨consumerId, leaseMs, now, token, rfl⟩
      · rcases hnew₂ with ⟨_, _, _, _, _, hop, helig₂⟩ | ⟨_, _, _, _, hop⟩
        · cases hop
          simp only [call, Method.map_snd] at hd₁' hd₂'
          exact claimed_unique h hidle hone hd₁ hqueued₁ hd₁' hclaimed₁ helig₁ hd₂ hqueued₂ hd₂'
            hclaimed₂ helig₂
        · cases hop
      · rcases hnew₂ with ⟨_, _, _, _, _, hop, -⟩ | ⟨_, _, _, _, hop⟩
        · cases hop
        · cases hop
          rfl

/-- A call keeps every thread exclusive exactly when it claims at most one dispatch. -/
theorem call_exclusive_iff (h : s.Ready) (hexclusive : s.Exclusive) (op : MailboxOp) :
    ClaimsAtMostOne s op ↔ (call op s).2.Exclusive := by
  refine ⟨call_exclusive h hexclusive, fun hafter => ?_⟩
  cases op with
  | claim threadId consumerId leaseMs now limit token =>
    simp only [call, Method.map_snd] at hafter
    simp only [ClaimsAtMostOne]
    by_contra hmany
    simp only [not_or, not_not] at hmany
    obtain ⟨hlimit, hidle, hnamed, hadd, hunique⟩ := hmany
    refine hunique fun k₁ k₂ h₁ h₂ => ?_
    by_contra hne
    exact claim_not_exclusive h hlimit hidle (Bool.not_eq_true _ ▸ hnamed) (Nat.not_le.mp hadd) hne
      h₁ h₂ hafter
  | _ => trivial

theorem step_exclusive_iff (s : InMemoryMailboxStore) (e : MailboxEvent) (h : s.Ready)
    (hexclusive : s.Exclusive) : ClaimsAtMostOne s e.op ↔ (machine.step s e).2.Exclusive :=
  (reorder_claimsAtMostOne e.order e.op).symm.trans
    (call_exclusive_iff (reorder_ready e.order h) ((reorder_exclusive e.order).mpr hexclusive) e.op)

theorem exclusive_new : new.Exclusive := by
  rintro _ _ _ ⟨_, hd, -⟩
  cases hd

/-! ## The active dispatch of an interrupt -/

/-- The interrupt loop reports a visited dispatch as active exactly when it is
    claimed for the thread. -/
theorem interruptVisit_active {threadId : String} {now oldDispatchEpoch : UInt64}
    {d : RunDispatch} {b : InterruptVisit}
    (h : (interruptVisit threadId now oldDispatchEpoch d).1 = .ok b) (d' : RunDispatch) :
    b = .active d' ↔ d' = d ∧ d.threadId = threadId ∧ d.status = .claimed := by
  unfold interruptVisit at h
  by_cases hthread : d.threadId = threadId
  · simp only [hthread, ne_eq, not_true_eq_false, if_false] at h
    by_cases hqueued : d.status = .queued ∧ d.dispatchEpoch ≤ oldDispatchEpoch
    · have hnot : d.status ≠ .claimed := by simp [hqueued.1]
      rw [if_pos hqueued] at h
      unfold Method.bind at h
      split at h
      · cases h
      · cases h
        exact ⟨by simp, fun hc => absurd hc.2.2 hnot⟩
    · rw [if_neg hqueued] at h
      split at h
      · rename_i hclaimed
        cases h
        simp only [InterruptVisit.active.injEq, hthread, hclaimed, and_self, and_true, eq_comm]
      · rename_i hclaimed
        cases h
        exact ⟨by simp, fun hc => absurd hc.2.2 hclaimed⟩
  · simp only [hthread, ne_eq, not_false_eq_true, if_true] at h
    cases h
    exact ⟨by simp, fun hc => absurd hc.2.1 hthread⟩

/-- The reported dispatch is the last of those the loop found active. -/
theorem interruptReport_active (newDispatchEpoch : UInt64) (visits : List InterruptVisit) :
    ∃ active : List RunDispatch,
      (interruptReport newDispatchEpoch visits).activeDispatch = active.getLast? ∧
        ∀ d, d ∈ active ↔ .active d ∈ visits := by
  refine ⟨_, rfl, fun d => ?_⟩
  rw [List.mem_filterMap]
  constructor
  · rintro ⟨b, hb, hd⟩
    cases b <;> cases hd
    exact hb
  · exact fun hb => ⟨_, hb, rfl⟩

/-- When threads are exclusive, the active dispatch an interrupt reports is the
    one dispatch claimed for the thread. -/
theorem interruptDetailed_active (hs : s.Coherent) (hexclusive : s.Exclusive) {threadId : String}
    {now : UInt64} {details : MailboxInterruptDetails}
    (hok : (interruptDetailed threadId now s).1 = .ok details) (k : String) :
    s.ClaimedFor threadId k ↔ details.activeDispatch.map RunDispatch.dispatchId = some k := by
  unfold interruptDetailed at hok
  simp only [currentEpoch_orInsert] at hok
  cases hadd : Outcome.addU64 (s.currentEpoch threadId) 1 with
  | error f => rw [hadd] at hok; cases hok
  | ok newDispatchEpoch =>
    simp only [hadd] at hok
    obtain ⟨visits, hvisits, rfl⟩ := Method.map_ok hok
    have hall := forEach_withDispatch_ok (fun _ => .ok InterruptVisit.skipped)
      (f := fun _ _ => interruptVisit threadId now (s.currentEpoch threadId)) s.dispatches.keys
      s.dispatches.nodup_keys _ visits hvisits
    have hactive : ∀ d, .active d ∈ visits ↔
        s.dispatches.get? d.dispatchId = some d ∧ d.threadId = threadId ∧ d.status = .claimed := by
      intro d
      constructor
      · intro hmem
        obtain ⟨k', -, hcase⟩ := hall.exists_of_mem_right hmem
        rcases hcase with ⟨-, hmissing⟩ | ⟨_, d', -, hd', hret, -⟩
        · cases hmissing
        · obtain ⟨rfl, hclaimed⟩ := (interruptVisit_active hret d).mp rfl
          exact ⟨by rw [hs.keyed k' d hd']; exact hd', hclaimed⟩
      · rintro ⟨hd, hclaimed⟩
        obtain ⟨b, hb, hcase⟩ := hall.exists_of_mem_left (AssocMap.mem_keys.mpr ⟨d, hd⟩)
        rcases hcase with ⟨hnone, -⟩ | ⟨_, d', -, hd', hret, -⟩
        · cases hd.symm.trans hnone
        · cases hd.symm.trans hd'
          exact (interruptVisit_active hret d).mpr ⟨rfl, hclaimed⟩ ▸ hb
    obtain ⟨active, hreported, hreport⟩ := interruptReport_active newDispatchEpoch visits
    rw [hreported]
    constructor
    · rintro ⟨d, hd, hthread, hclaimed⟩
      have hkey := hs.keyed k d hd
      have hmem : d ∈ active := (hreport d).mpr ((hactive d).mpr ⟨hkey ▸ hd, hthread, hclaimed⟩)
      obtain ⟨last, hlast⟩ := Option.isSome_iff_exists.mp (List.getLast?_isSome.mpr
        (List.ne_nil_of_mem hmem))
      obtain ⟨hd', hclaimed'⟩ := (hactive last).mp ((hreport last).mp (List.mem_of_getLast? hlast))
      rw [hlast, Option.map_some, hexclusive threadId k last.dispatchId ⟨d, hd, hthread, hclaimed⟩
        ⟨last, hd', hclaimed'⟩]
    · intro hk
      obtain ⟨last, hlast, rfl⟩ := Option.map_eq_some_iff.mp hk
      obtain ⟨hd', hclaimed'⟩ := (hactive last).mp ((hreport last).mp (List.mem_of_getLast? hlast))
      exact ⟨last, hd', hclaimed'⟩

/-! ## Runs -/

/-- Two dispatches of one thread, and a batch claim with a limit of two. -/
def batchRun : List MailboxEvent :=
  [.inOrder (.enqueue (RunDispatch.queued "d-1" "t" "r-1" 0)),
    .inOrder (.enqueue (RunDispatch.queued "d-2" "t" "r-2" 0)),
    .inOrder (.claim "t" "c" 1000 10 2 .token)]

end Remo.InMemoryMailboxStore
