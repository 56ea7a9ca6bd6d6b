import Remo.Spec.Mailbox.Coherent

/-!
# What the replies tell

A call that hands a dispatch out, puts it back into the queue or reports success
for it found the dispatch live and its thread epoch not ahead.
-/

namespace Remo

/-- The call worked on the dispatch: it handed it out, took it back after its
    lease ran out, or reported that it acked, nacked, dead-lettered or started
    it, recorded its result or extended its lease. -/
def worksOn (dispatchId : String) : MailboxOp → Outcome MailboxReply → Bool
  | .claim .., .ok (.dispatches ds) => ds.any fun d => d.dispatchId == dispatchId
  | .claimDispatch .., .ok (.dispatch (some d)) => d.dispatchId == dispatchId
  | .reclaimExpiredLeases .., .ok (.dispatches ds) => ds.any fun d => d.dispatchId == dispatchId
  | .ack id _ _, .ok _ => id == dispatchId
  | .nack id _ _ _ _, .ok _ => id == dispatchId
  | .deadLetter id _ _ _, .ok _ => id == dispatchId
  | .recordDispatchStart id _ _ _, .ok _ => id == dispatchId
  | .recordRunResult id _ _ _, .ok _ => id == dispatchId
  | .extendLease id _ _ _, .ok (.flag true) => id == dispatchId
  | _, _ => false

/-- The call handed the dispatch out. -/
def handsOut (dispatchId : String) : MailboxOp → Outcome MailboxReply → Bool
  | .claim .., .ok (.dispatches ds) => ds.any fun d => d.dispatchId == dispatchId
  | .claimDispatch .., .ok (.dispatch (some d)) => d.dispatchId == dispatchId
  | _, _ => false

namespace InMemoryMailboxStore

variable {s : InMemoryMailboxStore}

/-! ## Enqueues -/

/-- What an accepted enqueue stores. -/
theorem enqueue_ok {dispatch : RunDispatch} {r : Unit} (hok : (enqueue dispatch s).1 = .ok r) :
    dispatch.Valid ∧ (enqueue dispatch s).2.dispatches.get? dispatch.dispatchId =
      some (dispatch.prepareForEnqueue (s.currentEpoch dispatch.threadId)) := by
  unfold enqueue at hok ⊢
  cases hv : dispatch.validateForEnqueue with
  | error f => rw [hv] at hok; cases hok
  | ok _ =>
    obtain ⟨hvalid, -⟩ := RunDispatch.validateForEnqueue_ok.mp hv
    have hpersist := RunDispatch.validateForPersist_ok.mpr
      (RunDispatch.prepareForEnqueue_valid hvalid (s.currentEpoch dispatch.threadId))
    by_cases hdup : s.hasDuplicate dispatch = true
    · simp only [hv, hdup, if_true] at hok; cases hok
    · simp only [hdup, Bool.false_eq_true, if_false, currentEpoch_orInsert, hpersist]
      exact ⟨hvalid, AssocMap.get?_insert_self _ _ _⟩

/-! ## Claims -/

/-- A claim of a record that succeeded returned the claimed record. -/
theorem claimRecord_ok {consumerId : String} {leaseMs now : UInt64} {token : Uuid}
    {d d' : RunDispatch} (h : (claimRecord consumerId leaseMs now token d).1 = .ok d') :
    d.status = .queued ∧ d' = d.writeClaimed consumerId token.text (now + leaseMs) now ∧
      (claimRecord consumerId leaseMs now token d).2 = d' := by
  unfold claimRecord at h ⊢
  cases hadd : Outcome.addU64 now leaseMs with
  | error f => rw [hadd] at h; cases h
  | ok leaseUntil =>
    have hsum := Outcome.addU64_eq_ok hadd
    subst hsum
    simp only [hadd] at h ⊢
    by_cases hqueued : d.status = .queued
    · rw [RunDispatch.claim, RunDispatch.transition_of_status _ _ hqueued] at h ⊢
      cases hv : (d.writeClaimed consumerId token.text (now + leaseMs) now).validateForPersist with
      | error e => rw [hv] at h; cases h
      | ok _ =>
        rw [hv] at h
        cases h
        exact ⟨hqueued, rfl, rfl⟩
    · obtain ⟨e, he⟩ := RunDispatch.transition_of_ne "claim"
        (RunDispatch.writeClaimed consumerId token.text (now + leaseMs) now) hqueued
      rw [RunDispatch.claim, he] at h
      cases h

/-- What `claim` hands out: queued dispatches of the thread that are not stale,
    now claimed. -/
theorem claim_ok (hs : s.Coherent) {threadId consumerId : String} {leaseMs now limit : UInt64}
    {token : Uuid} {ds : List RunDispatch}
    (hok : (claim threadId consumerId leaseMs now limit token s).1 = .ok ds) {d' : RunDispatch}
    (hd' : d' ∈ ds) :
    ∃ d, s.dispatches.get? d'.dispatchId = some d ∧ d.status = .queued ∧ d.threadId = threadId ∧
      s.currentEpoch d.threadId ≤ d.dispatchEpoch ∧
      d' = d.writeClaimed consumerId token.text (now + leaseMs) now ∧
      (claim threadId consumerId leaseMs now limit token s).2.dispatches.get? d'.dispatchId =
        some d' := by
  unfold claim Method.bind at hok ⊢
  cases hr : supersedeStaleQueued threadId now (s.currentEpoch threadId) s with
  | mk r s₁ =>
    cases r with
    | error e => simp only [hr] at hok; cases hok
    | ok bs =>
      simp only [hr] at hok ⊢
      by_cases hclaimed : s₁.hasClaimed threadId = true
      · simp only [hclaimed, if_true] at hok
        cases hok
        exact absurd hd' List.not_mem_nil
      · simp only [hclaimed, Bool.false_eq_true, if_false] at hok ⊢
        have hall := forEach_withDispatch_ok (fun id => Outcome.fail (.notFound id))
          (f := fun _ _ => claimRecord consumerId leaseMs now token)
          (s₁.eligibleIds threadId now limit) (nodup_eligibleIds _ _ _ _) s₁ ds hok
        obtain ⟨k, hmem, hcase⟩ := hall.exists_of_mem_right hd'
        rcases hcase with ⟨-, hmissing⟩ | ⟨_, d, -, hd, hret, hat⟩
        · cases hmissing
        · obtain ⟨hqueued, hwrite, hleft⟩ := claimRecord_ok hret
          obtain ⟨d₂, hd₂, hthread, -, -⟩ := mem_eligibleIds hmem
          rw [hd] at hd₂
          cases hd₂
          obtain ⟨hbefore, he⟩ := queued_of_supersedeStaleQueued hr hd hthread hqueued
          have hk : d'.dispatchId = k := by rw [hwrite]; exact hs.keyed k d hbefore
          rw [hk]
          exact ⟨d, hbefore, hqueued, hthread, he, hwrite, by rw [claimAll, hat, hleft]⟩

/-- What `claimDispatch` hands out: a queued dispatch that is not stale, now claimed. -/
theorem claimDispatch_ok (hs : s.Coherent) {dispatchId consumerId : String}
    {leaseMs now : UInt64} {token : Uuid} {d' : RunDispatch}
    (hok : (claimDispatch dispatchId consumerId leaseMs now token s).1 = .ok (some d')) :
    ∃ d, s.dispatches.get? dispatchId = some d ∧ d'.dispatchId = dispatchId ∧
      d.status = .queued ∧ s.currentEpoch d.threadId ≤ d.dispatchEpoch ∧
      d' = d.writeClaimed consumerId token.text (now + leaseMs) now ∧
      (claimDispatch dispatchId consumerId leaseMs now token s).2.dispatches.get? dispatchId =
        some d' := by
  rw [claimDispatch, withDispatch_get?, if_pos rfl]
  cases hd : s.dispatches.get? dispatchId with
  | none => simp only [claimDispatch, withDispatch, hd] at hok; cases hok
  | some d =>
    rw [claimDispatch, withDispatch_fst _ _ _ hd] at hok
    by_cases hqueued : d.status = .queued
    · simp only [hqueued, ne_eq, not_true_eq_false, if_false, Option.map_some] at hok ⊢
      by_cases hstale : d.dispatchEpoch < s.currentEpoch d.threadId
      · simp only [hstale, if_true] at hok
        obtain ⟨_, -, hnone⟩ := Method.map_ok hok
        cases hnone
      · simp only [hstale, if_false] at hok ⊢
        by_cases hother : s.hasOtherClaimed d.threadId dispatchId = true
        · simp only [hother, if_true] at hok; cases hok
        · simp only [hother, Bool.false_eq_true, if_false] at hok ⊢
          obtain ⟨d₂, hret, hsome⟩ := Method.map_ok hok
          cases hsome
          obtain ⟨-, hwrite, hleft⟩ := claimRecord_ok hret
          have hid : d'.dispatchId = dispatchId := by rw [hwrite]; exact hs.keyed dispatchId d hd
          exact ⟨d, rfl, hid, hqueued, UInt64.not_lt.mp hstale, hwrite, by
            rw [Method.map_snd, hleft]⟩
    · simp only [hqueued, ne_eq, not_false_eq_true, if_true] at hok; cases hok

/-! ## Sweeps -/

/-- What a sweep returns: dispatches whose lease ran out and that are not stale. -/
theorem reclaimExpiredLeases_ok (hs : s.Coherent) {now limit : UInt64} {ds : List RunDispatch}
    (hok : (reclaimExpiredLeases now limit s).1 = .ok ds) {d' : RunDispatch} (hd' : d' ∈ ds) :
    ∃ d, s.dispatches.get? d'.dispatchId = some d ∧ d.status = .claimed ∧
      s.currentEpoch d.threadId ≤ d.dispatchEpoch ∧
      d' = d.writeExpiredLease now MailboxState.reasonLeaseExpiredMaxAttempts := by
  obtain ⟨bs, hloop, rfl⟩ := Method.map_ok hok
  obtain ⟨b, hb, rfl⟩ : ∃ b ∈ bs, b = some d' := by simpa using hd'
  have hall := forEach_withDispatch_ok (fun id => Outcome.fail (.notFound id))
    (f := fun _ s d => reclaimRecord now (s.currentEpoch d.threadId) d)
    (s.expiredIds now limit) (nodup_expiredIds hs _ _) s bs hloop
  obtain ⟨k, hmem, hcase⟩ := hall.exists_of_mem_right hb
  rcases hcase with ⟨-, hmissing⟩ | ⟨s₁, d, hs₁, hd, hret, -⟩
  · cases hmissing
  · obtain ⟨d₂, leaseUntil, hd₂, hclaimed, -, -⟩ := mem_expiredIds hs hmem
    rw [hd] at hd₂
    cases hd₂
    rw [currentEpoch_congr hs₁] at hret
    unfold reclaimRecord at hret
    by_cases hstale : d.dispatchEpoch < s.currentEpoch d.threadId
    · rw [if_pos hstale] at hret
      obtain ⟨_, -, hnone⟩ := Method.map_ok hret
      cases hnone
    · rw [if_neg hstale] at hret
      have hwrite : d' = d.writeExpiredLease now MailboxState.reasonLeaseExpiredMaxAttempts := by
        unfold Method.bind MailboxState.markExpiredLease MailboxState.expecting
          RunDispatch.markExpiredLease at hret
        rw [RunDispatch.transition_of_status _ _ hclaimed] at hret
        split at hret
        · cases hret
        · rename_i hpair
          cases hret
          exact (Prod.mk.inj hpair).2.symm
      refine ⟨d, ?_, hclaimed, UInt64.not_lt.mp hstale, hwrite⟩
      rw [hwrite]
      have hid : (d.writeExpiredLease now MailboxState.reasonLeaseExpiredMaxAttempts).dispatchId =
          d.dispatchId := by
        rw [RunDispatch.writeExpiredLease_eq]
        split <;> rfl
      rw [hid, hs.keyed k d hd, hd]

/-! ## Calls that worked on a dispatch -/

/-- The dispatch is live and the epoch of its thread is not ahead of it. -/
def Fresh (s : InMemoryMailboxStore) (dispatchId : String) : Prop :=
  ∃ d, s.dispatches.get? dispatchId = some d ∧ d.status.isTerminal = false ∧
    s.currentEpoch d.threadId ≤ d.dispatchEpoch

/-- A claim holder's call that succeeds found a fresh dispatch. -/
theorem withClaim_fresh {α : Type} {dispatchId claimToken : String} {missing rejected : Outcome α}
    {stale : UInt64 → UInt64 → Outcome α} {owns : RunDispatch → Bool} {now : UInt64}
    {reason : String} {transition : Method Fault RunDispatch α} (hs : s.Coherent) {a : α}
    (hok : (withClaim dispatchId missing rejected stale owns now reason transition s).1 = .ok a)
    (howns : ∀ d, owns d = true → d.claimToken = some claimToken)
    (hmissing : missing ≠ .ok a) (hrejected : rejected ≠ .ok a)
    (hstale : ∀ e e', stale e e' ≠ .ok a) : s.Fresh dispatchId := by
  obtain ⟨d, hd, hclaimed, -, he, -⟩ := withClaim_ok hs hok howns hmissing hrejected hstale
  exact ⟨d, hd, by rw [hclaimed]; rfl, he⟩

/-- A call that worked on a dispatch found it fresh. -/
theorem worksOn_fresh (hs : s.Coherent) {op : MailboxOp} {dispatchId : String}
    (h : worksOn dispatchId op (call op s).1 = true) : s.Fresh dispatchId := by
  cases op with
  | claim threadId consumerId leaseMs now limit token =>
    cases hr : (claim threadId consumerId leaseMs now limit token s).1 with
    | error f => simp [call, Method.map, Except.map, hr, worksOn] at h
    | ok ds =>
      obtain ⟨d', hd', rfl⟩ : ∃ d' ∈ ds, d'.dispatchId = dispatchId := by
        simpa [call, Method.map, Except.map, hr, worksOn] using h
      obtain ⟨d, hd, hqueued, -, he, -⟩ := claim_ok hs hr hd'
      exact ⟨d, hd, by rw [hqueued]; rfl, he⟩
  | claimDispatch id consumerId leaseMs now token =>
    cases hr : (claimDispatch id consumerId leaseMs now token s).1 with
    | error f => simp [call, Method.map, Except.map, hr, worksOn] at h
    | ok x =>
      cases x with
      | none => simp [call, Method.map, Except.map, hr, worksOn] at h
      | some d' =>
        have hid : d'.dispatchId = dispatchId := by
          simpa [call, Method.map, Except.map, hr, worksOn] using h
        obtain ⟨d, hd, hsame, hqueued, he, -⟩ := claimDispatch_ok hs hr
        exact ⟨d, by rw [← hid, hsame, hd], by rw [hqueued]; rfl, he⟩
  | reclaimExpiredLeases now limit =>
    cases hr : (reclaimExpiredLeases now limit s).1 with
    | error f => simp [call, Method.map, Except.map, hr, worksOn] at h
    | ok ds =>
      obtain ⟨d', hd', rfl⟩ : ∃ d' ∈ ds, d'.dispatchId = dispatchId := by
        simpa [call, Method.map, Except.map, hr, worksOn] using h
      obtain ⟨d, hd, hclaimed, he, -⟩ := reclaimExpiredLeases_ok hs hr hd'
      exact ⟨d, hd, by rw [hclaimed]; rfl, he⟩
  | ack id claimToken now =>
    cases hr : (ack id claimToken now s).1 with
    | error f => simp [call, Method.map, Except.map, hr, worksOn] at h
    | ok a =>
      obtain rfl : id = dispatchId := by
        simpa [call, Method.map, Except.map, hr, worksOn] using h
      exact withClaim_fresh hs hr (fun d => claimToken_of_holdsToken) (by rintro ⟨⟩) (by rintro ⟨⟩) (by rintro _ _ ⟨⟩)
  | recordDispatchStart id claimToken dispatchInstanceId now =>
    cases hr : (recordDispatchStart id claimToken dispatchInstanceId now s).1 with
    | error f => simp [call, Method.map, Except.map, hr, worksOn] at h
    | ok a =>
      obtain rfl : id = dispatchId := by
        simpa [call, Method.map, Except.map, hr, worksOn] using h
      exact withClaim_fresh hs hr (fun d => claimToken_of_holdsClaim) (by rintro ⟨⟩) (by rintro ⟨⟩) (by rintro _ _ ⟨⟩)
  | recordRunResult id claimToken result now =>
    cases hr : (recordRunResult id claimToken result now s).1 with
    | error f => simp [call, Method.map, Except.map, hr, worksOn] at h
    | ok a =>
      obtain rfl : id = dispatchId := by
        simpa [call, Method.map, Except.map, hr, worksOn] using h
      exact withClaim_fresh hs hr (fun d => claimToken_of_holdsClaim) (by rintro ⟨⟩) (by rintro ⟨⟩) (by rintro _ _ ⟨⟩)
  | nack id claimToken retryAt error now =>
    cases hr : (nack id claimToken retryAt error now s).1 with
    | error f => simp [call, Method.map, Except.map, hr, worksOn] at h
    | ok a =>
      obtain rfl : id = dispatchId := by
        simpa [call, Method.map, Except.map, hr, worksOn] using h
      exact withClaim_fresh hs hr (fun d => claimToken_of_holdsToken) (by rintro ⟨⟩) (by rintro ⟨⟩) (by rintro _ _ ⟨⟩)
  | deadLetter id claimToken error now =>
    cases hr : (deadLetter id claimToken error now s).1 with
    | error f => simp [call, Method.map, Except.map, hr, worksOn] at h
    | ok a =>
      obtain rfl : id = dispatchId := by
        simpa [call, Method.map, Except.map, hr, worksOn] using h
      exact withClaim_fresh hs hr (fun d => claimToken_of_holdsToken) (by rintro ⟨⟩) (by rintro ⟨⟩) (by rintro _ _ ⟨⟩)
  | extendLease id claimToken extensionMs now =>
    cases hr : (extendLease id claimToken extensionMs now s).1 with
    | error f => simp [call, Method.map, Except.map, hr, worksOn] at h
    | ok a =>
      obtain ⟨rfl, rfl⟩ : a = true ∧ id = dispatchId := by
        cases a <;> simp_all [call, Method.map, Except.map, worksOn]
      exact withClaim_fresh hs hr (fun d => claimToken_of_holdsClaim) (by rintro ⟨⟩) (by rintro ⟨⟩) (by rintro _ _ ⟨⟩)
  | _ => exact absurd h (by simp [worksOn])

theorem step_worksOn_fresh (hs : s.Coherent) {e : MailboxEvent} {dispatchId : String}
    (h : worksOn dispatchId e.op (machine.step s e).1 = true) : s.Fresh dispatchId := by
  obtain ⟨d, hd, hfresh⟩ := worksOn_fresh (reorder_coherent e.order hs) h
  exact ⟨d, by simpa using hd, hfresh⟩

end InMemoryMailboxStore

end Remo
