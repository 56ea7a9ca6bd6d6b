import Remo.Spec.Mailbox.StoreSteps

/-!
# What one call does to the stored dispatches

`Change` lists how a call can change the record of one stored dispatch, with
what the call had to find before. `call_effect` says that a call of the
in-memory store leaves the record under an id as it is, admits it, purges it, or
changes it in one of these ways. The invariants of the store are derived from
this list, not from the calls themselves.
-/

namespace Remo

/-- The call presents no token, or it presents the one the dispatch holds. -/
def MailboxOp.Entitled (op : MailboxOp) (d : RunDispatch) : Prop :=
  ∀ dispatchId claimToken, op.presented = some (dispatchId, claimToken) →
    dispatchId = d.dispatchId ∧ d.claimToken = some claimToken

namespace InMemoryMailboxStore

/-- How one call changes the record `d` of a stored dispatch. -/
inductive Change (s : InMemoryMailboxStore) (d : RunDispatch) : MailboxOp → RunDispatch → Prop where
  | claim (consumerId : String) (leaseMs now limit : UInt64) (token : Uuid) :
      d.status = .queued → s.currentEpoch d.threadId ≤ d.dispatchEpoch → d.availableAt ≤ now →
      s.Idle d.threadId →
      Change s d (.claim d.threadId consumerId leaseMs now limit token)
        (d.writeClaimed consumerId token.text (now + leaseMs) now)
  | claimDispatch (consumerId : String) (leaseMs now : UInt64) (token : Uuid) :
      d.status = .queued → s.currentEpoch d.threadId ≤ d.dispatchEpoch → s.Idle d.threadId →
      Change s d (.claimDispatch d.dispatchId consumerId leaseMs now token)
        (d.writeClaimed consumerId token.text (now + leaseMs) now)
  | superseded (op : MailboxOp) (now : UInt64) (reason : Option String) :
      d.status.isTerminal = false → d.dispatchEpoch < s.currentEpoch d.threadId → op.Entitled d →
      Change s d op (d.writeSupersededAtEpoch now (s.currentEpoch d.threadId) reason)
  | ack (claimToken : String) (now : UInt64) :
      d.status = .claimed → d.claimToken = some claimToken →
      s.currentEpoch d.threadId ≤ d.dispatchEpoch →
      Change s d (.ack d.dispatchId claimToken now) (d.writeAcked now)
  | recordDispatchStart (claimToken dispatchInstanceId : String) (now : UInt64) :
      d.status = .claimed → d.claimToken = some claimToken →
      s.currentEpoch d.threadId ≤ d.dispatchEpoch →
      Change s d (.recordDispatchStart d.dispatchId claimToken dispatchInstanceId now)
        (d.writeDispatchStart dispatchInstanceId now)
  | recordRunResult (claimToken : String) (result : RunDispatchResult) (now : UInt64) :
      d.status = .claimed → d.claimToken = some claimToken →
      s.currentEpoch d.threadId ≤ d.dispatchEpoch → result.runId = d.runId →
      Change s d (.recordRunResult d.dispatchId claimToken result now) (d.writeRunResult result now)
  | nackRequeued (claimToken : String) (retryAt : UInt64) (error : String) (now : UInt64) :
      d.status = .claimed → d.claimToken = some claimToken →
      s.currentEpoch d.threadId ≤ d.dispatchEpoch →
      RunDispatch.saturatingSucc d.attemptCount < d.maxAttempts →
      Change s d (.nack d.dispatchId claimToken retryAt error now)
        (d.writeNackRequeued now retryAt error)
  | nackExhausted (claimToken : String) (retryAt : UInt64) (error : String) (now : UInt64) :
      d.status = .claimed → d.claimToken = some claimToken →
      s.currentEpoch d.threadId ≤ d.dispatchEpoch →
      d.maxAttempts ≤ RunDispatch.saturatingSucc d.attemptCount →
      Change s d (.nack d.dispatchId claimToken retryAt error now) (d.writeNackExhausted now error)
  | deadLetter (claimToken error : String) (now : UInt64) :
      d.status = .claimed → d.claimToken = some claimToken →
      s.currentEpoch d.threadId ≤ d.dispatchEpoch →
      Change s d (.deadLetter d.dispatchId claimToken error now) (d.writeDeadLetter now error)
  | extendLease (claimToken : String) (extensionMs now : UInt64) :
      d.status = .claimed → d.claimToken = some claimToken →
      s.currentEpoch d.threadId ≤ d.dispatchEpoch →
      Change s d (.extendLease d.dispatchId claimToken extensionMs now)
        (d.writeLeaseExtension (now + extensionMs) now)
  | cancel (now : UInt64) :
      d.status = .queued → Change s d (.cancel d.dispatchId now) (d.writeCancelled now)
  | interrupted (op : MailboxOp) (now : UInt64) (reason : Option String) :
      d.status = .queued → d.dispatchEpoch ≤ s.currentEpoch d.threadId →
      (op = .interrupt d.threadId now ∨ op = .interruptDetailed d.threadId now) →
      Change s d op (d.writeSuperseded now reason)
  | supersedeClaimed (claimToken : String) (now : UInt64) (reason : String) :
      d.status = .claimed → d.claimToken = some claimToken →
      Change s d (.supersedeClaimed d.dispatchId claimToken now reason)
        (d.writeSupersededAtEpoch now (max d.dispatchEpoch (s.currentEpoch d.threadId))
          (some reason))
  | leaseRequeued (now limit leaseUntil : UInt64) :
      d.status = .claimed → d.leaseUntil = some leaseUntil → leaseUntil < now →
      s.currentEpoch d.threadId ≤ d.dispatchEpoch →
      RunDispatch.saturatingSucc d.attemptCount < d.maxAttempts →
      Change s d (.reclaimExpiredLeases now limit) (d.writeLeaseRequeued now)
  | leaseExhausted (now limit leaseUntil : UInt64) :
      d.status = .claimed → d.leaseUntil = some leaseUntil → leaseUntil < now →
      s.currentEpoch d.threadId ≤ d.dispatchEpoch →
      d.maxAttempts ≤ RunDispatch.saturatingSucc d.attemptCount →
      Change s d (.reclaimExpiredLeases now limit)
        (d.writeLeaseExhausted now MailboxState.reasonLeaseExpiredMaxAttempts)

/-- What one call does to the record stored under `k`. -/
inductive Effect (s : InMemoryMailboxStore) (k : String) :
    MailboxOp → Option RunDispatch → Option RunDispatch → Prop where
  | kept (op : MailboxOp) (x : Option RunDispatch) : Effect s k op x x
  | admitted (d : RunDispatch) (x : Option RunDispatch) :
      d.Valid → d.status = .queued → s.hasDuplicate d = false → d.dispatchId = k →
      Effect s k (.enqueue d) x (some (d.prepareForEnqueue (s.currentEpoch d.threadId)))
  | purged (d : RunDispatch) (olderThan : UInt64) :
      d.status.isTerminal = true → d.updatedAt < olderThan →
      Effect s k (.purgeTerminal olderThan) (some d) none
  | changed (op : MailboxOp) (d d' : RunDispatch) :
      Change s d op d' → Effect s k op (some d) (some d')

/-! ## Calls on one dispatch -/

/-- A call on one dispatch has an effect on its own record only. -/
theorem withDispatch_effect {α : Type} {dispatchId : String} {missing : Outcome α}
    {f : InMemoryMailboxStore → Method Fault RunDispatch α} {s : InMemoryMailboxStore}
    {op : MailboxOp} (hf : ∀ d, s.dispatches.get? dispatchId = some d →
      (f s d).2 = d ∨ Change s d op (f s d).2) (k : String) :
    Effect s k op (s.dispatches.get? k)
      ((withDispatch dispatchId missing f s).2.dispatches.get? k) := by
  rw [withDispatch_get?]
  split
  · rename_i hk
    subst hk
    cases h : s.dispatches.get? k with
    | none => exact .kept _ _
    | some d =>
      rcases hf d h with hkept | hchange
      · simpa only [Option.map_some, hkept] using Effect.kept op (some d)
      · exact .changed _ _ _ hchange
  · exact .kept _ _

/-! ## Calls of a claim holder -/

section WithClaim

variable {α : Type} {dispatchId claimToken : String} {missing rejected : Outcome α}
  {stale : UInt64 → UInt64 → Outcome α} {owns : RunDispatch → Bool} {now : UInt64}
  {reason : String} {transition : Method Fault RunDispatch α} {s : InMemoryMailboxStore}
  {op : MailboxOp}

/-- A claim holder's call has an effect when its transition has one on the
    dispatch it holds. -/
theorem withClaim_effect (hs : s.Coherent)
    (howns : ∀ d, owns d = true → d.claimToken = some claimToken)
    (hop : op.presented = some (dispatchId, claimToken))
    (htrans : ∀ d, d.dispatchId = dispatchId → d.status = .claimed →
      d.claimToken = some claimToken → s.currentEpoch d.threadId ≤ d.dispatchEpoch →
      (transition d).2 = d ∨ Change s d op (transition d).2) (k : String) :
    Effect s k op (s.dispatches.get? k)
      ((withClaim dispatchId missing rejected stale owns now reason transition s).2.dispatches.get?
        k) := by
  refine withDispatch_effect (fun d hd => ?_) k
  have hid := hs.keyed _ _ hd
  by_cases howned : owns d = true
  · have htoken := howns d howned
    have hclaimed : d.status = .claimed := hs.token _ _ hd (by simp [htoken])
    by_cases hstale : d.dispatchEpoch < s.currentEpoch d.threadId
    · right
      have hlive : d.status.isTerminal = false := by rw [hclaimed]; rfl
      simp only [howned, Bool.not_true, Bool.false_eq_true, if_false, hstale, if_true]
      rw [Method.bind_snd_of_read _ fun _ _ => rfl, markSupersededAtEpoch_snd hlive]
      refine .superseded op now _ hlive hstale ?_
      intro id token hpresented
      rw [hop] at hpresented
      cases hpresented
      exact ⟨hid.symm, htoken⟩
    · simp only [howned, Bool.not_true, Bool.false_eq_true, if_false, hstale]
      exact htrans d hid hclaimed htoken (UInt64.not_lt.mp hstale)
  · simp [howned]

/-- A claim holder's call that succeeds ran its transition on the dispatch held,
    with the thread epoch not ahead. -/
theorem withClaim_ok (hs : s.Coherent) {a : α}
    (hok : (withClaim dispatchId missing rejected stale owns now reason transition s).1 = .ok a)
    (howns : ∀ d, owns d = true → d.claimToken = some claimToken)
    (hmissing : missing ≠ .ok a) (hrejected : rejected ≠ .ok a)
    (hstale : ∀ e e', stale e e' ≠ .ok a) :
    ∃ d, s.dispatches.get? dispatchId = some d ∧ d.status = .claimed ∧
      d.claimToken = some claimToken ∧ s.currentEpoch d.threadId ≤ d.dispatchEpoch ∧
      (transition d).1 = .ok a := by
  unfold withClaim withDispatch at hok
  cases hd : s.dispatches.get? dispatchId with
  | none => rw [hd] at hok; exact absurd hok hmissing
  | some d =>
    simp only [hd] at hok
    by_cases howned : owns d = true
    · have htoken := howns d howned
      have hclaimed : d.status = .claimed := hs.token _ _ hd (by simp [htoken])
      by_cases hlt : d.dispatchEpoch < s.currentEpoch d.threadId
      · simp only [howned, Bool.not_true, Bool.false_eq_true, if_false, hlt, if_true,
          Method.bind] at hok
        split at hok
        · cases hok
        · exact absurd hok (hstale _ _)
      · simp only [howned, Bool.not_true, Bool.false_eq_true, if_false, hlt] at hok
        exact ⟨d, rfl, hclaimed, htoken, UInt64.not_lt.mp hlt, hok⟩
    · simp only [howned, Bool.not_false, if_true] at hok
      exact absurd hok hrejected

/-- The holder of a claim that is not stale gets its transition. -/
theorem withClaim_get?_of_fresh {d : RunDispatch} (hd : s.dispatches.get? dispatchId = some d)
    (howned : owns d = true) (he : s.currentEpoch d.threadId ≤ d.dispatchEpoch) :
    (withClaim dispatchId missing rejected stale owns now reason transition s).2.dispatches.get?
      dispatchId = some (transition d).2 := by
  have hfresh : ¬d.dispatchEpoch < s.currentEpoch d.threadId := UInt64.not_lt.mpr he
  rw [withClaim, withDispatch_get?, if_pos rfl, hd, Option.map_some]
  simp only [howned, Bool.not_true, Bool.false_eq_true, if_false, hfresh]

end WithClaim

/-! ## The effect of each call -/

section Effects

variable {s : InMemoryMailboxStore}

theorem ack_effect (hs : s.Coherent) (k : String) (dispatchId claimToken : String) (now : UInt64) :
    Effect s k (.ack dispatchId claimToken now) (s.dispatches.get? k)
      ((ack dispatchId claimToken now s).2.dispatches.get? k) := by
  refine withClaim_effect hs (fun d => claimToken_of_holdsToken) rfl
    (fun d hid hclaimed htoken he => ?_) k
  subst hid
  rw [MailboxState.markAcked, expecting_snd, RunDispatch.markAcked,
    RunDispatch.transition_snd _ _ hclaimed]
  exact .inr (.ack claimToken now hclaimed htoken he)

theorem recordDispatchStart_effect (hs : s.Coherent) (k : String)
    (dispatchId claimToken dispatchInstanceId : String) (now : UInt64) :
    Effect s k (.recordDispatchStart dispatchId claimToken dispatchInstanceId now)
      (s.dispatches.get? k)
      ((recordDispatchStart dispatchId claimToken dispatchInstanceId now s).2.dispatches.get?
        k) := by
  refine withClaim_effect hs (fun d => claimToken_of_holdsClaim) rfl
    (fun d hid hclaimed htoken he => ?_) k
  subst hid
  rw [RunDispatch.recordDispatchStart, RunDispatch.transition_snd _ _ hclaimed]
  exact .inr (.recordDispatchStart claimToken dispatchInstanceId now hclaimed htoken he)

theorem recordRunResult_effect (hs : s.Coherent) (k : String)
    (dispatchId claimToken : String) (result : RunDispatchResult) (now : UInt64) :
    Effect s k (.recordRunResult dispatchId claimToken result now) (s.dispatches.get? k)
      ((recordRunResult dispatchId claimToken result now s).2.dispatches.get? k) := by
  refine withClaim_effect hs (fun d => claimToken_of_holdsClaim) rfl
    (fun d hid hclaimed htoken he => ?_) k
  subst hid
  rcases RunDispatch.recordRunResult_of_status hclaimed result now with
    ⟨hrun, hrec⟩ | ⟨-, e, hrec⟩ <;> rw [hrec]
  · exact .inr (.recordRunResult claimToken result now hclaimed htoken he hrun)
  · exact .inl rfl

theorem nack_effect (hs : s.Coherent) (k : String)
    (dispatchId claimToken : String) (retryAt : UInt64) (error : String) (now : UInt64) :
    Effect s k (.nack dispatchId claimToken retryAt error now) (s.dispatches.get? k)
      ((nack dispatchId claimToken retryAt error now s).2.dispatches.get? k) := by
  refine withClaim_effect hs (fun d => claimToken_of_holdsToken) rfl
    (fun d hid hclaimed htoken he => ?_) k
  subst hid
  rw [MailboxState.markNackResult, expecting_snd, RunDispatch.markNackResult,
    RunDispatch.transition_snd _ _ hclaimed]
  rw [RunDispatch.writeNack_eq]
  split
  · exact .inr (.nackExhausted claimToken retryAt error now hclaimed htoken he ‹_›)
  · exact .inr (.nackRequeued claimToken retryAt error now hclaimed htoken he
      (UInt32.not_le.mp ‹_›))

theorem deadLetter_effect (hs : s.Coherent) (k : String)
    (dispatchId claimToken error : String) (now : UInt64) :
    Effect s k (.deadLetter dispatchId claimToken error now) (s.dispatches.get? k)
      ((deadLetter dispatchId claimToken error now s).2.dispatches.get? k) := by
  refine withClaim_effect hs (fun d => claimToken_of_holdsToken) rfl
    (fun d hid hclaimed htoken he => ?_) k
  subst hid
  rw [MailboxState.markDeadLetter, expecting_snd, RunDispatch.markDeadLetter,
    RunDispatch.transition_snd _ _ hclaimed]
  exact .inr (.deadLetter claimToken error now hclaimed htoken he)

theorem extendLease_effect (hs : s.Coherent) (k : String)
    (dispatchId claimToken : String) (extensionMs now : UInt64) :
    Effect s k (.extendLease dispatchId claimToken extensionMs now) (s.dispatches.get? k)
      ((extendLease dispatchId claimToken extensionMs now s).2.dispatches.get? k) := by
  refine withClaim_effect hs (fun d => claimToken_of_holdsClaim) rfl
    (fun d hid hclaimed htoken he => ?_) k
  subst hid
  cases hadd : Outcome.addU64 now extensionMs with
  | error e => exact .inl rfl
  | ok leaseUntil =>
    have hsum := Outcome.addU64_eq_ok hadd
    subst hsum
    simp only [RunDispatch.extendLease, RunDispatch.transition_snd _ _ hclaimed]
    exact .inr (.extendLease claimToken extensionMs now hclaimed htoken he)

theorem cancel_effect (hs : s.Coherent) (k : String) (dispatchId : String) (now : UInt64) :
    Effect s k (.cancel dispatchId now) (s.dispatches.get? k)
      ((cancel dispatchId now s).2.dispatches.get? k) := by
  refine withDispatch_effect (fun d hd => ?_) k
  have hid := hs.keyed _ _ hd
  subst hid
  by_cases hqueued : d.status = .queued
  · simp only [hqueued, ne_eq, not_true_eq_false, if_false]
    rw [Method.bind_snd_of_read _ fun _ _ => rfl, MailboxState.markCancelled, expecting_snd,
      RunDispatch.markCancelled, RunDispatch.transition_snd _ _ hqueued]
    exact .inr (.cancel now hqueued)
  · simp [hqueued]

theorem supersedeClaimed_effect (hs : s.Coherent) (k : String)
    (dispatchId claimToken : String) (now : UInt64) (reason : String) :
    Effect s k (.supersedeClaimed dispatchId claimToken now reason) (s.dispatches.get? k)
      ((supersedeClaimed dispatchId claimToken now reason s).2.dispatches.get? k) := by
  refine withDispatch_effect (fun d hd => ?_) k
  have hid := hs.keyed _ _ hd
  subst hid
  by_cases hclaimed : d.status = .claimed
  · by_cases htoken : d.claimToken = some claimToken
    · have hlive : d.status.isTerminal = false := by rw [hclaimed]; rfl
      simp only [hclaimed, htoken, ne_eq, not_true_eq_false, if_false]
      rw [Method.bind_snd_of_read _ fun _ _ => rfl, markSupersededAtEpoch_snd hlive]
      exact .inr (.supersedeClaimed claimToken now reason hclaimed htoken)
    · simp [hclaimed, htoken]
  · simp [hclaimed]

theorem claimDispatch_effect (hs : s.Coherent) (k : String)
    (dispatchId consumerId : String) (leaseMs now : UInt64)
    (token : Uuid) :
    Effect s k (.claimDispatch dispatchId consumerId leaseMs now token) (s.dispatches.get? k)
      ((claimDispatch dispatchId consumerId leaseMs now token s).2.dispatches.get? k) := by
  refine withDispatch_effect (fun d hd => ?_) k
  have hid := hs.keyed _ _ hd
  subst hid
  by_cases hqueued : d.status = .queued
  · by_cases hstale : d.dispatchEpoch < s.currentEpoch d.threadId
    · have hlive : d.status.isTerminal = false := by rw [hqueued]; rfl
      simp only [hqueued, ne_eq, not_true_eq_false, if_false, hstale, if_true, Method.map_snd]
      rw [markSupersededAtEpoch_snd hlive]
      exact .inr (.superseded _ now _ hlive hstale (by rintro _ _ ⟨⟩))
    · by_cases hother : s.hasOtherClaimed d.threadId d.dispatchId = true
      · simp [hqueued, hstale, hother]
      · simp only [hqueued, ne_eq, not_true_eq_false, if_false, hstale, hother,
          Bool.false_eq_true, Method.map_snd]
        have hidle := idle_of_hasOtherClaimed hs hd hqueued (by simpa using hother)
        rcases claimRecord_snd hqueued consumerId leaseMs now token with h | h <;> rw [h]
        · exact .inl rfl
        · exact .inr (.claimDispatch consumerId leaseMs now token hqueued
            (UInt64.not_lt.mp hstale) hidle)
  · simp [hqueued]

theorem claim_effect (k : String)
    (threadId consumerId : String) (leaseMs now limit : UInt64) (token : Uuid) :
    Effect s k (.claim threadId consumerId leaseMs now limit token) (s.dispatches.get? k)
      ((claim threadId consumerId leaseMs now limit token s).2.dispatches.get? k) := by
  have hfirst := supersedeStaleQueued_get? threadId now (s.currentEpoch threadId) s
  have hloop : Effect s k (.claim threadId consumerId leaseMs now limit token)
      (s.dispatches.get? k)
      ((supersedeStaleQueued threadId now (s.currentEpoch threadId) s).2.dispatches.get? k) := by
    rcases hfirst k with hkept | ⟨d, hd, ⟨hthread, hqueued, hstale⟩, hat⟩
    · rw [hkept]; exact .kept _ _
    · rw [hat, hd]
      subst hthread
      have hlive : d.status.isTerminal = false := by rw [hqueued]; rfl
      exact .changed _ _ _ (.superseded _ now _ hlive hstale (by rintro _ _ ⟨⟩))
  unfold claim Method.bind
  cases hr : supersedeStaleQueued threadId now (s.currentEpoch threadId) s with
  | mk r s₁ =>
    rw [hr] at hloop hfirst
    cases r with
    | error e => exact hloop
    | ok bs =>
      by_cases hclaimed : s₁.hasClaimed threadId = true
      · simpa only [hclaimed, if_true] using hloop
      · simp only [hclaimed, Bool.false_eq_true, if_false]
        rcases forEach_withDispatch_get? (fun id => Outcome.fail (.notFound id))
            (f := fun _ _ => claimRecord consumerId leaseMs now token)
            (s₁.eligibleIds threadId now limit) (nodup_eligibleIds _ _ _ _) s₁ k with
          hkept | ⟨_, d, hmem, -, hd, hat⟩
        · rw [claimAll, hkept]; exact hloop
        · rw [claimAll, hat]
          obtain ⟨d', hd', hthread, hqueued, havail⟩ := mem_eligibleIds hmem
          rw [hd] at hd'
          cases hd'
          obtain ⟨hbefore, he⟩ := queued_of_supersedeStaleQueued hr hd hthread hqueued
          have hidle := idle_of_supersedeStaleQueued hr (by simpa using hclaimed)
          subst hthread
          rw [hbefore]
          rcases claimRecord_snd hqueued consumerId leaseMs now token with h | h <;> rw [h]
          · exact .kept _ _
          · exact .changed _ _ _ (.claim consumerId leaseMs now limit token hqueued he havail hidle)

theorem reclaimExpiredLeases_effect (hs : s.Coherent) (k : String) (now limit : UInt64) :
    Effect s k (.reclaimExpiredLeases now limit) (s.dispatches.get? k)
      ((reclaimExpiredLeases now limit s).2.dispatches.get? k) := by
  rw [reclaimExpiredLeases, Method.map_snd]
  rcases forEach_withDispatch_get? (fun id => Outcome.fail (.notFound id))
      (f := fun _ s d => reclaimRecord now (s.currentEpoch d.threadId) d)
      (s.expiredIds now limit) (nodup_expiredIds hs _ _) s k with
    hkept | ⟨s₁, d, hmem, hs₁, hd, hat⟩
  · rw [hkept]; exact .kept _ _
  · obtain ⟨d', leaseUntil, hd', hclaimed, hlease, hlt⟩ := mem_expiredIds hs hmem
    rw [hd] at hd'
    cases hd'
    rw [hat, hd, reclaimRecord_snd hclaimed]
    have hepoch : s₁.currentEpoch d.threadId = s.currentEpoch d.threadId := by
      simp only [currentEpoch, hs₁]
    rw [hepoch]
    split
    · rename_i hstale
      have hlive : d.status.isTerminal = false := by rw [hclaimed]; rfl
      exact .changed _ _ _ (.superseded _ now _ hlive hstale (by rintro _ _ ⟨⟩))
    · rename_i hfresh
      have he := UInt64.not_lt.mp hfresh
      rw [RunDispatch.writeExpiredLease_eq]
      split
      · exact .changed _ _ _ (.leaseExhausted now limit leaseUntil hclaimed hlease hlt he ‹_›)
      · exact .changed _ _ _ (.leaseRequeued now limit leaseUntil hclaimed hlease hlt he
          (UInt32.not_le.mp ‹_›))

theorem interruptDetailed_effect {op : MailboxOp} (k : String) (threadId : String) (now : UInt64)
    (hop : op = .interrupt threadId now ∨ op = .interruptDetailed threadId now) :
    Effect s k op (s.dispatches.get? k)
      ((interruptDetailed threadId now s).2.dispatches.get? k) := by
  unfold interruptDetailed
  simp only [currentEpoch_orInsert]
  cases Outcome.addU64 (s.currentEpoch threadId) 1 with
  | error f => exact .kept _ _
  | ok newDispatchEpoch =>
    simp only [Method.map_snd]
    rcases forEach_withDispatch_get? (fun _ => .ok InterruptVisit.skipped)
        (f := fun _ _ => interruptVisit threadId now (s.currentEpoch threadId)) s.dispatches.keys
        s.dispatches.nodup_keys
        ⟨s.dispatches, (s.state.orInsert threadId ⟨0⟩).modify threadId
          fun _ => ⟨newDispatchEpoch⟩⟩ k with hkept | ⟨_, d, -, -, hd, hat⟩
    · rw [interruptVisits, hkept]; exact .kept _ _
    · rw [interruptVisits, hat, interruptVisit_snd]
      have hbefore : s.dispatches.get? k = some d := hd
      rw [hbefore]
      split
      · rename_i h
        obtain ⟨rfl, hqueued, he⟩ := h
        exact .changed _ _ _ (.interrupted op now _ hqueued he hop)
      · exact .kept _ _

theorem purgeTerminal_effect (k : String) (olderThan : UInt64) :
    Effect s k (.purgeTerminal olderThan) (s.dispatches.get? k)
      ((purgeTerminal olderThan s).2.dispatches.get? k) := by
  simp only [purgeTerminal, AssocMap.get?_retain]
  cases hd : s.dispatches.get? k with
  | none => exact .kept _ _
  | some d =>
    rw [Option.filter_some]
    split
    · exact .kept _ _
    · rename_i h
      simp only [Bool.not_eq_true', Bool.not_eq_false, Bool.and_eq_true, decide_eq_true_eq] at h
      exact .purged d olderThan h.1 h.2

theorem enqueue_effect (k : String) (dispatch : RunDispatch) :
    Effect s k (.enqueue dispatch) (s.dispatches.get? k)
      ((enqueue dispatch s).2.dispatches.get? k) := by
  unfold enqueue
  cases hv : dispatch.validateForEnqueue with
  | error e => exact .kept _ _
  | ok _ =>
    obtain ⟨hvalid, hqueued⟩ := RunDispatch.validateForEnqueue_ok.mp hv
    by_cases hdup : s.hasDuplicate dispatch = true
    · simp only [hdup, if_true]; exact .kept _ _
    · simp only [hdup, Bool.false_eq_true, if_false, currentEpoch_orInsert]
      rw [RunDispatch.validateForPersist_ok.mpr (RunDispatch.prepareForEnqueue_valid hvalid _)]
      simp only [AssocMap.get?_insert]
      split
      · rename_i hk
        exact .admitted dispatch _ hvalid hqueued (by simpa using hdup) hk.symm
      · exact .kept _ _

/-- A call leaves the record under an id as it is, admits it, purges it, or
    changes it as `Change` says. -/
theorem call_effect (hs : s.Coherent) (k : String) (op : MailboxOp) :
    Effect s k op (s.dispatches.get? k) ((call op s).2.dispatches.get? k) := by
  cases op with
  | enqueue dispatch => simpa only [call, Method.map_snd] using enqueue_effect k dispatch
  | claim threadId consumerId leaseMs now limit token =>
    exact claim_effect k threadId consumerId leaseMs now limit token
  | claimDispatch dispatchId consumerId leaseMs now token =>
    exact claimDispatch_effect hs k dispatchId consumerId leaseMs now token
  | ack dispatchId claimToken now => exact ack_effect hs k dispatchId claimToken now
  | recordDispatchStart dispatchId claimToken dispatchInstanceId now =>
    exact recordDispatchStart_effect hs k dispatchId claimToken dispatchInstanceId now
  | recordRunResult dispatchId claimToken result now =>
    exact recordRunResult_effect hs k dispatchId claimToken result now
  | nack dispatchId claimToken retryAt error now =>
    exact nack_effect hs k dispatchId claimToken retryAt error now
  | deadLetter dispatchId claimToken error now =>
    exact deadLetter_effect hs k dispatchId claimToken error now
  | cancel dispatchId now => exact cancel_effect hs k dispatchId now
  | extendLease dispatchId claimToken extensionMs now =>
    exact extendLease_effect hs k dispatchId claimToken extensionMs now
  | interrupt threadId now => exact interruptDetailed_effect k threadId now (.inl rfl)
  | interruptDetailed threadId now => exact interruptDetailed_effect k threadId now (.inr rfl)
  | supersedeClaimed dispatchId claimToken now reason =>
    exact supersedeClaimed_effect hs k dispatchId claimToken now reason
  | reclaimExpiredLeases now limit => exact reclaimExpiredLeases_effect hs k now limit
  | purgeTerminal olderThan => exact purgeTerminal_effect k olderThan
  | currentDispatchEpoch | loadDispatch | listDispatches | countDispatchesByStatus
  | listTerminalDispatches | queuedThreadIds => exact .kept _ _

end Effects

end InMemoryMailboxStore

end Remo
