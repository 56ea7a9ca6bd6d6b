import Remo.Spec.Mailbox.StoreSteps

/-!
# Failed transitions of a dispatch record

A transition checks the status first, then writes its fields, and validates the
record last. A refused status leaves the record as it was; a refused record stays
written.

Key results:
- `keepsOnError_transition`: when a transition of the common shape keeps the
  record it fails on
- `Transition.keepsOnError_iff`: the same for every lifecycle transition, in terms
  of the record and the arguments
-/

namespace Remo.RunDispatch

open Method (KeepsOnError)

/-! ## The common shape -/

/-- In the expected status, a transition keeps a record it fails on exactly when
    what it writes is valid, or is what was there. -/
theorem keepsOnError_write {x : Method StorageError RunDispatch Unit} {d d' : RunDispatch}
    (h : x d = (d'.validateForPersist, d')) : KeepsOnError x d ↔ d'.Valid ∨ d' = d := by
  cases hcheck : d'.validateForPersist with
  | ok u =>
    have hvalid : d'.Valid := validateForPersist_ok.mp hcheck
    have hkeeps : KeepsOnError x d := by
      intro e he
      rw [h, hcheck] at he
      cases he
    exact iff_of_true hkeeps (.inl hvalid)
  | error e =>
    have hinvalid : ¬d'.Valid := by
      intro hv
      rw [validateForPersist_ok.mpr hv] at hcheck
      cases hcheck
    rw [Method.keepsOnError_of_error (h.trans (by rw [hcheck]))]
    simp [hinvalid]

theorem keepsOnError_transition (expected : RunDispatchStatus) (name : String)
    (write : RunDispatch → RunDispatch) (d : RunDispatch) :
    KeepsOnError (transition expected name write) d ↔
      (d.status = expected → (write d).Valid ∨ write d = d) := by
  by_cases hs : d.status = expected
  · rw [keepsOnError_write (transition_of_status name write hs)]
    simp [hs]
  · obtain ⟨e, he⟩ := transition_of_ne name write hs
    rw [Method.keepsOnError_of_error he]
    simp [hs]

/-- A transition that moves the record to another status. -/
theorem keepsOnError_move {expected : RunDispatchStatus} (name : String)
    {write : RunDispatch → RunDispatch} {d : RunDispatch} (hmove : (write d).status ≠ expected) :
    KeepsOnError (transition expected name write) d ↔
      (d.status = expected → (write d).Valid) := by
  rw [keepsOnError_transition]
  have hne : d.status = expected → write d ≠ d := by
    intro hs heq
    rw [heq] at hmove
    exact hmove hs
  constructor
  · intro h hs
    exact (h hs).resolve_right (hne hs)
  · intro h hs
    exact .inl (h hs)

/-! ## When what is written is valid -/

/-- Identity is in order, and so is the retry budget with one more attempt counted. -/
structure Countable (d : RunDispatch) : Prop where
  dispatchId : Str.isBlank d.dispatchId = false
  threadId : Str.isBlank d.threadId = false
  runId : Str.isBlank d.runId = false
  attempts : saturatingSucc d.attemptCount ≤ d.maxAttempts

instance (d : RunDispatch) : Decidable d.Identified :=
  decidable_of_iff _ validateIdentityAndRetry_ok

theorem saturatingSucc_ne_zero (n : UInt32) : saturatingSucc n ≠ 0 := by
  unfold saturatingSucc
  split <;> grind

/-- A record that differs in lifecycle fields only is identified alike. -/
theorem identified_congr {d d' : RunDispatch} (hdisp : d'.dispatchId = d.dispatchId)
    (hthread : d'.threadId = d.threadId) (hrun : d'.runId = d.runId)
    (hmax : d'.maxAttempts = d.maxAttempts) (hattempts : d'.attemptCount = d.attemptCount) :
    d'.Identified ↔ d.Identified :=
  ⟨fun h => h.congr hdisp.symm hthread.symm hrun.symm hmax.symm hattempts.symm,
    fun h => h.congr hdisp hthread hrun hmax hattempts⟩

/-- A record with an attempt counted on top is identified when there was room for it. -/
theorem identified_counted {d d' : RunDispatch} (hdisp : d'.dispatchId = d.dispatchId)
    (hthread : d'.threadId = d.threadId) (hrun : d'.runId = d.runId)
    (hmax : d'.maxAttempts = d.maxAttempts)
    (hattempts : d'.attemptCount = saturatingSucc d.attemptCount) :
    d'.Identified ↔ d.Countable := by
  constructor
  · intro h
    exact ⟨hdisp ▸ h.dispatchId, hthread ▸ h.threadId, hrun ▸ h.runId,
      hattempts ▸ hmax ▸ h.attempts⟩
  · intro h
    have hbudget : d.maxAttempts ≠ 0 := by
      intro hzero
      have hle := h.attempts
      rw [hzero] at hle
      exact saturatingSucc_ne_zero _ (UInt32.le_zero_iff.mp hle)
    exact ⟨hdisp ▸ h.dispatchId, hthread ▸ h.threadId, hrun ▸ h.runId, hmax ▸ hbudget,
      hattempts ▸ hmax ▸ h.attempts⟩

theorem valid_writeClaimed (d : RunDispatch) (consumerId claimToken : String)
    (leaseUntil now : UInt64) :
    (d.writeClaimed consumerId claimToken leaseUntil now).Valid ↔
      d.Identified ∧ Str.isBlank consumerId = false ∧ Str.isBlank claimToken = false := by
  have hid : (d.writeClaimed consumerId claimToken leaseUntil now).Identified ↔ d.Identified :=
    identified_congr rfl rfl rfl rfl rfl
  constructor
  · intro hv
    have hleased := hv.claimed rfl
    exact ⟨hid.mp hv.identified, hleased.claimedBy, hleased.claimToken⟩
  · intro h
    exact (hid.mpr h.1).valid_claimed rfl ⟨h.2.2, h.2.1, rfl⟩

/-- A claimed record rewritten but for identity and lease. -/
theorem valid_claimed_iff {d d' : RunDispatch} (hid : d'.Identified ↔ d.Identified)
    (hs : d'.status = .claimed) : d'.Valid ↔ d.Identified ∧ d'.Leased := by
  constructor
  · intro hv
    exact ⟨hid.mp hv.identified, hv.claimed hs⟩
  · intro h
    exact (hid.mpr h.1).valid_claimed hs h.2

/-- A record moved to a terminal status without lease and with a completion time. -/
theorem valid_terminal_iff {d' : RunDispatch} (hs : d'.status.isTerminal = true)
    (hu : d'.Unclaimed) (hc : d'.completedAt.isSome = true) : d'.Valid ↔ d'.Identified :=
  ⟨fun hv => hv.identified, fun hid => hid.valid_terminal hs hu hc⟩

theorem valid_writeNack (d : RunDispatch) (now retryAt : UInt64) (error : String) :
    (d.writeNack now retryAt error).Valid ↔ d.Countable := by
  rw [writeNack_eq]
  split
  · have hid : (d.writeNackExhausted now error).Identified ↔ d.Countable :=
      identified_counted rfl rfl rfl rfl rfl
    exact (valid_terminal_iff rfl ⟨rfl, rfl, rfl⟩ rfl).trans hid
  · have hid : (d.writeNackRequeued now retryAt error).Identified ↔ d.Countable :=
      identified_counted rfl rfl rfl rfl rfl
    exact ⟨fun hv => hid.mp hv.identified,
      fun h => (hid.mpr h).valid_queued rfl ⟨rfl, rfl, rfl⟩ rfl ⟨rfl, rfl, rfl, rfl, rfl⟩⟩

theorem valid_writeExpiredLease (d : RunDispatch) (now : UInt64) (maxAttemptsError : String) :
    (d.writeExpiredLease now maxAttemptsError).Valid ↔ d.Countable := by
  rw [writeExpiredLease_eq]
  split
  · have hid : (d.writeLeaseExhausted now maxAttemptsError).Identified ↔ d.Countable :=
      identified_counted rfl rfl rfl rfl rfl
    exact (valid_terminal_iff rfl ⟨rfl, rfl, rfl⟩ rfl).trans hid
  · have hid : (d.writeLeaseRequeued now).Identified ↔ d.Countable :=
      identified_counted rfl rfl rfl rfl rfl
    exact ⟨fun hv => hid.mp hv.identified,
      fun h => (hid.mpr h).valid_queued rfl ⟨rfl, rfl, rfl⟩ rfl ⟨rfl, rfl, rfl, rfl, rfl⟩⟩

/-- A nack moves the record out of its claim. -/
theorem status_writeNack (d : RunDispatch) (now retryAt : UInt64) (error : String) :
    (d.writeNack now retryAt error).status ≠ .claimed := by
  rw [writeNack_eq]
  split <;> simp [writeNackExhausted, writeNackRequeued, clearClaimFields, clearRuntimeProjection]

/-- A lease expiry moves the record out of its claim. -/
theorem status_writeExpiredLease (d : RunDispatch) (now : UInt64) (maxAttemptsError : String) :
    (d.writeExpiredLease now maxAttemptsError).status ≠ .claimed := by
  rw [writeExpiredLease_eq]
  split <;> simp [writeLeaseExhausted, writeLeaseRequeued, clearClaimFields,
    clearRuntimeProjection]

/-! ## The transitions -/

/-- The transition methods of a dispatch record with their arguments. -/
inductive Transition where
  | claim (consumerId claimToken : String) (leaseUntil now : UInt64)
  | extendLease (leaseUntil now : UInt64)
  | recordDispatchStart (dispatchInstanceId : String) (now : UInt64)
  | recordRunResult (result : RunDispatchResult) (now : UInt64)
  | markAcked (now : UInt64)
  | markCancelled (now : UInt64)
  | markSuperseded (now : UInt64) (reason : Option String)
  | markSupersededAtEpoch (now epoch : UInt64) (reason : Option String)
  | markDeadLetter (now : UInt64) (error : String)
  | markNackResult (now retryAt : UInt64) (error : String)
  | markExpiredLease (now : UInt64) (maxAttemptsError : String)

namespace Transition

/-- Run the transition. -/
def apply : Transition → Method StorageError RunDispatch Unit
  | claim consumerId claimToken leaseUntil now =>
    RunDispatch.claim consumerId claimToken leaseUntil now
  | extendLease leaseUntil now => RunDispatch.extendLease leaseUntil now
  | recordDispatchStart dispatchInstanceId now =>
    RunDispatch.recordDispatchStart dispatchInstanceId now
  | recordRunResult result now => RunDispatch.recordRunResult result now
  | markAcked now => RunDispatch.markAcked now
  | markCancelled now => RunDispatch.markCancelled now
  | markSuperseded now reason => RunDispatch.markSuperseded now reason
  | markSupersededAtEpoch now epoch reason => RunDispatch.markSupersededAtEpoch now epoch reason
  | markDeadLetter now error => RunDispatch.markDeadLetter now error
  | markNackResult now retryAt error => RunDispatch.markNackResult now retryAt error
  | markExpiredLease now maxAttemptsError => RunDispatch.markExpiredLease now maxAttemptsError

end Transition

/-- The record shows the start of `dispatchInstanceId` at `now` already. -/
structure ShowsStart (d : RunDispatch) (dispatchInstanceId : String) (now : UInt64) : Prop where
  dispatchInstanceId : d.dispatchInstanceId = some dispatchInstanceId
  runStatus : d.runStatus = some .running
  termination : d.termination = none
  runResponse : d.runResponse = none
  runError : d.runError = none
  completedAt : d.completedAt = none
  updatedAt : d.updatedAt = now

/-- The record shows `result` as of `now` already. -/
structure ShowsResult (d : RunDispatch) (result : RunDispatchResult) (now : UInt64) : Prop where
  dispatchInstanceId : d.dispatchInstanceId = some result.dispatchInstanceId
  runStatus : d.runStatus = some result.status
  termination : d.termination = result.termination
  runResponse : d.runResponse = result.response
  runError : d.runError = result.error
  completedAt : d.completedAt = some now
  updatedAt : d.updatedAt = now

theorem writeDispatchStart_eq_self {d : RunDispatch} {dispatchInstanceId : String} {now : UInt64} :
    d.writeDispatchStart dispatchInstanceId now = d ↔ d.ShowsStart dispatchInstanceId now := by
  constructor
  · intro h
    rw [← h]
    exact ⟨rfl, rfl, rfl, rfl, rfl, rfl, rfl⟩
  · intro h
    cases d
    cases h
    simp_all [writeDispatchStart]

theorem writeRunResult_eq_self {d : RunDispatch} {result : RunDispatchResult} {now : UInt64} :
    d.writeRunResult result now = d ↔ d.ShowsResult result now := by
  constructor
  · intro h
    rw [← h]
    exact ⟨rfl, rfl, rfl, rfl, rfl, rfl, rfl⟩
  · intro h
    cases d
    cases h
    simp_all [writeRunResult]

theorem writeLeaseExtension_eq_self {d : RunDispatch} {leaseUntil now : UInt64} :
    d.writeLeaseExtension leaseUntil now = d ↔
      d.leaseUntil = some leaseUntil ∧ d.updatedAt = now := by
  constructor
  · intro h
    rw [← h]
    exact ⟨rfl, rfl⟩
  · intro h
    cases d
    simp_all [writeLeaseExtension]

namespace Transition

/-- The records a transition fails on without a trace, if it fails at all. -/
def Harmless : Transition → RunDispatch → Prop
  | claim consumerId claimToken _ _, d => d.status = .queued →
    d.Identified ∧ Str.isBlank consumerId = false ∧ Str.isBlank claimToken = false
  | extendLease leaseUntil now, d => d.status = .claimed →
    (d.Identified ∧ d.claimToken.all Str.isBlank = false ∧ d.claimedBy.all Str.isBlank = false) ∨
      (d.leaseUntil = some leaseUntil ∧ d.updatedAt = now)
  | recordDispatchStart dispatchInstanceId now, d => d.status = .claimed →
    (d.Identified ∧ d.Leased) ∨ d.ShowsStart dispatchInstanceId now
  | recordRunResult result now, d => d.status = .claimed → result.runId = d.runId →
    (d.Identified ∧ d.Leased) ∨ d.ShowsResult result now
  | markAcked _, d | markDeadLetter _ _, d => d.status = .claimed → d.Identified
  | markCancelled _, d | markSuperseded _ _, d => d.status = .queued → d.Identified
  -- the epoch is written before the status is looked at
  | markSupersededAtEpoch _ epoch _, d =>
    if d.status.isTerminal = true then d.dispatchEpoch = epoch else d.Identified
  | markNackResult _ _ _, d | markExpiredLease _ _, d => d.status = .claimed → d.Countable

end Transition

/-! ## One lemma for each of them -/

theorem keepsOnError_claim (consumerId claimToken : String) (leaseUntil now : UInt64)
    (d : RunDispatch) : KeepsOnError (claim consumerId claimToken leaseUntil now) d ↔
      (Transition.claim consumerId claimToken leaseUntil now).Harmless d := by
  have hmove : (d.writeClaimed consumerId claimToken leaseUntil now).status ≠ .queued := by
    simp [writeClaimed]
  rw [claim, keepsOnError_move "claim" hmove, valid_writeClaimed]
  rfl

theorem keepsOnError_extendLease (leaseUntil now : UInt64) (d : RunDispatch) :
    KeepsOnError (extendLease leaseUntil now) d ↔
      (Transition.extendLease leaseUntil now).Harmless d := by
  have hid : (d.writeLeaseExtension leaseUntil now).Identified ↔ d.Identified :=
    identified_congr rfl rfl rfl rfl rfl
  have hleased : (d.writeLeaseExtension leaseUntil now).Leased ↔
      d.claimToken.all Str.isBlank = false ∧ d.claimedBy.all Str.isBlank = false :=
    ⟨fun h => ⟨h.claimToken, h.claimedBy⟩, fun h => ⟨h.1, h.2, rfl⟩⟩
  rw [extendLease, keepsOnError_transition]
  apply forall_congr'
  intro hs
  rw [valid_claimed_iff hid hs, hleased, writeLeaseExtension_eq_self]

/-- The lease is not touched by a runtime start. -/
theorem keepsOnError_recordDispatchStart (dispatchInstanceId : String) (now : UInt64)
    (d : RunDispatch) : KeepsOnError (recordDispatchStart dispatchInstanceId now) d ↔
      (Transition.recordDispatchStart dispatchInstanceId now).Harmless d := by
  have hid : (d.writeDispatchStart dispatchInstanceId now).Identified ↔ d.Identified :=
    identified_congr rfl rfl rfl rfl rfl
  have hleased : (d.writeDispatchStart dispatchInstanceId now).Leased ↔ d.Leased :=
    ⟨fun h => ⟨h.claimToken, h.claimedBy, h.leaseUntil⟩,
      fun h => ⟨h.claimToken, h.claimedBy, h.leaseUntil⟩⟩
  rw [recordDispatchStart, keepsOnError_transition]
  apply forall_congr'
  intro hs
  rw [valid_claimed_iff hid hs, hleased, writeDispatchStart_eq_self]

/-- A result for another run is refused before anything is written. -/
theorem keepsOnError_recordRunResult (result : RunDispatchResult) (now : UInt64)
    (d : RunDispatch) : KeepsOnError (recordRunResult result now) d ↔
      (Transition.recordRunResult result now).Harmless d := by
  by_cases hs : d.status = .claimed
  · have hid : (d.writeRunResult result now).Identified ↔ d.Identified :=
      identified_congr rfl rfl rfl rfl rfl
    have hleased : (d.writeRunResult result now).Leased ↔ d.Leased :=
      ⟨fun h => ⟨h.claimToken, h.claimedBy, h.leaseUntil⟩,
        fun h => ⟨h.claimToken, h.claimedBy, h.leaseUntil⟩⟩
    rcases recordRunResult_of_status hs result now with ⟨hrun, heq⟩ | ⟨hrun, e, heq⟩
    · rw [keepsOnError_write heq, valid_claimed_iff hid hs, hleased, writeRunResult_eq_self]
      simp [Transition.Harmless, hs, hrun]
    · rw [Method.keepsOnError_of_error heq]
      simp [Transition.Harmless, hrun]
  · have heq : ∃ e, recordRunResult result now d = (.error e, d) := by
      simp [recordRunResult, requireStatus, hs]
    obtain ⟨e, he⟩ := heq
    rw [Method.keepsOnError_of_error he]
    simp [Transition.Harmless, hs]

/-- A transition that ends the lifecycle of an identified record. -/
theorem keepsOnError_terminal {expected : RunDispatchStatus} (name : String)
    {write : RunDispatch → RunDispatch} {d : RunDispatch} (hexpected : expected.isTerminal = false)
    (hid : (write d).Identified ↔ d.Identified) (hs : (write d).status.isTerminal = true)
    (hu : (write d).Unclaimed) (hc : (write d).completedAt.isSome = true) :
    KeepsOnError (transition expected name write) d ↔ (d.status = expected → d.Identified) := by
  have hmove : (write d).status ≠ expected := by
    intro heq
    rw [heq, hexpected] at hs
    cases hs
  rw [keepsOnError_move name hmove, valid_terminal_iff hs hu hc, hid]

theorem keepsOnError_markAcked (now : UInt64) (d : RunDispatch) :
    KeepsOnError (markAcked now) d ↔ (Transition.markAcked now).Harmless d :=
  keepsOnError_terminal "ack" rfl (identified_congr rfl rfl rfl rfl rfl) rfl ⟨rfl, rfl, rfl⟩ rfl

theorem keepsOnError_markCancelled (now : UInt64) (d : RunDispatch) :
    KeepsOnError (markCancelled now) d ↔ (Transition.markCancelled now).Harmless d :=
  keepsOnError_terminal "cancel" rfl (identified_congr rfl rfl rfl rfl rfl) rfl ⟨rfl, rfl, rfl⟩ rfl

theorem keepsOnError_markSuperseded (now : UInt64) (reason : Option String) (d : RunDispatch) :
    KeepsOnError (markSuperseded now reason) d ↔
      (Transition.markSuperseded now reason).Harmless d :=
  keepsOnError_terminal "supersede" rfl (identified_congr rfl rfl rfl rfl rfl) rfl
    ⟨rfl, rfl, rfl⟩ rfl

theorem keepsOnError_markDeadLetter (now : UInt64) (error : String) (d : RunDispatch) :
    KeepsOnError (markDeadLetter now error) d ↔
      (Transition.markDeadLetter now error).Harmless d :=
  keepsOnError_terminal "dead letter" rfl (identified_congr rfl rfl rfl rfl rfl) rfl
    ⟨rfl, rfl, rfl⟩ rfl

/-- An epoch supersede refuses a terminal record after it wrote the epoch. -/
theorem keepsOnError_markSupersededAtEpoch (now epoch : UInt64) (reason : Option String)
    (d : RunDispatch) : KeepsOnError (markSupersededAtEpoch now epoch reason) d ↔
      (Transition.markSupersededAtEpoch now epoch reason).Harmless d := by
  cases hterminal : d.status.isTerminal with
  | true =>
    have heq : ∃ e, markSupersededAtEpoch now epoch reason d =
        (.error e, { d with dispatchEpoch := epoch }) := by
      unfold markSupersededAtEpoch
      cases hs : d.status with
      | queued => simp [hs, RunDispatchStatus.isTerminal] at hterminal
      | claimed => simp [hs, RunDispatchStatus.isTerminal] at hterminal
      | acked => exact ⟨_, rfl⟩
      | cancelled => exact ⟨_, rfl⟩
      | superseded => exact ⟨_, rfl⟩
      | deadLetter => exact ⟨_, rfl⟩
    have hsame : { d with dispatchEpoch := epoch } = d ↔ d.dispatchEpoch = epoch := by
      constructor
      · intro h
        rw [← h]
      · intro h
        subst h
        rfl
    obtain ⟨e, he⟩ := heq
    rw [Method.keepsOnError_of_error he, hsame]
    simp [Transition.Harmless, hterminal]
  | false =>
    have hid : (d.writeSupersededAtEpoch now epoch reason).Identified ↔ d.Identified :=
      identified_congr rfl rfl rfl rfl rfl
    have hne : d.writeSupersededAtEpoch now epoch reason ≠ d := by
      intro heq
      have hsup : d.status = .superseded := by rw [← heq]; rfl
      rw [hsup] at hterminal
      cases hterminal
    rw [keepsOnError_write (markSupersededAtEpoch_of_live hterminal now epoch reason),
      valid_terminal_iff rfl ⟨rfl, rfl, rfl⟩ rfl, hid]
    simp [Transition.Harmless, hterminal, hne]

theorem keepsOnError_markNackResult (now retryAt : UInt64) (error : String) (d : RunDispatch) :
    KeepsOnError (markNackResult now retryAt error) d ↔
      (Transition.markNackResult now retryAt error).Harmless d := by
  rw [markNackResult, keepsOnError_move "nack" (status_writeNack d now retryAt error),
    valid_writeNack]
  rfl

theorem keepsOnError_markExpiredLease (now : UInt64) (maxAttemptsError : String)
    (d : RunDispatch) : KeepsOnError (markExpiredLease now maxAttemptsError) d ↔
      (Transition.markExpiredLease now maxAttemptsError).Harmless d := by
  rw [markExpiredLease, keepsOnError_move "lease expiration"
    (status_writeExpiredLease d now maxAttemptsError), valid_writeExpiredLease]
  rfl

/-- A transition that fails leaves the record as it was exactly on the harmless
    records: what it writes there passes its own check, or is there already. -/
theorem Transition.keepsOnError_iff (t : Transition) (d : RunDispatch) :
    KeepsOnError t.apply d ↔ t.Harmless d := by
  cases t with
  | claim consumerId claimToken leaseUntil now =>
    exact keepsOnError_claim consumerId claimToken leaseUntil now d
  | extendLease leaseUntil now => exact keepsOnError_extendLease leaseUntil now d
  | recordDispatchStart dispatchInstanceId now =>
    exact keepsOnError_recordDispatchStart dispatchInstanceId now d
  | recordRunResult result now => exact keepsOnError_recordRunResult result now d
  | markAcked now => exact keepsOnError_markAcked now d
  | markCancelled now => exact keepsOnError_markCancelled now d
  | markSuperseded now reason => exact keepsOnError_markSuperseded now reason d
  | markSupersededAtEpoch now epoch reason =>
    exact keepsOnError_markSupersededAtEpoch now epoch reason d
  | markDeadLetter now error => exact keepsOnError_markDeadLetter now error d
  | markNackResult now retryAt error => exact keepsOnError_markNackResult now retryAt error d
  | markExpiredLease now maxAttemptsError =>
    exact keepsOnError_markExpiredLease now maxAttemptsError d

end Remo.RunDispatch
