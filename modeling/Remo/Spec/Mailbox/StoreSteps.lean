import Remo.ForStd.Except
import Remo.Native.Mailbox.Memory

/-!
# Steps of the in-memory mailbox store

When the transitions of a dispatch succeed, and what the building blocks of the store's calls
leave.
-/

/-! ## Validity of dispatch records

`RunDispatch.Valid` says in words what `validateForPersist` checks. The lemmas
of this file give, for every lifecycle transition, the record it leaves and
when its final check succeeds.
-/

namespace Remo.RunDispatch

/-- Identity and retry budget are in order. -/
structure Identified (d : RunDispatch) : Prop where
  dispatchId : Str.isBlank d.dispatchId = false
  threadId : Str.isBlank d.threadId = false
  runId : Str.isBlank d.runId = false
  budget : d.maxAttempts ≠ 0
  attempts : d.attemptCount ≤ d.maxAttempts

/-- The dispatch carries no lease. -/
structure Unclaimed (d : RunDispatch) : Prop where
  claimToken : d.claimToken = none
  claimedBy : d.claimedBy = none
  leaseUntil : d.leaseUntil = none

/-- The dispatch carries no runtime trace. -/
structure NoProjection (d : RunDispatch) : Prop where
  dispatchInstanceId : d.dispatchInstanceId = none
  runStatus : d.runStatus = none
  termination : d.termination = none
  runResponse : d.runResponse = none
  runError : d.runError = none

/-- The dispatch carries a complete lease. -/
structure Leased (d : RunDispatch) : Prop where
  claimToken : d.claimToken.all Str.isBlank = false
  claimedBy : d.claimedBy.all Str.isBlank = false
  leaseUntil : d.leaseUntil.isSome = true

/-- The lifecycle invariant of a persisted dispatch. -/
structure Valid (d : RunDispatch) : Prop where
  identified : d.Identified
  queued : d.status = .queued → d.Unclaimed ∧ d.completedAt = none ∧ d.NoProjection
  claimed : d.status = .claimed → d.Leased
  terminal : d.status.isTerminal = true → d.Unclaimed ∧ d.completedAt.isSome = true

/-! ## The checks decide validity -/

theorem validateIdentityAndRetry_ok {d : RunDispatch} :
    d.validateIdentityAndRetry = .ok () ↔ d.Identified := by
  unfold validateIdentityAndRetry
  simp only [bind_ok, requireNonEmpty_ok, throw_or_ok, throw_unless_ok, UInt32.not_lt]
  constructor
  · rintro ⟨hid, hthread, hrun, hbudget, hattempts⟩
    exact ⟨hid, hthread, hrun, hbudget, hattempts⟩
  · rintro ⟨hid, hthread, hrun, hbudget, hattempts⟩
    exact ⟨hid, hthread, hrun, hbudget, hattempts⟩

theorem validateQueued_ok {d : RunDispatch} :
    d.validateQueued = .ok () ↔ d.Unclaimed ∧ d.completedAt = none ∧ d.NoProjection := by
  unfold validateQueued
  simp only [throw_or_ok, throw_unless_ok, Bool.or_eq_true, not_or,
    Option.not_isSome_iff_eq_none, and_assoc]
  constructor
  · rintro ⟨htoken, hby, hlease, hcompleted, hinst, hrun, hterm, hresp, herr⟩
    exact ⟨⟨htoken, hby, hlease⟩, hcompleted, ⟨hinst, hrun, hterm, hresp, herr⟩⟩
  · rintro ⟨⟨htoken, hby, hlease⟩, hcompleted, ⟨hinst, hrun, hterm, hresp, herr⟩⟩
    exact ⟨htoken, hby, hlease, hcompleted, hinst, hrun, hterm, hresp, herr⟩

theorem validateClaimed_ok {d : RunDispatch} : d.validateClaimed = .ok () ↔ d.Leased := by
  unfold validateClaimed
  constructor
  · intro h
    split at h
    · cases h
    · rename_i hok
      simp only [Bool.or_eq_true, not_or, Bool.not_eq_true, Option.isNone_eq_false_iff] at hok
      exact ⟨hok.1.1, hok.1.2, hok.2⟩
  · rintro ⟨htoken, hby, hlease⟩
    simp [htoken, hby, Option.isSome_iff_ne_none.mp hlease]

theorem validateTerminal_ok {d : RunDispatch} :
    d.validateTerminal = .ok () ↔ d.Unclaimed ∧ d.completedAt.isSome = true := by
  unfold validateTerminal
  simp only [throw_or_ok, throw_unless_ok, Bool.or_eq_true, not_or,
    Option.not_isSome_iff_eq_none, and_assoc, Option.isNone_iff_eq_none,
    ← Option.isSome_iff_ne_none]
  constructor
  · rintro ⟨htoken, hby, hlease, hcompleted⟩
    exact ⟨⟨htoken, hby, hlease⟩, hcompleted⟩
  · rintro ⟨⟨htoken, hby, hlease⟩, hcompleted⟩
    exact ⟨htoken, hby, hlease, hcompleted⟩

/-- `validateForPersist` accepts exactly the valid records. -/
theorem validateForPersist_ok {d : RunDispatch} : d.validateForPersist = .ok () ↔ d.Valid := by
  unfold validateForPersist
  simp only [bind_ok, validateIdentityAndRetry_ok]
  constructor
  · rintro ⟨hid, hstatus⟩
    refine ⟨hid, ?_, ?_, ?_⟩
    · intro hs
      rw [hs] at hstatus
      exact validateQueued_ok.mp hstatus
    · intro hs
      rw [hs] at hstatus
      exact validateClaimed_ok.mp hstatus
    · intro hs
      cases hd : d.status <;> rw [hd] at hstatus hs
      case queued | claimed => cases hs
      all_goals exact validateTerminal_ok.mp hstatus
  · intro hv
    refine ⟨hv.identified, ?_⟩
    cases hd : d.status
    case queued => exact validateQueued_ok.mpr (hv.queued hd)
    case claimed => exact validateClaimed_ok.mpr (hv.claimed hd)
    all_goals exact validateTerminal_ok.mpr (hv.terminal (by rw [hd]; rfl))

/-- Admission accepts the valid records that are queued. -/
theorem validateForEnqueue_ok {d : RunDispatch} :
    d.validateForEnqueue = .ok () ↔ d.Valid ∧ d.status = .queued := by
  unfold validateForEnqueue
  simp only [bind_ok, validateIdentityAndRetry_ok, throw_or_ok, not_not, validateQueued_ok]
  constructor
  · rintro ⟨hid, hs, hq⟩
    exact ⟨⟨hid, fun _ => hq, fun h => by simp [hs] at h,
      fun h => by simp [hs, RunDispatchStatus.isTerminal] at h⟩, hs⟩
  · rintro ⟨hv, hs⟩
    exact ⟨hv.identified, hs, hv.queued hs⟩

/-! ## Validity of a rewritten record -/

/-- A record without lease, projection and completion time is valid when queued. -/
theorem Identified.valid_queued {d : RunDispatch} (hid : d.Identified) (hs : d.status = .queued)
    (hu : d.Unclaimed) (hc : d.completedAt = none) (hp : d.NoProjection) : d.Valid :=
  ⟨hid, fun _ => ⟨hu, hc, hp⟩, fun h => by simp [hs] at h,
    fun h => by simp [hs, RunDispatchStatus.isTerminal] at h⟩

/-- A record with a complete lease is valid when claimed. -/
theorem Identified.valid_claimed {d : RunDispatch} (hid : d.Identified) (hs : d.status = .claimed)
    (hl : d.Leased) : d.Valid :=
  ⟨hid, fun h => by simp [hs] at h, fun _ => hl,
    fun h => by simp [hs, RunDispatchStatus.isTerminal] at h⟩

/-- A record without lease and with a completion time is valid when terminal. -/
theorem Identified.valid_terminal {d : RunDispatch} (hid : d.Identified)
    (hs : d.status.isTerminal = true) (hu : d.Unclaimed) (hc : d.completedAt.isSome = true) :
    d.Valid :=
  ⟨hid, fun h => by simp [h, RunDispatchStatus.isTerminal] at hs,
    fun h => by simp [h, RunDispatchStatus.isTerminal] at hs, fun _ => ⟨hu, hc⟩⟩

/-- Identity and budget do not depend on the other fields. -/
theorem Identified.congr {d d' : RunDispatch} (hid : d.Identified)
    (hdisp : d'.dispatchId = d.dispatchId) (hthread : d'.threadId = d.threadId)
    (hrun : d'.runId = d.runId) (hmax : d'.maxAttempts = d.maxAttempts)
    (hattempts : d'.attemptCount = d.attemptCount) : d'.Identified :=
  ⟨hdisp ▸ hid.dispatchId, hthread ▸ hid.threadId, hrun ▸ hid.runId, hmax ▸ hid.budget,
    hmax ▸ hattempts ▸ hid.attempts⟩

/-! ## What a transition leaves -/

/-- A dispatch that is not terminal is queued or claimed. -/
theorem isTerminal_eq_false {status : RunDispatchStatus} :
    status.isTerminal = false ↔ status = .queued ∨ status = .claimed := by
  cases status <;> simp [RunDispatchStatus.isTerminal]

/-- In the expected status a transition writes its fields and checks the result. -/
theorem transition_of_status {expected : RunDispatchStatus} (name : String)
    (write : RunDispatch → RunDispatch) {d : RunDispatch} (h : d.status = expected) :
    transition expected name write d = ((write d).validateForPersist, write d) := by
  simp [transition, requireStatus, h]

/-- What a transition leaves in the status it expects. -/
theorem transition_snd {expected : RunDispatchStatus} (name : String)
    (write : RunDispatch → RunDispatch) {d : RunDispatch} (h : d.status = expected) :
    (transition expected name write d).2 = write d := by
  rw [transition_of_status name write h]

/-- A transition whose result is valid succeeds. -/
theorem transition_ok {expected : RunDispatchStatus} (name : String)
    (write : RunDispatch → RunDispatch) {d : RunDispatch} (h : d.status = expected)
    (hv : (write d).Valid) : transition expected name write d = (.ok (), write d) := by
  rw [transition_of_status name write h, validateForPersist_ok.mpr hv]

/-- In any other status a transition fails and writes nothing. -/
theorem transition_of_ne {expected : RunDispatchStatus} (name : String)
    (write : RunDispatch → RunDispatch) {d : RunDispatch} (h : d.status ≠ expected) :
    ∃ e, transition expected name write d = (.error e, d) := by
  simp [transition, requireStatus, h]

/-- What a result report leaves: the record with the result, unless the report
    names another run. -/
theorem recordRunResult_of_status {d : RunDispatch} (h : d.status = .claimed)
    (result : RunDispatchResult) (now : UInt64) :
    (result.runId = d.runId ∧ d.recordRunResult result now =
        ((d.writeRunResult result now).validateForPersist, d.writeRunResult result now)) ∨
      (result.runId ≠ d.runId ∧ ∃ e, d.recordRunResult result now = (.error e, d)) := by
  by_cases hrun : result.runId = d.runId <;> simp [recordRunResult, requireStatus, h, hrun]

/-- The fields an epoch supersede writes. -/
def writeSupersededAtEpoch (now epoch : UInt64) (reason : Option String) (d : RunDispatch) :
    RunDispatch :=
  { d with dispatchEpoch := epoch }.writeSuperseded now reason

/-- What an epoch supersede leaves of a live dispatch. -/
theorem markSupersededAtEpoch_of_live {d : RunDispatch} (h : d.status.isTerminal = false)
    (now epoch : UInt64) (reason : Option String) :
    d.markSupersededAtEpoch now epoch reason =
      ((d.writeSupersededAtEpoch now epoch reason).validateForPersist,
        d.writeSupersededAtEpoch now epoch reason) := by
  unfold markSupersededAtEpoch
  rcases isTerminal_eq_false.mp h with hs | hs
  · have hstep := transition_of_status "supersede" (writeSuperseded now reason)
      (d := { d with dispatchEpoch := epoch }) hs
    simpa only [hs, markSuperseded, writeSupersededAtEpoch] using hstep
  · simp only [hs, writeSupersededAtEpoch]

/-- The record a nack puts back into the queue. -/
def writeNackRequeued (now retryAt : UInt64) (error : String) (d : RunDispatch) : RunDispatch :=
  { d with
    status := .queued
    attemptCount := saturatingSucc d.attemptCount
    availableAt := retryAt
    lastError := some error
    completedAt := none
    updatedAt := now }.clearClaimFields.clearRuntimeProjection

/-- The record a nack leaves when the attempts are used up. It keeps the runtime
    projection. -/
def writeNackExhausted (now : UInt64) (error : String) (d : RunDispatch) : RunDispatch :=
  { d with
    status := .deadLetter
    attemptCount := saturatingSucc d.attemptCount
    lastError := some error
    completedAt := some now
    updatedAt := now }.clearClaimFields

theorem writeNack_eq (now retryAt : UInt64) (error : String) (d : RunDispatch) :
    d.writeNack now retryAt error =
      if d.maxAttempts ≤ saturatingSucc d.attemptCount then d.writeNackExhausted now error
      else d.writeNackRequeued now retryAt error := rfl

/-- The record a lease expiry puts back into the queue. -/
def writeLeaseRequeued (now : UInt64) (d : RunDispatch) : RunDispatch :=
  { d with
    status := .queued
    attemptCount := saturatingSucc d.attemptCount
    availableAt := now
    completedAt := none
    updatedAt := now }.clearClaimFields.clearRuntimeProjection

/-- The record a lease expiry leaves when the attempts are used up. -/
def writeLeaseExhausted (now : UInt64) (maxAttemptsError : String) (d : RunDispatch) :
    RunDispatch :=
  { d with
    status := .deadLetter
    attemptCount := saturatingSucc d.attemptCount
    availableAt := now
    lastError := some maxAttemptsError
    completedAt := some now
    updatedAt := now }.clearClaimFields.clearRuntimeProjection

theorem writeExpiredLease_eq (now : UInt64) (maxAttemptsError : String) (d : RunDispatch) :
    d.writeExpiredLease now maxAttemptsError =
      if d.maxAttempts ≤ saturatingSucc d.attemptCount then
        d.writeLeaseExhausted now maxAttemptsError
      else d.writeLeaseRequeued now := rfl

/-! ## Validity of what is written -/

/-- Admitting a valid record keeps it valid. -/
theorem prepareForEnqueue_valid {d : RunDispatch} (hd : d.Valid) (epoch : UInt64) :
    (d.prepareForEnqueue epoch).Valid := by
  have hid : (d.prepareForEnqueue epoch).Identified := hd.identified.congr rfl rfl rfl rfl rfl
  exact hid.valid_queued rfl ⟨rfl, rfl, rfl⟩ rfl ⟨rfl, rfl, rfl, rfl, rfl⟩

theorem writeClaimed_valid {d : RunDispatch} (hd : d.Valid) {consumerId claimToken : String}
    (hconsumer : Str.isBlank consumerId = false) (htoken : Str.isBlank claimToken = false)
    (leaseUntil now : UInt64) : (d.writeClaimed consumerId claimToken leaseUntil now).Valid := by
  have hid : (d.writeClaimed consumerId claimToken leaseUntil now).Identified :=
    hd.identified.congr rfl rfl rfl rfl rfl
  exact hid.valid_claimed rfl ⟨htoken, hconsumer, rfl⟩

/-- A claim for a blank consumer leaves an invalid record. -/
theorem writeClaimed_valid_iff {d : RunDispatch} (hd : d.Valid) (consumerId : String)
    (token : String) (htoken : Str.isBlank token = false) (leaseUntil now : UInt64) :
    (d.writeClaimed consumerId token leaseUntil now).Valid ↔ Str.isBlank consumerId = false := by
  constructor
  · intro hv
    exact (hv.claimed rfl).claimedBy
  · intro hconsumer
    exact writeClaimed_valid hd hconsumer htoken leaseUntil now

theorem writeLeaseExtension_valid {d : RunDispatch} (hd : d.Valid) (hs : d.status = .claimed)
    (leaseUntil now : UInt64) : (d.writeLeaseExtension leaseUntil now).Valid := by
  have hid : (d.writeLeaseExtension leaseUntil now).Identified :=
    hd.identified.congr rfl rfl rfl rfl rfl
  have hl := hd.claimed hs
  exact hid.valid_claimed hs ⟨hl.claimToken, hl.claimedBy, rfl⟩

theorem writeDispatchStart_valid {d : RunDispatch} (hd : d.Valid) (hs : d.status = .claimed)
    (dispatchInstanceId : String) (now : UInt64) :
    (d.writeDispatchStart dispatchInstanceId now).Valid := by
  have hid : (d.writeDispatchStart dispatchInstanceId now).Identified :=
    hd.identified.congr rfl rfl rfl rfl rfl
  have hl := hd.claimed hs
  exact hid.valid_claimed hs ⟨hl.claimToken, hl.claimedBy, hl.leaseUntil⟩

theorem writeRunResult_valid {d : RunDispatch} (hd : d.Valid) (hs : d.status = .claimed)
    (result : RunDispatchResult) (now : UInt64) : (d.writeRunResult result now).Valid := by
  have hid : (d.writeRunResult result now).Identified := hd.identified.congr rfl rfl rfl rfl rfl
  have hl := hd.claimed hs
  exact hid.valid_claimed hs ⟨hl.claimToken, hl.claimedBy, hl.leaseUntil⟩

theorem writeAcked_valid {d : RunDispatch} (hd : d.Identified) (now : UInt64) :
    (d.writeAcked now).Valid := by
  have hid : (d.writeAcked now).Identified := hd.congr rfl rfl rfl rfl rfl
  exact hid.valid_terminal rfl ⟨rfl, rfl, rfl⟩ rfl

theorem writeCancelled_valid {d : RunDispatch} (hd : d.Identified) (now : UInt64) :
    (d.writeCancelled now).Valid := by
  have hid : (d.writeCancelled now).Identified := hd.congr rfl rfl rfl rfl rfl
  exact hid.valid_terminal rfl ⟨rfl, rfl, rfl⟩ rfl

theorem writeDeadLetter_valid {d : RunDispatch} (hd : d.Identified) (now : UInt64)
    (error : String) : (d.writeDeadLetter now error).Valid := by
  have hid : (d.writeDeadLetter now error).Identified := hd.congr rfl rfl rfl rfl rfl
  exact hid.valid_terminal rfl ⟨rfl, rfl, rfl⟩ rfl

theorem writeSuperseded_valid {d : RunDispatch} (hd : d.Identified) (now : UInt64)
    (reason : Option String) : (d.writeSuperseded now reason).Valid := by
  have hid : (d.writeSuperseded now reason).Identified := hd.congr rfl rfl rfl rfl rfl
  exact hid.valid_terminal rfl ⟨rfl, rfl, rfl⟩ rfl

theorem writeSupersededAtEpoch_valid {d : RunDispatch} (hd : d.Identified) (now epoch : UInt64)
    (reason : Option String) : (d.writeSupersededAtEpoch now epoch reason).Valid :=
  writeSuperseded_valid (d := { d with dispatchEpoch := epoch }) (hd.congr rfl rfl rfl rfl rfl)
    now reason

/-- There is room for one more attempt in the counter: the limit is not reached,
    or the counter saturates at it. -/
def HasAttemptLeft (d : RunDispatch) : Prop :=
  d.attemptCount < d.maxAttempts ∨ d.maxAttempts = 0xFFFFFFFF

instance (d : RunDispatch) : Decidable d.HasAttemptLeft :=
  inferInstanceAs (Decidable (_ ∨ _))

/-- One more attempt keeps the counter within the limit exactly when there is
    room for it. -/
theorem saturatingSucc_le_iff {n m : UInt32} (h : n ≤ m) :
    saturatingSucc n ≤ m ↔ n < m ∨ m = 0xFFFFFFFF := by
  unfold saturatingSucc
  split <;> grind

/-- Counting an attempt changes the retry budget only. -/
theorem identified_counted_iff {d d' : RunDispatch} (hd : d.Identified)
    (hdisp : d'.dispatchId = d.dispatchId) (hthread : d'.threadId = d.threadId)
    (hrun : d'.runId = d.runId) (hmax : d'.maxAttempts = d.maxAttempts)
    (hattempts : d'.attemptCount = saturatingSucc d.attemptCount) :
    d'.Identified ↔ d.HasAttemptLeft := by
  rw [HasAttemptLeft, ← saturatingSucc_le_iff hd.attempts]
  constructor
  · intro h
    exact hattempts ▸ hmax ▸ h.attempts
  · intro h
    exact ⟨hdisp ▸ hd.dispatchId, hthread ▸ hd.threadId, hrun ▸ hd.runId, hmax ▸ hd.budget,
      hattempts ▸ hmax ▸ h⟩

/-- A nack leaves a valid record exactly when an attempt was left. -/
theorem writeNack_valid_iff {d : RunDispatch} (hd : d.Identified) (now retryAt : UInt64)
    (error : String) : (d.writeNack now retryAt error).Valid ↔ d.HasAttemptLeft := by
  rw [writeNack_eq]
  split
  · have hid : (d.writeNackExhausted now error).Identified ↔ d.HasAttemptLeft :=
      identified_counted_iff hd rfl rfl rfl rfl rfl
    exact ⟨fun hv => hid.mp hv.identified,
      fun h => (hid.mpr h).valid_terminal rfl ⟨rfl, rfl, rfl⟩ rfl⟩
  · have hid : (d.writeNackRequeued now retryAt error).Identified ↔ d.HasAttemptLeft :=
      identified_counted_iff hd rfl rfl rfl rfl rfl
    exact ⟨fun hv => hid.mp hv.identified,
      fun h => (hid.mpr h).valid_queued rfl ⟨rfl, rfl, rfl⟩ rfl ⟨rfl, rfl, rfl, rfl, rfl⟩⟩

/-- A lease expiry leaves a valid record exactly when an attempt was left. -/
theorem writeExpiredLease_valid_iff {d : RunDispatch} (hd : d.Identified) (now : UInt64)
    (maxAttemptsError : String) :
    (d.writeExpiredLease now maxAttemptsError).Valid ↔ d.HasAttemptLeft := by
  rw [writeExpiredLease_eq]
  split
  · have hid : (d.writeLeaseExhausted now maxAttemptsError).Identified ↔ d.HasAttemptLeft :=
      identified_counted_iff hd rfl rfl rfl rfl rfl
    exact ⟨fun hv => hid.mp hv.identified,
      fun h => (hid.mpr h).valid_terminal rfl ⟨rfl, rfl, rfl⟩ rfl⟩
  · have hid : (d.writeLeaseRequeued now).Identified ↔ d.HasAttemptLeft :=
      identified_counted_iff hd rfl rfl rfl rfl rfl
    exact ⟨fun hv => hid.mp hv.identified,
      fun h => (hid.mpr h).valid_queued rfl ⟨rfl, rfl, rfl⟩ rfl ⟨rfl, rfl, rfl, rfl, rfl⟩⟩

end Remo.RunDispatch

/-! ## Steps of the in-memory mailbox store

What the building blocks of the store's calls leave: a record changed in place,
a loop over dispatch ids, and the records that claims, sweeps and interrupts
write.
-/

namespace Remo.InMemoryMailboxStore

/-- No dispatch of the thread is claimed. -/
def Idle (s : InMemoryMailboxStore) (threadId : String) : Prop :=
  ∀ k d, s.dispatches.get? k = some d → d.threadId = threadId → d.status ≠ .claimed

/-- What the calls rely on in every state: records stand under their own ids,
    only claimed records hold a token, and no record is ahead of its thread. -/
structure Coherent (s : InMemoryMailboxStore) : Prop where
  keyed : ∀ k d, s.dispatches.get? k = some d → d.dispatchId = k
  token : ∀ k d, s.dispatches.get? k = some d → d.claimToken ≠ none → d.status = .claimed
  epoch : ∀ k d, s.dispatches.get? k = some d → d.dispatchEpoch ≤ s.currentEpoch d.threadId

/-! ## Records changed in place -/

section WithDispatch

variable {α : Type}

theorem withDispatch_get? (dispatchId : String) (missing : Outcome α)
    (f : InMemoryMailboxStore → Method Fault RunDispatch α) (s : InMemoryMailboxStore)
    (k : String) : (withDispatch dispatchId missing f s).2.dispatches.get? k =
      if k = dispatchId then (s.dispatches.get? dispatchId).map fun d => (f s d).2
      else s.dispatches.get? k := by
  cases h : s.dispatches.get? dispatchId with
  | none =>
    by_cases hk : k = dispatchId
    · subst hk; simp [withDispatch, h]
    · simp [withDispatch, h, hk]
  | some d => simp [withDispatch, h, AssocMap.get?_modify]

@[simp] theorem withDispatch_state (dispatchId : String) (missing : Outcome α)
    (f : InMemoryMailboxStore → Method Fault RunDispatch α) (s : InMemoryMailboxStore) :
    (withDispatch dispatchId missing f s).2.state = s.state := by
  unfold withDispatch
  cases s.dispatches.get? dispatchId <;> rfl

theorem withDispatch_fst (dispatchId : String) (missing : Outcome α)
    (f : InMemoryMailboxStore → Method Fault RunDispatch α) {s : InMemoryMailboxStore}
    {d : RunDispatch} (h : s.dispatches.get? dispatchId = some d) :
    (withDispatch dispatchId missing f s).1 = (f s d).1 := by
  simp [withDispatch, h]

/-- A loop over dispatch ids leaves the epochs alone. -/
@[simp] theorem forEach_withDispatch_state {missing : String → Outcome α}
    {f : String → InMemoryMailboxStore → Method Fault RunDispatch α} (ids : List String)
    (s : InMemoryMailboxStore) :
    (Method.forEach (fun id => withDispatch id (missing id) (f id)) ids s).2.state = s.state :=
  Method.forEach_invariant (fun s' => s'.state = s.state) _ ids
    (fun _ _ _ hs' => (withDispatch_state _ _ _ _).trans hs') s rfl

variable (missing : String → Outcome α)
  {f : String → InMemoryMailboxStore → Method Fault RunDispatch α}

/-- What a loop over distinct dispatch ids leaves under an id. -/
theorem forEach_withDispatch_get? (ids : List String) (hnd : ids.Nodup) (s : InMemoryMailboxStore)
    (k : String) :
    (Method.forEach (fun id => withDispatch id (missing id) (f id)) ids s).2.dispatches.get? k =
        s.dispatches.get? k ∨
      ∃ s₁ d, k ∈ ids ∧ s₁.state = s.state ∧ s.dispatches.get? k = some d ∧
        (Method.forEach (fun id => withDispatch id (missing id) (f id)) ids s).2.dispatches.get? k =
          some (f k s₁ d).2 := by
  rcases Method.forEach_at (fun s k => s.dispatches.get? k)
      (fun id => withDispatch id (missing id) (f id))
      (fun i j s hj => by rw [withDispatch_get?, if_neg hj])
      (fun s' => s'.state = s.state) (fun i s' hs' => (withDispatch_state _ _ _ _).trans hs')
      ids hnd s rfl k with hkept | ⟨hmem, s₁, hs₁, hview, hat⟩
  · exact .inl hkept
  · rw [withDispatch_get?, if_pos rfl, hview] at hat
    cases h : s.dispatches.get? k with
    | none => exact .inl (by rw [hat, h]; rfl)
    | some d => exact .inr ⟨s₁, d, hmem, hs₁, rfl, by rw [hat, h]; rfl⟩

/-- What a finished loop over distinct dispatch ids returned for each of them. -/
theorem forEach_withDispatch_ok (ids : List String) (hnd : ids.Nodup) (s : InMemoryMailboxStore)
    (bs : List α)
    (hok : (Method.forEach (fun id => withDispatch id (missing id) (f id)) ids s).1 = .ok bs) :
    List.Forall₂ (fun k b => (s.dispatches.get? k = none ∧ missing k = .ok b) ∨
      ∃ s₁ d, s₁.state = s.state ∧ s.dispatches.get? k = some d ∧ (f k s₁ d).1 = .ok b ∧
        (Method.forEach (fun id => withDispatch id (missing id) (f id)) ids s).2.dispatches.get? k =
          some (f k s₁ d).2) ids bs := by
  refine (Method.forEach_ok (fun s k => s.dispatches.get? k)
    (fun id => withDispatch id (missing id) (f id))
    (fun i j s hj => by rw [withDispatch_get?, if_neg hj])
    (fun s' => s'.state = s.state) (fun i s' hs' => (withDispatch_state _ _ _ _).trans hs')
    ids hnd s rfl bs hok).imp ?_
  rintro k b ⟨s₁, hs₁, hview, hret, hat⟩
  rw [withDispatch_get?, if_pos rfl, hview] at hat
  cases h : s.dispatches.get? k with
  | none =>
    have hnone : s₁.dispatches.get? k = none := hview.trans h
    exact .inl ⟨rfl, by simpa [withDispatch, hnone] using hret⟩
  | some d =>
    have hsome : s₁.dispatches.get? k = some d := hview.trans h
    rw [withDispatch_fst _ _ _ hsome] at hret
    exact .inr ⟨s₁, d, hs₁, rfl, hret, by rw [hat, h]; rfl⟩

/-- A loop over distinct dispatch ids does not fail in a certain way when no pass does. -/
theorem forEach_withDispatch_avoids {bad : Fault → Prop} {ids : List String} (hnd : ids.Nodup)
    {s : InMemoryMailboxStore}
    (hmissing : ∀ id ∈ ids, s.dispatches.get? id = none → Method.Avoids bad (missing id))
    (hf : ∀ id ∈ ids, ∀ s₁ d, s.dispatches.get? id = some d → Method.Avoids bad (f id s₁ d).1) :
    Method.Avoids bad
      (Method.forEach (fun id => withDispatch id (missing id) (f id)) ids s).1 := by
  refine Method.forEach_avoids (fun s k => s.dispatches.get? k) _
    (fun i j s hj => by rw [withDispatch_get?, if_neg hj]) (fun _ => True) (fun _ _ _ => trivial)
    ids hnd s trivial fun id hid s₁ _ hview => ?_
  cases hd : s.dispatches.get? id with
  | none =>
    rw [withDispatch, hview.trans hd]
    exact hmissing id hid hd
  | some d =>
    rw [withDispatch_fst _ _ _ (hview.trans hd)]
    exact hf id hid s₁ d hd

/-- A loop over distinct dispatch ids returns when every pass does. -/
theorem forEach_withDispatch_returns {ids : List String} (hnd : ids.Nodup)
    {s : InMemoryMailboxStore}
    (hmissing : ∀ id ∈ ids, s.dispatches.get? id = none → ∃ a, missing id = .ok a)
    (hf : ∀ id ∈ ids, ∀ s₁ d, s.dispatches.get? id = some d → ∃ a, (f id s₁ d).1 = .ok a) :
    ∃ bs s', Method.forEach (fun id => withDispatch id (missing id) (f id)) ids s =
      (.ok bs, s') := by
  have havoids : Method.Avoids (fun _ => True) _ := forEach_withDispatch_avoids missing (f := f) hnd
    (fun id hid hnone => by
      obtain ⟨a, ha⟩ := hmissing id hid hnone
      rw [ha]
      exact Method.avoids_ok _ a)
    (fun id hid s₁ d hd => by
      obtain ⟨a, ha⟩ := hf id hid s₁ d hd
      rw [ha]
      exact Method.avoids_ok _ a)
  rcases hr : Method.forEach (fun id => withDispatch id (missing id) (f id)) ids s with
    ⟨e | bs, s'⟩
  · exact absurd trivial (havoids e (by rw [hr]))
  · exact ⟨bs, s', rfl⟩

end WithDispatch

/-! ## What the wrapped transitions leave -/

@[simp] theorem expecting_snd (message : String) (m : Method StorageError RunDispatch Unit)
    (d : RunDispatch) : (MailboxState.expecting message m d).2 = (m d).2 := rfl

/-- What the wrapped epoch supersede leaves of a live dispatch. -/
theorem markSupersededAtEpoch_snd {d : RunDispatch} (h : d.status.isTerminal = false)
    (now epoch : UInt64) (reason : Option String) :
    (MailboxState.markSupersededAtEpoch now epoch reason d).2 =
      d.writeSupersededAtEpoch now epoch reason := by
  rw [MailboxState.markSupersededAtEpoch, expecting_snd,
    RunDispatch.markSupersededAtEpoch_of_live h]

/-- A transition expected to succeed succeeds when the record it writes is valid. -/
theorem expecting_transition_ok {expected : RunDispatchStatus} (message name : String)
    {write : RunDispatch → RunDispatch} {d : RunDispatch} (h : d.status = expected)
    (hv : (write d).Valid) :
    MailboxState.expecting message (RunDispatch.transition expected name write) d =
      (.ok (), write d) := by
  rw [MailboxState.expecting, RunDispatch.transition_ok name write h hv]
  rfl

/-- The wrapped epoch supersede of a live dispatch succeeds. -/
theorem markSupersededAtEpoch_ok {d : RunDispatch} (hd : d.Identified)
    (hlive : d.status.isTerminal = false) (now epoch : UInt64) (reason : Option String) :
    MailboxState.markSupersededAtEpoch now epoch reason d =
      (.ok (), d.writeSupersededAtEpoch now epoch reason) := by
  have hvalid := RunDispatch.writeSupersededAtEpoch_valid hd now epoch reason
  rw [MailboxState.markSupersededAtEpoch, MailboxState.expecting,
    RunDispatch.markSupersededAtEpoch_of_live hlive, RunDispatch.validateForPersist_ok.mpr hvalid]
  rfl

theorem claimToken_of_holdsToken {claimToken : String} {d : RunDispatch}
    (h : holdsToken claimToken d = true) : d.claimToken = some claimToken := by
  simpa [holdsToken] using h

theorem claimToken_of_holdsClaim {claimToken : String} {d : RunDispatch}
    (h : holdsClaim claimToken d = true) : d.claimToken = some claimToken := by
  simp only [holdsClaim, Bool.and_eq_true, beq_iff_eq] at h
  exact h.2

/-! ## Records claimed, swept and interrupted -/

/-- What `claimRecord` leaves of a queued record: the record claimed, or untouched
    when the lease end overflows. -/
theorem claimRecord_snd {d : RunDispatch} (h : d.status = .queued) (consumerId : String)
    (leaseMs now : UInt64) (token : Uuid) :
    (claimRecord consumerId leaseMs now token d).2 = d ∨
      (claimRecord consumerId leaseMs now token d).2 =
        d.writeClaimed consumerId token.text (now + leaseMs) now := by
  unfold claimRecord
  cases hadd : Outcome.addU64 now leaseMs with
  | error e => exact .inl rfl
  | ok leaseUntil =>
    have hsum := Outcome.addU64_eq_ok hadd
    subst hsum
    exact .inr (RunDispatch.transition_snd _ _ h)

/-- A lease end out of range panics before anything is written. -/
theorem claimRecord_of_overflow {leaseMs now : UInt64}
    (h : 0x10000000000000000 ≤ now.toNat + leaseMs.toNat) (consumerId : String) (token : Uuid)
    (d : RunDispatch) :
    claimRecord consumerId leaseMs now token d = (.error (.panic .arithmeticOverflow), d) := by
  have hadd : Outcome.addU64 now leaseMs = .error (.panic .arithmeticOverflow) :=
    if_neg (Nat.not_lt.mpr h)
  rw [claimRecord, hadd]

/-- The check for another claimed dispatch, for a dispatch that is not claimed itself. -/
theorem idle_of_hasOtherClaimed {s : InMemoryMailboxStore} (hs : s.Coherent) {d : RunDispatch}
    (hd : s.dispatches.get? d.dispatchId = some d) (hqueued : d.status = .queued)
    (h : s.hasOtherClaimed d.threadId d.dispatchId = false) : s.Idle d.threadId := by
  intro k' d' hd' hthread hclaimed
  rw [hasOtherClaimed, ← Bool.not_eq_true, AssocMap.any_values] at h
  refine h ⟨k', d', hd', ?_⟩
  have hne : d'.dispatchId ≠ d.dispatchId := by
    intro heq
    rw [← hs.keyed _ _ hd', heq, hd] at hd'
    cases hd'
    rw [hqueued] at hclaimed
    cases hclaimed
  simp [hthread, hclaimed, hne]

/-- A queued dispatch of the thread that is behind its epoch. -/
def StaleQueued (threadId : String) (currentEpoch : UInt64) (d : RunDispatch) : Prop :=
  d.threadId = threadId ∧ d.status = .queued ∧ d.dispatchEpoch < currentEpoch

instance (threadId : String) (currentEpoch : UInt64) (d : RunDispatch) :
    Decidable (StaleQueued threadId currentEpoch d) :=
  inferInstanceAs (Decidable (_ ∧ _))

theorem supersedeIfStale_snd (threadId : String) (now currentEpoch : UInt64) (d : RunDispatch) :
    (supersedeIfStale threadId now currentEpoch d).2 =
      if StaleQueued threadId currentEpoch d then
        d.writeSupersededAtEpoch now currentEpoch
          (some MailboxState.reasonQueuedSupersededByEpoch)
      else d := by
  have hcond : (d.threadId == threadId && d.status == .queued
      && decide (d.dispatchEpoch < currentEpoch)) = true ↔ StaleQueued threadId currentEpoch d := by
    simp [StaleQueued, and_assoc]
  unfold supersedeIfStale
  by_cases h : StaleQueued threadId currentEpoch d
  · rw [if_pos (hcond.mpr h), if_pos h, markSupersededAtEpoch_snd (by rw [h.2.1]; rfl)]
  · rw [if_neg (fun hc => h (hcond.mp hc)), if_neg h]

/-- The first loop of `claim` turns the stale queued dispatches into superseded
    ones and leaves the others; a dispatch it leaves is not stale if it finished. -/
theorem supersedeStaleQueued_get? (threadId : String) (now currentEpoch : UInt64)
    (s : InMemoryMailboxStore) (k : String) :
    (supersedeStaleQueued threadId now currentEpoch s).2.dispatches.get? k =
        s.dispatches.get? k ∨
      ∃ d, s.dispatches.get? k = some d ∧ StaleQueued threadId currentEpoch d ∧
        (supersedeStaleQueued threadId now currentEpoch s).2.dispatches.get? k =
          some (d.writeSupersededAtEpoch now currentEpoch
            (some MailboxState.reasonQueuedSupersededByEpoch)) := by
  rcases forEach_withDispatch_get? (fun _ => .ok ())
      (f := fun _ _ => supersedeIfStale threadId now currentEpoch) s.dispatches.keys
      s.dispatches.nodup_keys s k with hkept | ⟨s₁, d, -, -, hd, hat⟩
  · exact .inl hkept
  · rw [supersedeIfStale_snd] at hat
    split at hat
    · rename_i hstale
      exact .inr ⟨d, hd, hstale, hat⟩
    · exact .inl (hat.trans hd.symm)

@[simp] theorem supersedeStaleQueued_state (threadId : String) (now currentEpoch : UInt64)
    (s : InMemoryMailboxStore) :
    (supersedeStaleQueued threadId now currentEpoch s).2.state = s.state :=
  forEach_withDispatch_state _ _

theorem supersedeStaleQueued_ok {threadId : String} {now currentEpoch : UInt64}
    {s : InMemoryMailboxStore} {bs : List Unit}
    (hok : (supersedeStaleQueued threadId now currentEpoch s).1 = .ok bs) {k : String}
    {d : RunDispatch} (hd : s.dispatches.get? k = some d)
    (hkept : (supersedeStaleQueued threadId now currentEpoch s).2.dispatches.get? k = some d) :
    ¬StaleQueued threadId currentEpoch d := by
  intro hstale
  have hall := forEach_withDispatch_ok (fun _ => .ok ())
    (f := fun _ _ => supersedeIfStale threadId now currentEpoch) s.dispatches.keys
    s.dispatches.nodup_keys s bs hok
  obtain ⟨b, -, hcase⟩ := hall.exists_of_mem_left (AssocMap.mem_keys.mpr ⟨d, hd⟩)
  rcases hcase with ⟨hnone, -⟩ | ⟨s₁, d', -, hd', -, hat⟩
  · rw [hd] at hnone; cases hnone
  · rw [hd] at hd'
    cases hd'
    rw [supersedeIfStale_snd, if_pos hstale] at hat
    -- the loop left a superseded record, the store shows a queued one
    have hsame := hkept.symm.trans hat
    have hstatus := congrArg RunDispatch.status (Option.some.inj hsame)
    rw [hstale.2.1] at hstatus
    cases hstatus

/-- `claim` picks eligible dispatches. -/
theorem mem_eligibleIds {s : InMemoryMailboxStore} {threadId : String} {now limit : UInt64}
    {k : String} (h : k ∈ s.eligibleIds threadId now limit) :
    ∃ d, s.dispatches.get? k = some d ∧ d.threadId = threadId ∧ d.status = .queued ∧
      d.availableAt ≤ now := by
  obtain ⟨⟨k', d⟩, hmem, rfl⟩ := List.mem_map.mp h
  have hfound := (List.mem_insertionSort _).mp (List.mem_of_mem_take hmem)
  obtain ⟨hentry, helig⟩ := List.mem_filter.mp hfound
  simp only [eligible, Bool.and_eq_true, beq_iff_eq, decide_eq_true_eq] at helig
  exact ⟨d, AssocMap.get?_eq_some.mpr hentry, helig.1.1, helig.1.2, helig.2⟩

/-- `claim` picks no dispatch twice. -/
theorem nodup_eligibleIds (s : InMemoryMailboxStore) (threadId : String) (now limit : UInt64) :
    (s.eligibleIds threadId now limit).Nodup := by
  unfold eligibleIds
  refine List.Nodup.sublist ((List.take_sublist _ _).map Prod.fst) ?_
  refine ((List.perm_insertionSort _ _).map Prod.fst).nodup_iff.mpr ?_
  exact s.dispatches.nodup.sublist (List.filter_sublist.map Prod.fst)

/-- A sweep picks dispatches whose lease has run out, by their own ids. -/
theorem mem_expiredIds {s : InMemoryMailboxStore} (hs : s.Coherent) {now limit : UInt64}
    {k : String} (h : k ∈ s.expiredIds now limit) :
    ∃ d leaseUntil, s.dispatches.get? k = some d ∧ d.status = .claimed ∧
      d.leaseUntil = some leaseUntil ∧ leaseUntil < now := by
  obtain ⟨d, hmem, rfl⟩ := List.mem_map.mp h
  obtain ⟨hvalue, hexp⟩ := List.mem_filter.mp (List.mem_of_mem_take hmem)
  obtain ⟨k', hk'⟩ := AssocMap.mem_values.mp hvalue
  simp only [leaseExpired, Bool.and_eq_true, beq_iff_eq, Option.any_eq_true_iff_get,
    decide_eq_true_eq] at hexp
  obtain ⟨hclaimed, hsome, hlt⟩ := hexp
  exact ⟨d, d.leaseUntil.get hsome, by rw [hs.keyed _ _ hk', hk'], hclaimed,
    (Option.some_get hsome).symm, hlt⟩

/-- A sweep picks no dispatch twice. -/
theorem nodup_expiredIds {s : InMemoryMailboxStore} (hs : s.Coherent) (now limit : UInt64) :
    (s.expiredIds now limit).Nodup := by
  have hids : s.dispatches.values.map RunDispatch.dispatchId = s.dispatches.keys := by
    simp only [AssocMap.values, AssocMap.keys, List.map_map]
    refine List.map_congr_left fun p hp => ?_
    exact hs.keyed p.1 p.2 (AssocMap.get?_eq_some.mpr hp)
  unfold expiredIds expired
  refine List.Nodup.sublist ((List.take_sublist _ _).map _) ?_
  exact (hids ▸ s.dispatches.nodup_keys).sublist (List.filter_sublist.map _)

/-- What an expired dispatch becomes when it is taken back. -/
theorem reclaimRecord_snd {d : RunDispatch} (h : d.status = .claimed) (now currentEpoch : UInt64) :
    (reclaimRecord now currentEpoch d).2 =
      if d.dispatchEpoch < currentEpoch then
        d.writeSupersededAtEpoch now currentEpoch
          (some MailboxState.reasonClaimedLeaseExpiredAfterInterrupt)
      else d.writeExpiredLease now MailboxState.reasonLeaseExpiredMaxAttempts := by
  unfold reclaimRecord
  split
  · rw [Method.map_snd, markSupersededAtEpoch_snd (by rw [h]; rfl)]
  · rw [Method.bind_snd_of_read _ fun _ _ => rfl, MailboxState.markExpiredLease, expecting_snd,
      RunDispatch.markExpiredLease, RunDispatch.transition_snd _ _ h]

/-- What the interrupt loop makes of a dispatch. -/
theorem interruptVisit_snd (threadId : String) (now oldDispatchEpoch : UInt64) (d : RunDispatch) :
    (interruptVisit threadId now oldDispatchEpoch d).2 =
      if d.threadId = threadId ∧ d.status = .queued ∧ d.dispatchEpoch ≤ oldDispatchEpoch then
        d.writeSuperseded now (some MailboxState.reasonQueuedSupersededByInterrupt)
      else d := by
  unfold interruptVisit
  by_cases hthread : d.threadId = threadId
  · by_cases hqueued : d.status = .queued ∧ d.dispatchEpoch ≤ oldDispatchEpoch
    · simp only [hthread, hqueued, ne_eq, not_true_eq_false, if_false, and_self, if_true]
      rw [Method.bind_snd_of_read _ fun _ _ => rfl, MailboxState.markSuperseded, expecting_snd,
        RunDispatch.markSuperseded, RunDispatch.transition_snd _ _ hqueued.1]
    · simp only [hthread, hqueued, ne_eq, not_true_eq_false, if_false, and_false]
      split <;> rfl
  · simp [hthread]

/-- A finished interrupt loop has visited every dispatch. -/
theorem interruptVisits_ok {threadId : String} {now oldDispatchEpoch : UInt64}
    {s : InMemoryMailboxStore} {visits : List InterruptVisit}
    (hok : (interruptVisits threadId now oldDispatchEpoch s).1 = .ok visits) {k : String}
    {d : RunDispatch} (hd : s.dispatches.get? k = some d) :
    (interruptVisits threadId now oldDispatchEpoch s).2.dispatches.get? k =
      some (interruptVisit threadId now oldDispatchEpoch d).2 := by
  have hall := forEach_withDispatch_ok (fun _ => .ok InterruptVisit.skipped)
    (f := fun _ _ => interruptVisit threadId now oldDispatchEpoch) s.dispatches.keys
    s.dispatches.nodup_keys s visits hok
  obtain ⟨_, -, hcase⟩ := hall.exists_of_mem_left (AssocMap.mem_keys.mpr ⟨d, hd⟩)
  rcases hcase with ⟨hnone, -⟩ | ⟨_, d', -, hd', -, hat⟩
  · exact absurd (hd.symm.trans hnone) (by simp)
  · cases Option.some.inj (hd.symm.trans hd')
    exact hat

/-- After the first loop of `claim` finished, a dispatch that is still queued was
    so before and is not stale. -/
theorem queued_of_supersedeStaleQueued {s s₁ : InMemoryMailboxStore} {threadId : String}
    {now : UInt64} {bs : List Unit}
    (hr : supersedeStaleQueued threadId now (s.currentEpoch threadId) s = (.ok bs, s₁))
    {k : String} {d : RunDispatch} (hd : s₁.dispatches.get? k = some d)
    (hthread : d.threadId = threadId) (hqueued : d.status = .queued) :
    s.dispatches.get? k = some d ∧ s.currentEpoch d.threadId ≤ d.dispatchEpoch := by
  have hfirst := supersedeStaleQueued_get? threadId now (s.currentEpoch threadId) s k
  rw [hr] at hfirst
  rcases hfirst with hkept | ⟨d', -, -, hat⟩
  · have hbefore : s.dispatches.get? k = some d := hkept ▸ hd
    have hfresh := supersedeStaleQueued_ok (by rw [hr]) hbefore (by rw [hr]; exact hd)
    refine ⟨hbefore, UInt64.not_lt.mp fun hlt => hfresh ⟨hthread, hqueued, ?_⟩⟩
    exact hthread ▸ hlt
  · rw [hd] at hat
    cases hat
    cases hqueued

/-- The check for a claimed dispatch of the thread, made after the first loop of
    `claim`, also holds of the state before it. -/
theorem idle_of_supersedeStaleQueued {s s₁ : InMemoryMailboxStore} {threadId : String}
    {now : UInt64} {bs : List Unit}
    (hr : supersedeStaleQueued threadId now (s.currentEpoch threadId) s = (.ok bs, s₁))
    (h : s₁.hasClaimed threadId = false) : s.Idle threadId := by
  intro k d hd hthread hclaimed
  have hfirst := supersedeStaleQueued_get? threadId now (s.currentEpoch threadId) s k
  rw [hr] at hfirst
  rcases hfirst with hkept | ⟨d', hd', hstale, -⟩
  · rw [hasClaimed, ← Bool.not_eq_true, AssocMap.any_values] at h
    exact h ⟨k, d, hkept.trans hd, by simp [hthread, hclaimed]⟩
  · rw [hd] at hd'
    cases hd'
    have hqueued := hstale.2.1
    rw [hclaimed] at hqueued
    cases hqueued

/-! ## Epoch lookups -/

theorem currentEpoch_orInsert (s : InMemoryMailboxStore) (threadId threadId' : String) :
    InMemoryMailboxStore.currentEpoch { s with state := s.state.orInsert threadId ⟨0⟩ } threadId' =
      s.currentEpoch threadId' := by
  unfold currentEpoch
  rw [AssocMap.get?_orInsert]
  split
  · rename_i h
    rw [h]
    cases s.state.get? threadId <;> rfl
  · rfl

end Remo.InMemoryMailboxStore
