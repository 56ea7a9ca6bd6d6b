import Remo.Native.Lifecycle
import Remo.Native.Storage.Error

/-!
# Run dispatches

The dispatch record of the mailbox contract: its fields, its admission and
persistence checks, and the lifecycle transitions. A transition is a method on a
mutable record, so the fields it wrote stay written when its final check fails.
-/

namespace Remo

/-- Six-state lifecycle for a dispatch attempt. -/
inductive RunDispatchStatus where
  | queued
  | claimed
  | acked
  | cancelled
  | superseded
  | deadLetter
deriving Repr, DecidableEq

namespace RunDispatchStatus

/-- `true` for terminal states that cannot transition further. -/
def isTerminal : RunDispatchStatus → Bool
  | .acked | .cancelled | .superseded | .deadLetter => true
  | .queued | .claimed => false

/-- The `Debug` rendering of the status. -/
def debug : RunDispatchStatus → String
  | .queued => "Queued"
  | .claimed => "Claimed"
  | .acked => "Acked"
  | .cancelled => "Cancelled"
  | .superseded => "Superseded"
  | .deadLetter => "DeadLetter"

end RunDispatchStatus

/-- Durable runtime-result projection for the dispatch that consumed a run. -/
structure RunDispatchResult where
  runId : String
  dispatchInstanceId : String
  status : RunStatus
  termination : Option TerminationReason
  response : Option String
  error : Option String
deriving Repr, DecidableEq

/-- A run dispatch persisted in the mailbox queue. -/
structure RunDispatch where
  dispatchId : String
  threadId : String
  runId : String
  priority : UInt8
  dedupeKey : Option String
  dispatchEpoch : UInt64
  status : RunDispatchStatus
  availableAt : UInt64
  attemptCount : UInt32
  maxAttempts : UInt32
  lastError : Option String
  claimToken : Option String
  claimedBy : Option String
  leaseUntil : Option UInt64
  dispatchInstanceId : Option String
  runStatus : Option RunStatus
  termination : Option TerminationReason
  runResponse : Option String
  runError : Option String
  completedAt : Option UInt64
  createdAt : UInt64
  updatedAt : UInt64
deriving Repr, DecidableEq

namespace RunDispatch

/-- The public constructor for new mailbox records. -/
def queued (dispatchId threadId runId : String) (createdAt : UInt64) : RunDispatch where
  dispatchId := dispatchId
  threadId := threadId
  runId := runId
  priority := 128
  dedupeKey := none
  dispatchEpoch := 0
  status := .queued
  availableAt := createdAt
  attemptCount := 0
  maxAttempts := 5
  lastError := none
  claimToken := none
  claimedBy := none
  leaseUntil := none
  dispatchInstanceId := none
  runStatus := none
  termination := none
  runResponse := none
  runError := none
  completedAt := none
  createdAt := createdAt
  updatedAt := createdAt

/-! ## Validation -/

/-- Identity and retry-budget checks shared by admission and persistence. -/
def validateIdentityAndRetry (self : RunDispatch) : Except StorageError Unit := do
  requireNonEmpty "dispatch_id" self.dispatchId
  requireNonEmpty "thread_id" self.threadId
  requireNonEmpty "run_id" self.runId
  if self.maxAttempts = 0 then
    throw (.validation s!"dispatch '{self.dispatchId}' max_attempts must be greater than zero")
  if self.maxAttempts < self.attemptCount then
    throw (.validation s!"dispatch '{self.dispatchId}' attempt_count must not exceed max_attempts")

/-- A queued dispatch carries no claim, no completion time and no runtime result. -/
def validateQueued (self : RunDispatch) : Except StorageError Unit := do
  if self.claimToken.isSome || self.claimedBy.isSome || self.leaseUntil.isSome then
    throw (.validation s!"Queued dispatch '{self.dispatchId}' must not carry claim fields")
  if self.completedAt.isSome then
    throw (.validation s!"Queued dispatch '{self.dispatchId}' must not carry completed_at")
  if self.dispatchInstanceId.isSome || self.runStatus.isSome || self.termination.isSome
      || self.runResponse.isSome || self.runError.isSome then
    throw (.validation s!"Queued dispatch '{self.dispatchId}' must not carry runtime result fields")

/-- A claimed dispatch names its token, its consumer and its lease. -/
def validateClaimed (self : RunDispatch) : Except StorageError Unit :=
  if self.claimToken.all Str.isBlank || self.claimedBy.all Str.isBlank
      || self.leaseUntil.isNone then
    .error (.validation
      s!"Claimed dispatch '{self.dispatchId}' must carry claim_token, claimed_by, and lease_until")
  else .ok ()

/-- A terminal dispatch has released its lease and carries a completion time. -/
def validateTerminal (self : RunDispatch) : Except StorageError Unit := do
  if self.claimToken.isSome || self.claimedBy.isSome || self.leaseUntil.isSome then
    throw (.validation
      s!"{self.status.debug} dispatch '{self.dispatchId}' must not carry active lease fields")
  if self.completedAt.isNone then
    throw (.validation s!"{self.status.debug} dispatch '{self.dispatchId}' must carry completed_at")

/-- Validate an externally supplied dispatch before queue admission. -/
def validateForEnqueue (self : RunDispatch) : Except StorageError Unit := do
  self.validateIdentityAndRetry
  if self.status ≠ .queued then
    throw (.validation s!"enqueued dispatch '{self.dispatchId}' must start as Queued")
  self.validateQueued

/-- Validate persisted dispatch lifecycle invariants. -/
def validateForPersist (self : RunDispatch) : Except StorageError Unit := do
  self.validateIdentityAndRetry
  match self.status with
  | .queued => self.validateQueued
  | .claimed => self.validateClaimed
  | .acked | .cancelled | .superseded | .deadLetter => self.validateTerminal

/-! ## Transitions -/

/-- Store enqueue normalization: bind the dispatch to the current thread epoch
    and clear all runtime/terminal state. -/
def prepareForEnqueue (self : RunDispatch) (dispatchEpoch : UInt64) : RunDispatch :=
  { self with
    dispatchEpoch := dispatchEpoch
    status := .queued
    claimToken := none
    claimedBy := none
    leaseUntil := none
    dispatchInstanceId := none
    runStatus := none
    termination := none
    runResponse := none
    runError := none
    completedAt := none }

/-- Drop the lease. -/
def clearClaimFields (self : RunDispatch) : RunDispatch :=
  { self with claimToken := none, claimedBy := none, leaseUntil := none }

/-- Drop the runtime trace of the current attempt. -/
def clearRuntimeProjection (self : RunDispatch) : RunDispatch :=
  { self with
    dispatchInstanceId := none
    runStatus := none
    termination := none
    runResponse := none
    runError := none }

/-- A transition needs a certain status before it. -/
def requireStatus (self : RunDispatch) (expected : RunDispatchStatus) (transition : String) :
    Except StorageError Unit :=
  if self.status ≠ expected then
    .error (.validation
      s!"dispatch '{self.dispatchId}' must be {expected.debug} before {transition}")
  else .ok ()

/-- The shape of a lifecycle transition: check the status, write the fields,
    validate the record. -/
def transition (expected : RunDispatchStatus) (name : String) (write : RunDispatch → RunDispatch) :
    Method StorageError RunDispatch Unit := fun self =>
  match self.requireStatus expected name with
  | .error e => (.error e, self)
  | .ok () => ((write self).validateForPersist, write self)

/-- The fields a claim writes. -/
def writeClaimed (consumerId claimToken : String) (leaseUntil now : UInt64) (self : RunDispatch) :
    RunDispatch :=
  { self with
    status := .claimed
    claimToken := some claimToken
    claimedBy := some consumerId
    leaseUntil := some leaseUntil
    updatedAt := now }

/-- Transition a queued dispatch to claimed. -/
def claim (consumerId claimToken : String) (leaseUntil now : UInt64) :
    Method StorageError RunDispatch Unit :=
  transition .queued "claim" (writeClaimed consumerId claimToken leaseUntil now)

/-- The fields a lease extension writes. -/
def writeLeaseExtension (leaseUntil now : UInt64) (self : RunDispatch) : RunDispatch :=
  { self with leaseUntil := some leaseUntil, updatedAt := now }

/-- Move the lease of a claimed dispatch. -/
def extendLease (leaseUntil now : UInt64) : Method StorageError RunDispatch Unit :=
  transition .claimed "lease extension" (writeLeaseExtension leaseUntil now)

/-- The fields a runtime start writes. -/
def writeDispatchStart (dispatchInstanceId : String) (now : UInt64) (self : RunDispatch) :
    RunDispatch :=
  { self with
    dispatchInstanceId := some dispatchInstanceId
    runStatus := some .running
    termination := none
    runResponse := none
    runError := none
    completedAt := none
    updatedAt := now }

/-- Record that the runtime took up a claimed dispatch. -/
def recordDispatchStart (dispatchInstanceId : String) (now : UInt64) :
    Method StorageError RunDispatch Unit :=
  transition .claimed "recording runtime start" (writeDispatchStart dispatchInstanceId now)

/-- The fields a runtime result writes. -/
def writeRunResult (result : RunDispatchResult) (now : UInt64) (self : RunDispatch) : RunDispatch :=
  { self with
    dispatchInstanceId := some result.dispatchInstanceId
    runStatus := some result.status
    termination := result.termination
    runResponse := result.response
    runError := result.error
    completedAt := some now
    updatedAt := now }

/-- Record the runtime result of a claimed dispatch. The result must name the
    dispatch's own run. -/
def recordRunResult (result : RunDispatchResult) (now : UInt64) :
    Method StorageError RunDispatch Unit := fun self =>
  match self.requireStatus .claimed "recording runtime result" with
  | .error e => (.error e, self)
  | .ok () =>
    if result.runId ≠ self.runId then
      (.error (.validation (s!"dispatch '{self.dispatchId}' result run_id '{result.runId}' "
        ++ s!"does not match '{self.runId}'")), self)
    else ((self.writeRunResult result now).validateForPersist, self.writeRunResult result now)

/-- The fields an ack writes. -/
def writeAcked (now : UInt64) (self : RunDispatch) : RunDispatch :=
  { self with status := .acked, completedAt := some now, updatedAt := now }.clearClaimFields

/-- Consume a claimed dispatch. -/
def markAcked (now : UInt64) : Method StorageError RunDispatch Unit :=
  transition .claimed "ack" (writeAcked now)

/-- The fields a cancellation writes. -/
def writeCancelled (now : UInt64) (self : RunDispatch) : RunDispatch :=
  { self with status := .cancelled, completedAt := some now, updatedAt := now }.clearClaimFields

/-- Cancel a queued dispatch. -/
def markCancelled (now : UInt64) : Method StorageError RunDispatch Unit :=
  transition .queued "cancel" (writeCancelled now)

/-- The fields a supersede writes, for a queued and for a claimed dispatch alike. -/
def writeSuperseded (now : UInt64) (reason : Option String) (self : RunDispatch) : RunDispatch :=
  { self with
    status := .superseded
    completedAt := some now
    updatedAt := now
    lastError := reason.or self.lastError }.clearClaimFields.clearRuntimeProjection

/-- Supersede a queued dispatch. -/
def markSuperseded (now : UInt64) (reason : Option String) : Method StorageError RunDispatch Unit :=
  transition .queued "supersede" (writeSuperseded now reason)

/-- Bind the dispatch to `epoch` and supersede it, whether queued or claimed. -/
def markSupersededAtEpoch (now epoch : UInt64) (reason : Option String) :
    Method StorageError RunDispatch Unit := fun self =>
  let self := { self with dispatchEpoch := epoch }
  match self.status with
  | .queued => markSuperseded now reason self
  | .claimed =>
    ((writeSuperseded now reason self).validateForPersist, writeSuperseded now reason self)
  | .acked | .cancelled | .superseded | .deadLetter =>
    (.error (.validation
      s!"dispatch '{self.dispatchId}' must be Queued or Claimed before epoch supersede"), self)

/-- The fields a permanent failure writes. -/
def writeDeadLetter (now : UInt64) (error : String) (self : RunDispatch) : RunDispatch :=
  { self with
    status := .deadLetter
    lastError := some error
    completedAt := some now
    updatedAt := now }.clearClaimFields

/-- Permanently fail a claimed dispatch. -/
def markDeadLetter (now : UInt64) (error : String) : Method StorageError RunDispatch Unit :=
  transition .claimed "dead letter" (writeDeadLetter now error)

/-- `u32::saturating_add(1)`. -/
def saturatingSucc (n : UInt32) : UInt32 := if n = 0xFFFFFFFF then n else n + 1

/-- The fields a nack writes: requeue, or dead-letter when the attempts are used up. -/
def writeNack (now retryAt : UInt64) (error : String) (self : RunDispatch) : RunDispatch :=
  let self :=
    { self with
      attemptCount := saturatingSucc self.attemptCount
      lastError := some error
      updatedAt := now }.clearClaimFields
  if self.maxAttempts ≤ self.attemptCount then
    { self with status := .deadLetter, completedAt := some now }
  else
    { self with
      status := .queued
      availableAt := retryAt
      completedAt := none }.clearRuntimeProjection

/-- Give a claimed dispatch back after a failed attempt. -/
def markNackResult (now retryAt : UInt64) (error : String) : Method StorageError RunDispatch Unit :=
  transition .claimed "nack" (writeNack now retryAt error)

/-- The fields a lease expiry writes. The runtime projection is dropped on both
    outcomes. -/
def writeExpiredLease (now : UInt64) (maxAttemptsError : String) (self : RunDispatch) :
    RunDispatch :=
  let self :=
    ({ self with
      attemptCount := saturatingSucc self.attemptCount
      availableAt := now
      updatedAt := now }.clearClaimFields).clearRuntimeProjection
  if self.maxAttempts ≤ self.attemptCount then
    { self with status := .deadLetter, lastError := some maxAttemptsError, completedAt := some now }
  else
    { self with status := .queued, completedAt := none }

/-- Take a claimed dispatch back after its lease ran out. -/
def markExpiredLease (now : UInt64) (maxAttemptsError : String) :
    Method StorageError RunDispatch Unit :=
  transition .claimed "lease expiration" (writeExpiredLease now maxAttemptsError)

end RunDispatch

end Remo

/-! ## Transitions a store relies on

The stores call the lifecycle transitions through wrappers that `expect` them to
succeed, and record one of a fixed list of reasons when they supersede.
-/

namespace Remo.MailboxState

def reasonClaimedSupersededByEpoch : String :=
  "claimed dispatch superseded by newer dispatch epoch"
def reasonClaimedSupersededBeforeAck : String :=
  "claimed dispatch superseded before ack"
def reasonClaimedSupersededBeforeStart : String :=
  "claimed dispatch superseded before runtime start"
def reasonClaimedSupersededBeforeResult : String :=
  "claimed dispatch superseded before run result"
def reasonClaimedSupersededBeforeNack : String :=
  "claimed dispatch superseded before nack"
def reasonClaimedSupersededBeforeDeadLetter : String :=
  "claimed dispatch superseded before dead letter"
def reasonClaimedSupersededDuringLeaseRenewal : String :=
  "claimed dispatch superseded during lease renewal"
def reasonClaimedLeaseExpiredAfterInterrupt : String :=
  "claimed dispatch lease expired after interrupt"
def reasonQueuedSupersededByInterrupt : String :=
  "queued dispatch superseded by interrupt"
def reasonQueuedSupersededByEpoch : String :=
  "queued dispatch superseded by newer dispatch epoch"
def reasonLeaseExpiredMaxAttempts : String := "lease expired; max attempts reached"

/-- A transition whose failure is a panic with the message. -/
def expecting (message : String) (m : Method StorageError RunDispatch Unit) :
    Method Fault RunDispatch Unit := fun d =>
  (Outcome.expect message (m d).1, (m d).2)

def markSuperseded (now : UInt64) (reason : Option String) : Method Fault RunDispatch Unit :=
  expecting "superseded dispatch transition must preserve invariants"
    (RunDispatch.markSuperseded now reason)

def markSupersededAtEpoch (now epoch : UInt64) (reason : Option String) :
    Method Fault RunDispatch Unit :=
  expecting "superseded dispatch transition must preserve invariants"
    (RunDispatch.markSupersededAtEpoch now epoch reason)

def markAcked (now : UInt64) : Method Fault RunDispatch Unit :=
  expecting "acked dispatch transition must preserve invariants" (RunDispatch.markAcked now)

def markCancelled (now : UInt64) : Method Fault RunDispatch Unit :=
  expecting "cancelled dispatch transition must preserve invariants" (RunDispatch.markCancelled now)

def markDeadLetter (now : UInt64) (error : String) : Method Fault RunDispatch Unit :=
  expecting "dead-letter dispatch transition must preserve invariants"
    (RunDispatch.markDeadLetter now error)

def markNackResult (now retryAt : UInt64) (error : String) : Method Fault RunDispatch Unit :=
  expecting "nack dispatch transition must preserve invariants"
    (RunDispatch.markNackResult now retryAt error)

def markExpiredLease (now : UInt64) : Method Fault RunDispatch Unit :=
  expecting "expired-lease dispatch transition must preserve invariants"
    (RunDispatch.markExpiredLease now reasonLeaseExpiredMaxAttempts)

end Remo.MailboxState
