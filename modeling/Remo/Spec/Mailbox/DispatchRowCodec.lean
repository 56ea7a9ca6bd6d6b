import Remo.Native.Mailbox.Sqlite
import Remo.Spec.Mailbox.StoreSteps

/-!
# Encoding and decoding of dispatch rows

A valid dispatch survives the trip through its row, and a row decodes to valid
dispatches only. Every update statement of the SQLite store turns the row of a
dispatch into the row of another dispatch; where the statement leaves a column
alone that the lifecycle transition writes, the record differs from the
transition's.
-/

namespace Remo

/-! ## Column texts -/

theorem strToStatus_eq_ok {s : String} {status : RunDispatchStatus} :
    strToStatus s = .ok status ↔ s = statusToStr status := by
  constructor
  · intro h
    unfold strToStatus at h
    repeat' split at h
    all_goals cases h
    all_goals assumption
  · rintro rfl
    cases status <;> decide

theorem strToRunStatus_eq_ok {s : String} {status : RunStatus} :
    strToRunStatus s = .ok status ↔ s = runStatusToStr status := by
  constructor
  · intro h
    unfold strToRunStatus at h
    repeat' split at h
    all_goals cases h
    all_goals assumption
  · rintro rfl
    cases status <;> decide

/-- The status column tells the statuses apart. -/
theorem statusToStr_injective : Function.Injective statusToStr := by
  intro a b h
  have ha := strToStatus_eq_ok.mpr h
  rw [strToStatus_eq_ok.mpr rfl] at ha
  exact Except.ok.inj ha

@[simp] theorem statusToStr_inj {a b : RunDispatchStatus} : statusToStr a = statusToStr b ↔ a = b :=
  statusToStr_injective.eq_iff

/-- The terminal statuses are those the queries list. -/
theorem terminalStatuses_contains (status : RunDispatchStatus) :
    terminalStatuses.contains (statusToStr status) = status.isTerminal := by
  cases status <;> decide

/-! ## Signed columns -/

/-- A value of the lower half is the integer its column holds. -/
theorem toInt_toInt64 {a : UInt64} (ha : a.toNat < 0x8000000000000000) : a.toInt64.toInt = a.toNat := by
  have hbits : 2 * a.toBitVec.toNat < 0x10000000000000000 := by
    rw [UInt64.toNat_toBitVec]
    omega
  exact BitVec.toInt_eq_toNat_of_lt hbits

theorem toInt64_lt {a b : UInt64} (ha : a.toNat < 0x8000000000000000) (hb : b.toNat < 0x8000000000000000) :
    a.toInt64 < b.toInt64 ↔ a < b := by
  rw [Int64.lt_iff_toInt_lt, toInt_toInt64 ha, toInt_toInt64 hb, UInt64.lt_iff_toNat_lt]
  omega

theorem toInt64_le {a b : UInt64} (ha : a.toNat < 0x8000000000000000) (hb : b.toNat < 0x8000000000000000) :
    a.toInt64 ≤ b.toInt64 ↔ a ≤ b := by
  rw [Int64.le_iff_toInt_le, toInt_toInt64 ha, toInt_toInt64 hb, UInt64.le_iff_toNat_le]
  omega

/-- A value of the lower half is not negative as a column. -/
theorem not_toInt64_neg {a : UInt64} (ha : a.toNat < 0x8000000000000000) : ¬a.toInt64 < 0 := by
  rw [Int64.lt_iff_toInt_lt, toInt_toInt64 ha]
  exact Int.not_lt.mpr (Int.natCast_nonneg _)

theorem toInt64_inj {a b : UInt64} : a.toInt64 = b.toInt64 ↔ a = b :=
  ⟨fun h => congrArg Int64.toUInt64 h, fun h => congrArg _ h⟩

/-- Small unsigned columns keep their order. -/
theorem priority_toInt64_lt {a b : UInt8} :
    a.toUInt64.toInt64 < b.toUInt64.toInt64 ↔ a < b := by
  have hsmall : ∀ x : UInt8, x.toUInt64.toNat < 0x8000000000000000 := fun x => by
    have := x.toNat_lt
    rw [UInt8.toNat_toUInt64]
    omega
  rw [toInt64_lt (hsmall a) (hsmall b), UInt8.toUInt64_lt]

theorem priority_toInt64_inj {a b : UInt8} :
    a.toUInt64.toInt64 = b.toUInt64.toInt64 ↔ a = b := by
  rw [toInt64_inj]
  exact ⟨fun h => by simpa using congrArg UInt64.toUInt8 h, fun h => congrArg _ h⟩

namespace DispatchRow

variable (driver : SqliteDriver)

/-- The row that holds a dispatch. -/
def ofDispatch (d : RunDispatch) : DispatchRow where
  dispatchId := d.dispatchId
  threadId := d.threadId
  runId := d.runId
  priority := d.priority.toUInt64.toInt64
  dedupeKey := d.dedupeKey
  dispatchEpoch := d.dispatchEpoch.toInt64
  status := statusToStr d.status
  availableAt := d.availableAt.toInt64
  attemptCount := d.attemptCount.toUInt64.toInt64
  maxAttempts := d.maxAttempts.toUInt64.toInt64
  lastError := d.lastError
  claimToken := d.claimToken
  claimedBy := d.claimedBy
  leaseUntil := d.leaseUntil.map UInt64.toInt64
  dispatchInstanceId := d.dispatchInstanceId
  runStatus := d.runStatus.map runStatusToStr
  termination := d.termination.map driver.toJson
  runResponse := d.runResponse
  runError := d.runError
  completedAt := d.completedAt.map UInt64.toInt64
  createdAt := d.createdAt.toInt64
  updatedAt := d.updatedAt.toInt64

/-! ## The round trip -/

/-- The fields of a dispatch come back from its row. -/
theorem parts_ofDispatch (d : RunDispatch) :
    (ofDispatch driver d).parts d.status d.runStatus d.termination = d := by
  have htime : ∀ t : Option UInt64, (t.map UInt64.toInt64).map Int64.toUInt64 = t := fun t => by
    cases t <;> rfl
  simp only [parts, ofDispatch, htime]
  have hpriority : d.priority.toUInt64.toInt64.toUInt64.toUInt8 = d.priority :=
    UInt8.toUInt8_toUInt64 _
  have hattempts : d.attemptCount.toUInt64.toInt64.toUInt64.toUInt32 = d.attemptCount :=
    UInt32.toUInt32_toUInt64 _
  have hmax : d.maxAttempts.toUInt64.toInt64.toUInt64.toUInt32 = d.maxAttempts :=
    UInt32.toUInt32_toUInt64 _
  rw [hpriority, hattempts, hmax]
  rfl

/-- What decoding the row of a dispatch comes down to: the persistence checks. -/
theorem rowToDispatch_ofDispatch_eq (d : RunDispatch) :
    (ofDispatch driver d).rowToDispatch driver = d.fromPersistedParts.mapError fun e =>
      .fromSqlConversionFailure 0 (.storage e) := by
  have hstatus : strToStatus (ofDispatch driver d).status = .ok d.status :=
    strToStatus_eq_ok.mpr rfl
  have hrun : (ofDispatch driver d).runStatus.mapM strToRunStatus = .ok d.runStatus := by
    cases h : d.runStatus with
    | none => simp only [ofDispatch, h]; rfl
    | some st =>
      have hst : strToRunStatus (runStatusToStr st) = .ok st := strToRunStatus_eq_ok.mpr rfl
      simp only [ofDispatch, h, Option.map_some, Option.mapM_some, hst]
      rfl
  have hterm : (ofDispatch driver d).termination.mapM driver.fromJson = .ok d.termination := by
    cases h : d.termination with
    | none => simp only [ofDispatch, h]; rfl
    | some t =>
      simp only [ofDispatch, h, Option.map_some, Option.mapM_some, driver.fromJson_toJson]
      rfl
  unfold rowToDispatch
  rw [hstatus, hrun, hterm]
  simp only [Except.mapError, bind, Except.bind, parts_ofDispatch]

/-- The row of a dispatch decodes exactly when the dispatch is valid, and then to
    the dispatch. -/
theorem rowToDispatch_ofDispatch {d d' : RunDispatch} :
    (ofDispatch driver d).rowToDispatch driver = .ok d' ↔ d.Valid ∧ d' = d := by
  rw [rowToDispatch_ofDispatch_eq, ← RunDispatch.validateForPersist_ok]
  unfold RunDispatch.fromPersistedParts
  cases d.validateForPersist with
  | error e => simp [Except.mapError]
  | ok u => simp [Except.mapError, eq_comm]

/-- A row decodes to valid dispatches only. -/
theorem valid_of_rowToDispatch {row : DispatchRow} {d : RunDispatch}
    (h : row.rowToDispatch driver = .ok d) : d.Valid := by
  unfold rowToDispatch at h
  cases hs : strToStatus row.status with
  | error e => simp [hs, Except.mapError, bind, Except.bind] at h
  | ok status =>
    cases hr : row.runStatus.mapM strToRunStatus with
    | error e => simp [hs, hr, Except.mapError, bind, Except.bind] at h
    | ok runStatus =>
      cases ht : row.termination.mapM driver.fromJson with
      | error e => simp [hs, hr, ht, Except.mapError, bind, Except.bind] at h
      | ok termination =>
        simp only [hs, hr, ht, Except.mapError, bind, Except.bind,
          RunDispatch.fromPersistedParts] at h
        cases hv : (row.parts status runStatus termination).validateForPersist with
        | error e => simp [hv] at h
        | ok u =>
          simp only [hv, Except.ok.injEq] at h
          exact h ▸ RunDispatch.validateForPersist_ok.mp hv

/-- The dispatches that rows decode to are the valid ones, and each comes back from the row it is
    written to. -/
theorem exists_rowToDispatch_iff (d : RunDispatch) :
    ((∃ row : DispatchRow, row.rowToDispatch driver = .ok d) ↔ d.Valid) ∧
      (d.Valid ↔ (ofDispatch driver d).rowToDispatch driver = .ok d) := by
  have hback : (ofDispatch driver d).rowToDispatch driver = .ok d ↔ d.Valid := by
    simp [rowToDispatch_ofDispatch]
  exact ⟨⟨fun ⟨_, h⟩ => valid_of_rowToDispatch driver h, fun h => ⟨_, hback.mpr h⟩⟩, hback.symm⟩

/-- The rows of valid dispatches decode to the dispatches. -/
theorem mapM_rowToDispatch (ds : List RunDispatch) (h : ∀ d ∈ ds, d.Valid) :
    (ds.map (ofDispatch driver)).mapM (rowToDispatch driver) = .ok ds := by
  induction ds with
  | nil => rfl
  | cons d ds ih =>
    have hd : (ofDispatch driver d).rowToDispatch driver = .ok d :=
      (rowToDispatch_ofDispatch driver).mpr ⟨h d List.mem_cons_self, rfl⟩
    have hds := ih fun d' hd' => h d' (List.mem_cons_of_mem _ hd')
    rw [List.map_cons, List.mapM_cons, hd]
    simp only [bind, Except.bind]
    rw [hds]
    rfl

end DispatchRow

/-! ## What an update statement makes of a dispatch -/

namespace RunDispatch

/-- `setSupersededAtEpoch` as a change of the record: the runtime projection stays. -/
def sqlSuperseded (epoch : UInt64) (reason : String) (now : UInt64) (d : RunDispatch) :
    RunDispatch :=
  { d with
    status := .superseded
    dispatchEpoch := epoch
    lastError := some reason
    completedAt := some now
    updatedAt := now }.clearClaimFields

/-- `setNackDeadLetter` as a change of the record. -/
def sqlNackDeadLetter (attemptCount : UInt32) (error : String) (now : UInt64) (d : RunDispatch) :
    RunDispatch :=
  { d with
    status := .deadLetter
    attemptCount := attemptCount
    lastError := some error
    completedAt := some now
    updatedAt := now }.clearClaimFields

/-- `setNackRequeue` as a change of the record: the completion time stays. -/
def sqlNackRequeue (attemptCount : UInt32) (error : String) (retryAt now : UInt64)
    (d : RunDispatch) : RunDispatch :=
  ({ d with
    status := .queued
    attemptCount := attemptCount
    lastError := some error
    availableAt := retryAt
    updatedAt := now }.clearClaimFields).clearRuntimeProjection

/-- `setReclaimRequeue` as a change of the record: the completion time and the time
    it becomes available stay. -/
def sqlReclaimRequeue (attemptCount : UInt32) (now : UInt64) (d : RunDispatch) : RunDispatch :=
  ({ d with
    status := .queued
    attemptCount := attemptCount
    updatedAt := now }.clearClaimFields).clearRuntimeProjection

/-- `setReclaimDeadLetter` as a change of the record: the last error and the time it
    becomes available stay. -/
def sqlReclaimDeadLetter (attemptCount : UInt32) (now : UInt64) (d : RunDispatch) : RunDispatch :=
  ({ d with
    status := .deadLetter
    attemptCount := attemptCount
    completedAt := some now
    updatedAt := now }.clearClaimFields).clearRuntimeProjection

theorem sqlSuperseded_valid {d : RunDispatch} (hd : d.Identified) (epoch : UInt64)
    (reason : String) (now : UInt64) : (d.sqlSuperseded epoch reason now).Valid :=
  Identified.valid_terminal (hd.congr rfl rfl rfl rfl rfl) rfl ⟨rfl, rfl, rfl⟩ rfl

/-- A valid dispatch that holds a token is claimed. -/
theorem Valid.claimed_of_token {d : RunDispatch} (hd : d.Valid) (h : d.claimToken ≠ none) :
    d.status = .claimed := by
  by_contra hne
  have hcases : d.status = .queued ∨ d.status.isTerminal = true := by
    cases hs : d.status <;> simp_all [RunDispatchStatus.isTerminal]
  rcases hcases with hs | hs
  · exact h (hd.queued hs).1.claimToken
  · exact h (hd.terminal hs).1.claimToken

end RunDispatch

namespace SqliteMailboxStore

open DispatchRow

variable {driver : SqliteDriver} (d : RunDispatch)

@[simp] theorem setSupersededAtEpoch_ofDispatch (epoch : UInt64) (reason : String) (now : UInt64) :
    setSupersededAtEpoch epoch reason now (ofDispatch driver d) =
      ofDispatch driver (d.sqlSuperseded epoch reason now) := rfl

@[simp] theorem setClaimed_ofDispatch (claimToken consumerId : String) (leaseUntil now : UInt64) :
    setClaimed claimToken consumerId leaseUntil now (ofDispatch driver d) =
      ofDispatch driver (d.writeClaimed consumerId claimToken leaseUntil now) := rfl

@[simp] theorem setAcked_ofDispatch (now : UInt64) :
    setAcked now (ofDispatch driver d) = ofDispatch driver (d.writeAcked now) := rfl

@[simp] theorem setDispatchStart_ofDispatch (dispatchInstanceId : String) (now : UInt64) :
    setDispatchStart dispatchInstanceId now (ofDispatch driver d) =
      ofDispatch driver (d.writeDispatchStart dispatchInstanceId now) := rfl

@[simp] theorem setRunResult_ofDispatch (result : RunDispatchResult) (now : UInt64) :
    setRunResult driver result now (ofDispatch driver d) =
      ofDispatch driver (d.writeRunResult result now) := rfl

@[simp] theorem setNackDeadLetter_ofDispatch (attemptCount : UInt32) (error : String)
    (now : UInt64) : setNackDeadLetter attemptCount error now (ofDispatch driver d) =
      ofDispatch driver (d.sqlNackDeadLetter attemptCount error now) := rfl

@[simp] theorem setNackRequeue_ofDispatch (attemptCount : UInt32) (error : String)
    (retryAt now : UInt64) : setNackRequeue attemptCount error retryAt now (ofDispatch driver d) =
      ofDispatch driver (d.sqlNackRequeue attemptCount error retryAt now) := rfl

@[simp] theorem setDeadLetter_ofDispatch (error : String) (now : UInt64) :
    setDeadLetter error now (ofDispatch driver d) =
      ofDispatch driver (d.writeDeadLetter now error) := rfl

@[simp] theorem setLease_ofDispatch (leaseUntil now : UInt64) :
    setLease leaseUntil now (ofDispatch driver d) =
      ofDispatch driver (d.writeLeaseExtension leaseUntil now) := rfl

@[simp] theorem setCancelled_ofDispatch (now : UInt64) :
    setCancelled now (ofDispatch driver d) = ofDispatch driver (d.writeCancelled now) := rfl

@[simp] theorem setReclaimRequeue_ofDispatch (attemptCount : UInt32) (now : UInt64) :
    setReclaimRequeue attemptCount now (ofDispatch driver d) =
      ofDispatch driver (d.sqlReclaimRequeue attemptCount now) := rfl

@[simp] theorem setReclaimDeadLetter_ofDispatch (attemptCount : UInt32) (now : UInt64) :
    setReclaimDeadLetter attemptCount now (ofDispatch driver d) =
      ofDispatch driver (d.sqlReclaimDeadLetter attemptCount now) := rfl

/-- The inserted row holds the dispatch bound to the selected epoch. -/
theorem insertedRow_eq (hd : d.Valid) (hqueued : d.status = .queued) (epoch : UInt64) :
    insertedRow d epoch.toInt64 = ofDispatch driver (d.prepareForEnqueue epoch) := by
  obtain ⟨hunclaimed, -, -⟩ := hd.queued hqueued
  simp only [insertedRow, ofDispatch, RunDispatch.prepareForEnqueue, hunclaimed.claimToken,
    hunclaimed.claimedBy, hunclaimed.leaseUntil]
  rfl

end SqliteMailboxStore

/-! ## A driver with a plain text format -/

namespace SqliteDriver

/-- Escape a text so that a second text can follow it. -/
def mark : List Char → List Char
  | [] => ['.']
  | c :: cs => '+' :: c :: mark cs

/-- Read an escaped text and what follows it. -/
def unmark : List Char → List Char × List Char
  | '+' :: c :: rest => (c :: (unmark rest).1, (unmark rest).2)
  | rest => ([], rest.tail)

theorem unmark_mark (code rest : List Char) : unmark (mark code ++ rest) = (code, rest) := by
  induction code with
  | nil => rfl
  | cons c cs ih => rw [mark, List.cons_append, List.cons_append, unmark, ih]

/-- The tagged text of a termination reason. -/
def tagged : TerminationReason → List Char
  | .naturalEnd => ['n']
  | .behaviorRequested => ['r']
  | .cancelled => ['c']
  | .suspended => ['u']
  | .blocked message => 'b' :: message.toList
  | .error message => 'e' :: message.toList
  | .stopped ⟨code, none⟩ => 's' :: code.toList
  | .stopped ⟨code, some detail⟩ => 'd' :: (mark code.toList ++ detail.toList)

/-- Read a tagged text. -/
def untagged : List Char → Except String TerminationReason
  | ['n'] => .ok .naturalEnd
  | ['r'] => .ok .behaviorRequested
  | ['c'] => .ok .cancelled
  | ['u'] => .ok .suspended
  | 'b' :: message => .ok (.blocked (String.ofList message))
  | 'e' :: message => .ok (.error (String.ofList message))
  | 's' :: code => .ok (.stopped ⟨String.ofList code, none⟩)
  | 'd' :: rest =>
    .ok (.stopped ⟨String.ofList (unmark rest).1, some (String.ofList (unmark rest).2)⟩)
  | _ => .error "unknown termination"

theorem untagged_tagged (t : TerminationReason) : untagged (tagged t) = .ok t := by
  rcases t with _ | _ | ⟨code, _ | detail⟩ | _ | message | _ | message
  all_goals simp [tagged, untagged, unmark_mark]

/-- A driver that writes tagged texts. -/
def plain : SqliteDriver where
  toJson t := String.ofList (tagged t)
  fromJson s := untagged s.toList
  display _ := "database error"
  fromJson_toJson t := by rw [String.toList_ofList, untagged_tagged]

end SqliteDriver

end Remo
