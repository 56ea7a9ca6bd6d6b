import Remo.Spec.Mailbox.ExpectSafety
import Remo.Spec.Mailbox.SqliteSteps

/-!
# Rows the SQLite store can read back

The sweeps, purges and listings of the store, and the runs in which every row decodes.
-/

/-! ## Lease sweeps, purges and listings of the SQLite mailbox store

The sweep decodes all expired rows first and then writes one row after the other.
The ids of the rows are distinct, so each pass finds the dispatch it decoded.
-/

namespace Remo.SqliteMailboxStore

open DispatchRow

variable {driver : SqliteDriver} {q : SqliteMailboxStore} {m : AssocMap String RunDispatch}
  {epoch : String → UInt64}

/-! ## Lease sweeps -/

/-- What a sweep writes for a dispatch whose thread is at `currentEpoch`. -/
def reclaimWrite (now currentEpoch : UInt64) (d : RunDispatch) : RunDispatch :=
  if d.dispatchEpoch < currentEpoch then
    d.sqlSuperseded currentEpoch MailboxState.reasonClaimedLeaseExpiredAfterInterrupt now
  else if d.maxAttempts ≤ d.attemptCount + 1 then d.sqlReclaimDeadLetter (d.attemptCount + 1) now
  else d.sqlReclaimRequeue (d.attemptCount + 1) now

/-- Counting the attempt of a dispatch at its thread's epoch would overflow. -/
def CannotCount (currentEpoch : UInt64) (d : RunDispatch) : Prop :=
  ¬d.dispatchEpoch < currentEpoch ∧ d.attemptCount = 0xFFFFFFFF

/-- One pass of a sweep: it panics before it writes, or it writes the dispatch. -/
theorem Holds.reclaimOne_cases (h : Holds driver q m epoch) {d : RunDispatch}
    (hd : m.get? d.dispatchId = some d) (hs : d.status = .claimed) (now : UInt64)
    (hvalid : ¬CannotCount (epoch d.threadId) d → (reclaimWrite now (epoch d.threadId) d).Valid) :
    (CannotCount (epoch d.threadId) d ∧
      reclaimOne driver now d q = (.error (.panic .arithmeticOverflow), q)) ∨
    (¬CannotCount (epoch d.threadId) d ∧ ∃ q', reclaimOne driver now d q = (.ok (), q') ∧
      Holds driver q' (m.modify d.dispatchId fun _ =>
        reclaimWrite now (epoch d.threadId) d) epoch) := by
  have htoken : ∃ claimToken, d.claimToken = some claimToken := by
    have hleased := ((h.valid _ _ hd).claimed hs).claimToken
    cases ht : d.claimToken with
    | none => rw [ht] at hleased; cases hleased
    | some claimToken => exact ⟨claimToken, rfl⟩
  obtain ⟨claimToken, htoken⟩ := htoken
  unfold reclaimOne
  rw [htoken]
  dsimp only
  by_cases hstale : d.dispatchEpoch < epoch d.threadId
  · obtain ⟨q', hcall, hholds⟩ := h.supersedeStaleClaimed_of_stale hd hs htoken hstale now
      MailboxState.reasonClaimedLeaseExpiredAfterInterrupt
    refine .inr ⟨fun hover => hover.1 hstale, q', ?_, ?_⟩
    · rw [Method.bind, hcall]
      rfl
    · rwa [reclaimWrite, if_pos hstale]
  · rw [Method.bind, h.supersedeStaleClaimed_of_fresh (UInt64.not_lt.mp hstale)]
    simp only [Bool.false_eq_true, if_false]
    unfold nextAttempt
    by_cases hover : d.attemptCount = 0xFFFFFFFF
    · rw [if_pos hover]
      exact .inl ⟨⟨hstale, hover⟩, rfl⟩
    · rw [if_neg hover]
      have hcan : ¬CannotCount (epoch d.threadId) d := fun hc => hover hc.2
      refine .inr ⟨hcan, ?_⟩
      have hwrite := hvalid hcan
      rw [reclaimWrite, if_neg hstale] at hwrite ⊢
      dsimp only
      split at hwrite
      · rename_i hused
        rw [if_pos hused, if_pos hused]
        exact ⟨_, rfl, h.updateById hd _ _ (setReclaimDeadLetter_ofDispatch d _ _) rfl hwrite⟩
      · rename_i hleft
        rw [if_neg hleft, if_neg hleft]
        exact ⟨_, rfl, h.updateById hd _ _ (setReclaimRequeue_ofDispatch d _ _) rfl hwrite⟩

/-- The loop of a sweep over stored claimed dispatches: it writes all of them, or it
    panics at one whose attempt cannot be counted. -/
theorem Holds.reclaimLoop_cases (h : Holds driver q m epoch) {ds : List RunDispatch}
    (hnd : (ds.map RunDispatch.dispatchId).Nodup) (now : UInt64)
    (hds : ∀ d ∈ ds, m.get? d.dispatchId = some d ∧ d.status = .claimed ∧
      (¬CannotCount (epoch d.threadId) d → (reclaimWrite now (epoch d.threadId) d).Valid)) :
    ((∃ d ∈ ds, CannotCount (epoch d.threadId) d) ∧ ∃ q' m',
      Method.forEach (reclaimOne driver now) ds q = (.error (.panic .arithmeticOverflow), q') ∧
      Holds driver q' m' epoch) ∨
    ((∀ d ∈ ds, ¬CannotCount (epoch d.threadId) d) ∧ ∃ us q',
      Method.forEach (reclaimOne driver now) ds q = (.ok us, q') ∧
      Holds driver q' (m.mapValues fun k d =>
        if k ∈ ds.map RunDispatch.dispatchId then reclaimWrite now (epoch d.threadId) d
        else d) epoch) := by
  induction ds generalizing q m with
  | nil =>
    refine .inr ⟨fun d hd => absurd hd List.not_mem_nil, [], q, rfl, ?_⟩
    have hsame : (m.mapValues fun k d => if k ∈ ([] : List RunDispatch).map RunDispatch.dispatchId
        then reclaimWrite now (epoch d.threadId) d else d) = m := by
      simp only [List.map_nil, List.not_mem_nil, if_false]
      ext1
      simp [AssocMap.mapValues]
    rwa [hsame]
  | cons d ds ih =>
    obtain ⟨hnot, hnd'⟩ := List.nodup_cons.mp hnd
    obtain ⟨hd, hs, hvalid⟩ := hds d List.mem_cons_self
    unfold Method.forEach Method.bind
    rcases h.reclaimOne_cases hd hs now hvalid with ⟨hover, hcall⟩ | ⟨hcan, q₁, hcall, hholds⟩
    · rw [hcall]
      exact .inl ⟨⟨d, List.mem_cons_self, hover⟩, q, m, rfl, h⟩
    · rw [hcall]
      dsimp only
      -- the first pass wrote another dispatch than the later ones
      have hds' : ∀ d' ∈ ds, (m.modify d.dispatchId fun _ =>
          reclaimWrite now (epoch d.threadId) d).get? d'.dispatchId = some d' ∧
          d'.status = .claimed ∧ (¬CannotCount (epoch d'.threadId) d' →
            (reclaimWrite now (epoch d'.threadId) d').Valid) := by
        intro d' hd'
        obtain ⟨hget, hs', hvalid'⟩ := hds d' (List.mem_cons_of_mem _ hd')
        have hne : d'.dispatchId ≠ d.dispatchId := fun heq =>
          hnot (heq ▸ List.mem_map_of_mem hd')
        exact ⟨by rw [AssocMap.get?_modify_of_ne _ _ hne, hget], hs', hvalid'⟩
      rcases ih hholds hnd' hds' with ⟨⟨d', hd', hover⟩, q', m', hrest, hq'⟩ |
        ⟨hall, us, q', hrest, hq'⟩
      · rw [hrest]
        exact .inl ⟨⟨d', List.mem_cons_of_mem _ hd', hover⟩, q', m', rfl, hq'⟩
      · rw [hrest]
        refine .inr ⟨fun e he => ?_, () :: us, q', rfl, cast ?_ hq'⟩
        · rcases List.mem_cons.mp he with rfl | he'
          · exact hcan
          · exact hall e he'
        · congr 1
          rw [AssocMap.modify, AssocMap.mapValues_mapValues]
          refine AssocMap.mapValues_congr fun k e he => ?_
          by_cases hk : k = d.dispatchId
          · subst hk
            rw [hd] at he
            cases he
            simp [hnot]
          · simp [hk]

/-- The dispatches a sweep takes back, in scan order. -/
def expiredRows (m : AssocMap String RunDispatch) (now limit : UInt64) : List RunDispatch :=
  sqlLimit limit.toInt64 (m.values.filter fun d => statusToStr d.status == "Claimed"
    && (d.leaseUntil.map UInt64.toInt64).any fun leaseUntil => decide (leaseUntil < now.toInt64))

theorem Holds.expired (h : Holds driver q m epoch) (now limit : UInt64) :
    sqlLimit limit.toInt64 (q.expired now) =
      (expiredRows m now limit).map (ofDispatch driver) := by
  rw [SqliteMailboxStore.expired, h.selectWhere, sqlLimit_map]
  rfl

theorem mem_expiredRows {now limit : UInt64} {d : RunDispatch}
    (hd : d ∈ expiredRows m now limit) : d ∈ m.values ∧ d.status = .claimed := by
  obtain ⟨hvalues, hcond⟩ := List.mem_filter.mp ((sqlLimit_sublist _ _).subset hd)
  simp only [Bool.and_eq_true, beq_iff_eq] at hcond
  exact ⟨hvalues, statusToStr_injective hcond.1⟩

theorem Holds.nodup_expiredRows (h : Holds driver q m epoch) (now limit : UInt64) :
    ((expiredRows m now limit).map RunDispatch.dispatchId).Nodup := by
  refine List.Nodup.sublist ((sqlLimit_sublist _ _).map _) ?_
  refine List.Nodup.sublist (List.filter_sublist.map _) ?_
  rw [h.ids]
  exact m.nodup_keys

/-- All that a lease sweep can do. -/
theorem Holds.reclaimExpiredLeases_cases (h : Holds driver q m epoch) (now limit : UInt64)
    (hvalid : ∀ d ∈ expiredRows m now limit, ¬CannotCount (epoch d.threadId) d →
      (reclaimWrite now (epoch d.threadId) d).Valid) :
    ((∃ d ∈ expiredRows m now limit, CannotCount (epoch d.threadId) d) ∧ ∃ q' m',
      reclaimExpiredLeases driver now limit q = (.error (.panic .arithmeticOverflow), q') ∧
      Holds driver q' m' epoch) ∨
    ((∀ d ∈ expiredRows m now limit, ¬CannotCount (epoch d.threadId) d) ∧ ∃ ds q',
      reclaimExpiredLeases driver now limit q = (.ok ds, q') ∧
      Holds driver q' (m.mapValues fun k d =>
        if k ∈ (expiredRows m now limit).map RunDispatch.dispatchId then
          reclaimWrite now (epoch d.threadId) d
        else d) epoch) := by
  have hloop := h.reclaimLoop_cases (h.nodup_expiredRows now limit) now fun d hd =>
    ⟨h.get?_of_mem (mem_expiredRows hd).1, (mem_expiredRows hd).2, hvalid d hd⟩
  unfold reclaimExpiredLeases
  rw [h.expired, h.decodeRows _ fun d hd => (mem_expiredRows hd).1]
  dsimp only
  cases hempty : (expiredRows m now limit).isEmpty with
  | true =>
    have hnil : expiredRows m now limit = [] := List.isEmpty_iff.mp hempty
    rw [hnil] at hloop ⊢
    rcases hloop with ⟨⟨d, hd, -⟩, -⟩ | ⟨hall, us, q', hcall, hholds⟩
    · exact absurd hd List.not_mem_nil
    · cases hcall
      exact .inr ⟨hall, [], q, rfl, hholds⟩
  | false =>
    simp only [Bool.false_eq_true, if_false]
    rcases hloop with ⟨hover, q', m', hcall, hholds⟩ | ⟨hall, us, q', hcall, hholds⟩
    · refine .inl ⟨hover, q', m', ?_, hholds⟩
      rw [Method.bind, hcall]
    · right
      have hreload : ∃ ds, (expiredRows m now limit).mapM (fun dispatch =>
          q'.reloadRow driver "reclaim reload" dispatch.dispatchId) = .ok ds := by
        refine mapM_returns fun d hd => ?_
        have hget := h.get?_of_mem (mem_expiredRows hd).1
        exact ⟨_, hholds.reloadRow _ _ (by rw [AssocMap.get?_mapValues, hget, Option.map_some])⟩
      obtain ⟨ds, hds⟩ := hreload
      refine ⟨hall, ds.filter fun dispatch => dispatch.status != .superseded, q', ?_, hholds⟩
      rw [Method.bind, hcall]
      dsimp only
      rw [hds]
      rfl

/-! ## Purges -/

/-- A purge drops the old terminal dispatches and keeps every epoch. -/
theorem Holds.purgeTerminal (h : Holds driver q m epoch) (olderThan : UInt64) :
    ∃ n q', SqliteMailboxStore.purgeTerminal olderThan q = (.ok n, q') ∧
      Holds driver q' (m.retain fun _ d => !(d.status.isTerminal
        && decide (d.updatedAt.toInt64 < olderThan.toInt64))) epoch := by
  refine ⟨_, _, rfl, ?_, fun k d hd => ?_, fun k d hd => ?_, h.epochs⟩
  · dsimp only
    rw [h.rows, AssocMap.retain_mapValues]
    congr 2
    funext _ d
    rw [← terminalStatuses_contains]
    rfl
  · rw [AssocMap.get?_retain, Option.filter_eq_some_iff] at hd
    exact h.keyed k d hd.1
  · rw [AssocMap.get?_retain, Option.filter_eq_some_iff] at hd
    exact h.valid k d hd.1

/-! ## Listings -/

/-- The dispatches of a thread that a listing selects, in queue order. -/
def listedRows (driver : SqliteDriver) (m : AssocMap String RunDispatch) (threadId : String)
    (statusFilter : Option (List RunDispatchStatus)) : List RunDispatch :=
  (m.values.filter fun d => d.threadId == threadId &&
    statusFilter.all (·.contains d.status)).insertionSort (queueRowLe driver)

/-- A listing decodes, unless its limit or its offset is beyond the column range. -/
theorem Holds.listDispatches (h : Holds driver q m epoch) (threadId : String)
    (statusFilter : Option (List RunDispatchStatus)) {limit offset : UInt64}
    (hlimit : limit.toNat < 0x8000000000000000) (hoffset : offset.toNat < 0x8000000000000000) :
    q.listDispatches driver threadId statusFilter limit offset =
      .ok (((listedRows driver m threadId statusFilter).drop offset.toNat).take limit.toNat) := by
  unfold SqliteMailboxStore.listDispatches
  by_cases hnone : statusFilter = some []
  · rw [if_pos hnone]
    subst hnone
    simp [listedRows]
  · rw [if_neg hnone, h.selectWhere]
    dsimp only
    rw [insertionSort_rows, fetchLiteral, if_pos ⟨hlimit, hoffset⟩, sqlOffset_map, sqlLimit_map]
    have hsame : (m.values.filter fun d => (ofDispatch driver d).threadId == threadId &&
        statusFilter.all fun statuses =>
          (statuses.map statusToStr).contains (ofDispatch driver d).status) =
        m.values.filter fun d => d.threadId == threadId && statusFilter.all (·.contains d.status) := by
      refine List.filter_congr fun d _ => ?_
      have hcontains : ∀ statuses : List RunDispatchStatus,
          (statuses.map statusToStr).contains (statusToStr d.status) =
            statuses.contains d.status := fun statuses => by
        rw [Bool.eq_iff_iff]
        simp
      simp only [ofDispatch, hcontains]
    rw [hsame]
    have hdecode := mapM_rowToDispatch driver
      (sqlLimit limit.toInt64 (sqlOffset offset.toInt64
        (listedRows driver m threadId statusFilter))) fun d hd => by
      have hmem := (sqlOffset_sublist _ _).subset ((sqlLimit_sublist _ _).subset hd)
      exact h.valid_of_mem (List.mem_of_mem_filter
        ((List.mem_insertionSort (queueRowLe driver)).mp hmem))
    have hfetch : sqlLimit limit.toInt64 (sqlOffset offset.toInt64
        (listedRows driver m threadId statusFilter)) =
        ((listedRows driver m threadId statusFilter).drop offset.toNat).take limit.toNat := by
      unfold sqlLimit sqlOffset
      rw [if_neg (not_toInt64_neg hlimit), if_neg (not_toInt64_neg hoffset)]
      rfl
    rw [hfetch] at hdecode
    simp only [bind, Except.bind]
    rw [show (m.values.filter fun d => d.threadId == threadId &&
      statusFilter.all (·.contains d.status)).insertionSort (queueRowLe driver) =
        listedRows driver m threadId statusFilter from rfl, hfetch, hdecode]
    rfl

/-- The terminal listing decodes. -/
theorem Holds.listTerminalDispatches (h : Holds driver q m epoch) (limit offset : UInt64) :
    ∃ ds, q.listTerminalDispatches driver limit offset = .ok ds := by
  unfold SqliteMailboxStore.listTerminalDispatches
  rw [h.selectWhere]
  dsimp only
  rw [← List.map_insertionSort
    (fun a b => terminalLe (ofDispatch driver a) (ofDispatch driver b)) terminalLe _ _
    fun _ _ _ _ => Iff.rfl, sqlOffset_map, sqlLimit_map]
  refine ⟨_, h.decodeRows _ fun d hd => ?_⟩
  have hmem := (sqlOffset_sublist _ _).subset ((sqlLimit_sublist _ _).subset hd)
  exact List.mem_of_mem_filter ((List.mem_insertionSort _).mp hmem)

end Remo.SqliteMailboxStore

/-! ## Rows the SQLite store can read back

Loading a dispatch runs the persistence checks, so a row that violates them makes
every later scan of its thread fail. A nack and a lease sweep requeue a dispatch
without clearing `completed_at`, and they count an attempt past the limit when the
limit is already reached. In a run without these two, every row decodes and the
scanning calls never fail.
-/

namespace Remo

/-- The call decodes rows it selects. A listing whose limit or offset is beyond the
    column range does not get that far. -/
def MailboxOp.ScansRows : MailboxOp → Prop
  | .claim _ _ _ _ _ _ | .claimDispatch _ _ _ _ _ | .loadDispatch _
  | .reclaimExpiredLeases _ _ => True
  | .listDispatches _ _ limit offset =>
    limit.toNat < 0x8000000000000000 ∧ offset.toNat < 0x8000000000000000
  | _ => False

/-- Taking the dispatch back leaves a record that passes the persistence checks:
    there is an attempt left to count, and when the dispatch goes back to the queue
    it carries no completion time. -/
def RunDispatch.CanBeTakenBack (d : RunDispatch) : Prop :=
  d.HasAttemptLeft ∧ (d.attemptCount.toNat + 1 < d.maxAttempts.toNat → d.completedAt = none)

instance (d : RunDispatch) : Decidable d.CanBeTakenBack :=
  inferInstanceAs (Decidable (_ ∧ _))

namespace RunDispatch

/-- A counter that does not overflow counts up to the limit at most. -/
theorem HasAttemptLeft.succ_le {d : RunDispatch} (h : d.HasAttemptLeft)
    (_hcan : d.attemptCount ≠ 0xFFFFFFFF) : d.attemptCount + 1 ≤ d.maxAttempts := by
  unfold HasAttemptLeft at h
  grind

/-- Below the limit the next attempt is below it too, unless it is the last. -/
theorem not_maxAttempts_le_succ {d : RunDispatch} (hcan : d.attemptCount ≠ 0xFFFFFFFF)
    (h : ¬d.maxAttempts ≤ d.attemptCount + 1) :
    d.attemptCount.toNat + 1 < d.maxAttempts.toNat := by
  have hlt := UInt32.lt_iff_toNat_lt.mp (UInt32.not_le.mp h)
  have hbound := d.attemptCount.toNat_lt
  have hne : d.attemptCount.toNat ≠ 0xFFFFFFFF := fun heq =>
    hcan (UInt32.toNat_inj.mp heq)
  rw [UInt32.toNat_add, UInt32.toNat_one, Nat.mod_eq_of_lt (by omega)] at hlt
  exact hlt

/-- Counting an attempt within the limit keeps identity and budget in order. -/
theorem Identified.counted {d d' : RunDispatch} (hd : d.Identified)
    (hdisp : d'.dispatchId = d.dispatchId) (hthread : d'.threadId = d.threadId)
    (hrun : d'.runId = d.runId) (hmax : d'.maxAttempts = d.maxAttempts)
    (hle : d'.attemptCount ≤ d.maxAttempts) : d'.Identified :=
  ⟨hdisp ▸ hd.dispatchId, hthread ▸ hd.threadId, hrun ▸ hd.runId, hmax ▸ hd.budget, hmax ▸ hle⟩

section TakenBack

variable {d : RunDispatch} (hd : d.Identified) (hback : d.CanBeTakenBack)
  (hcan : d.attemptCount ≠ 0xFFFFFFFF)
include hd hback hcan

theorem sqlNackDeadLetter_valid (error : String) (now : UInt64) :
    (d.sqlNackDeadLetter (d.attemptCount + 1) error now).Valid :=
  Identified.valid_terminal (hd.counted rfl rfl rfl rfl (hback.1.succ_le hcan)) rfl
    ⟨rfl, rfl, rfl⟩ rfl

theorem sqlNackRequeue_valid (hleft : ¬d.maxAttempts ≤ d.attemptCount + 1) (error : String)
    (retryAt now : UInt64) :
    (d.sqlNackRequeue (d.attemptCount + 1) error retryAt now).Valid :=
  Identified.valid_queued (hd.counted rfl rfl rfl rfl (hback.1.succ_le hcan)) rfl
    ⟨rfl, rfl, rfl⟩ (hback.2 (not_maxAttempts_le_succ hcan hleft)) ⟨rfl, rfl, rfl, rfl, rfl⟩

theorem sqlReclaimDeadLetter_valid (now : UInt64) :
    (d.sqlReclaimDeadLetter (d.attemptCount + 1) now).Valid :=
  Identified.valid_terminal (hd.counted rfl rfl rfl rfl (hback.1.succ_le hcan)) rfl
    ⟨rfl, rfl, rfl⟩ rfl

theorem sqlReclaimRequeue_valid (hleft : ¬d.maxAttempts ≤ d.attemptCount + 1) (now : UInt64) :
    (d.sqlReclaimRequeue (d.attemptCount + 1) now).Valid :=
  Identified.valid_queued (hd.counted rfl rfl rfl rfl (hback.1.succ_le hcan)) rfl
    ⟨rfl, rfl, rfl⟩ (hback.2 (not_maxAttempts_le_succ hcan hleft)) ⟨rfl, rfl, rfl, rfl, rfl⟩

end TakenBack

end RunDispatch

namespace SqliteMailboxStore

open DispatchRow
open InMemoryMailboxStore (NamesConsumer)

/-- The dispatch is not behind its thread's epoch. -/
def AtEpoch (driver : SqliteDriver) (q : SqliteMailboxStore) (d : RunDispatch) : Prop :=
  ∀ epoch ∈ (q.currentEpochForConn driver d.threadId).toOption, epoch ≤ d.dispatchEpoch

instance (driver : SqliteDriver) (q : SqliteMailboxStore) (d : RunDispatch) :
    Decidable (AtEpoch driver q d) :=
  Option.decidableForallMem (q.currentEpochForConn driver d.threadId).toOption

/-- The dispatches that rows decode to. -/
def decoded (driver : SqliteDriver) (rows : List DispatchRow) : List RunDispatch :=
  rows.filterMap fun row => (row.rowToDispatch driver).toOption

/-- What the call takes back can be read afterwards, and what it counts stays an
    integer column. -/
def TakesBackReadable (driver : SqliteDriver) (q : SqliteMailboxStore) : MailboxOp → Prop
  | .nack dispatchId claimToken _ _ _ =>
    ∀ d ∈ decoded driver (q.runDispatches.get? dispatchId).toList,
      d.claimToken = some claimToken → AtEpoch driver q d → d.CanBeTakenBack
  | .reclaimExpiredLeases now limit =>
    ∀ d ∈ decoded driver (sqlLimit limit.toInt64 (q.expired now)),
      AtEpoch driver q d → d.CanBeTakenBack
  | .interrupt threadId _ | .interruptDetailed threadId _ =>
    q.threadDispatchEpochs.get? threadId ≠ some (.integer Int64.maxValue)
  | _ => True

instance (driver : SqliteDriver) (q : SqliteMailboxStore) :
    ∀ op, Decidable (TakesBackReadable driver q op) := by
  intro op
  cases op <;> unfold TakesBackReadable <;> infer_instance

/-- The step takes back what it can read, under the scan order of the step. -/
def KeepsReadable (driver : SqliteDriver) (q : SqliteMailboxStore) (e : MailboxEvent) : Prop :=
  TakesBackReadable driver (q.reorder e.order) e.op

instance (driver : SqliteDriver) (q : SqliteMailboxStore) (e : MailboxEvent) :
    Decidable (KeepsReadable driver q e) :=
  inferInstanceAs (Decidable (TakesBackReadable driver _ _))

/-- Every row decodes to a valid dispatch, and every epoch can be read. -/
def Readable (driver : SqliteDriver) (q : SqliteMailboxStore) : Prop :=
  ∃ m epoch, Holds driver q m epoch

/-- The call did not fail with an error. -/
abbrev NoStorageError {α : Type} (r : Outcome α) : Prop := ∀ e, r ≠ .error (.storage e)

variable {driver : SqliteDriver} {q : SqliteMailboxStore} {m : AssocMap String RunDispatch}
  {epoch : String → UInt64}

theorem Holds.readable (h : Holds driver q m epoch) : Readable driver q := ⟨m, epoch, h⟩

/-- A dispatch at its thread's epoch, in terms of the epoch read. -/
theorem Holds.atEpoch (h : Holds driver q m epoch) {d : RunDispatch}
    (hfresh : epoch d.threadId ≤ d.dispatchEpoch) : AtEpoch driver q d := by
  intro e he
  rw [h.epochs] at he
  cases he
  exact hfresh

/-- A row of a stored dispatch decodes to it. -/
theorem Holds.mem_decoded (h : Holds driver q m epoch) {k : String} {d : RunDispatch}
    (hd : m.get? k = some d) {rows : List DispatchRow} (hrow : ofDispatch driver d ∈ rows) :
    d ∈ decoded driver rows :=
  List.mem_filterMap.mpr ⟨_, hrow, by rw [h.decode hd]; rfl⟩

theorem noStorageError_ok {α : Type} (a : α) : NoStorageError (.ok a : Outcome α) := nofun

/-- A sum fails only by a panic. -/
theorem noStorageError_of_addU64 {α : Type} {a b : UInt64} {f : Fault}
    (h : Outcome.addU64 a b = .error f) : NoStorageError (.error f : Outcome α) := by
  unfold Outcome.addU64 at h
  split at h
  · cases h
  · cases h
    rintro _ ⟨⟩

/-! ## Calls keep the rows readable -/

/-- A call of a claim holder keeps the rows readable when its own statements do. -/
theorem Holds.withClaim_readable (h : Holds driver q m epoch) {α : Type}
    {context dispatchId claimToken : String} {missing rejected : Outcome α}
    {stale : RunDispatch → SqliteMailboxStore → Outcome α} {owns : RunDispatch → Bool}
    {now : UInt64} {reason : String} {update : RunDispatch → Method Fault SqliteMailboxStore α}
    (howns : ∀ d, owns d = true → d.claimToken = some claimToken)
    (hupdate : ∀ d, m.get? dispatchId = some d → owns d = true → d.status = .claimed →
      epoch d.threadId ≤ d.dispatchEpoch → Readable driver (update d q).2) :
    Readable driver (withClaim driver context dispatchId claimToken missing rejected stale owns now
      reason update q).2 := by
  rcases h.withClaim_cases context missing rejected stale now reason update howns with
    ⟨-, hcall⟩ | ⟨d, hd, ⟨-, hcall⟩ | ⟨-, -, -, q', hcall, hholds⟩ | ⟨ho, hs, hfresh, hcall⟩⟩
  all_goals rw [hcall]
  · exact h.readable
  · exact h.readable
  · exact hholds.readable
  · exact hupdate d hd ho hs hfresh

theorem claimToken_of_holdsToken {claimToken : String} {d : RunDispatch}
    (h : holdsToken claimToken d = true) : d.claimToken = some claimToken := by
  simpa [holdsToken] using h

theorem claimToken_of_holdsClaim {claimToken : String} {d : RunDispatch}
    (h : holdsClaim claimToken d = true) : d.claimToken = some claimToken := by
  simp only [holdsClaim, Bool.and_eq_true, beq_iff_eq] at h
  exact h.2

theorem Holds.nack_readable (h : Holds driver q m epoch) {dispatchId claimToken : String}
    {retryAt : UInt64} {error : String} {now : UInt64}
    (hok : TakesBackReadable driver q (.nack dispatchId claimToken retryAt error now)) :
    Readable driver (nack driver dispatchId claimToken retryAt error now q).2 := by
  refine h.withClaim_readable (fun _ => claimToken_of_holdsToken) fun d hd ho hs hfresh => ?_
  have hrow : ofDispatch driver d ∈ (q.runDispatches.get? dispatchId).toList := by
    rw [h.get?, hd, Option.map_some]
    exact List.mem_singleton.mpr rfl
  have hback := hok d (h.mem_decoded hd hrow) (claimToken_of_holdsToken ho) (h.atEpoch hfresh)
  have hid := (h.valid _ _ hd).identified
  unfold nextAttempt
  by_cases hover : d.attemptCount = 0xFFFFFFFF
  · rw [if_pos hover]
    exact h.readable
  · rw [if_neg hover]
    dsimp only
    split
    · exact (h.updateById hd _ _ (setNackDeadLetter_ofDispatch d _ _ _) rfl
        (RunDispatch.sqlNackDeadLetter_valid hid hback hover _ _)).readable
    · rename_i hleft
      exact (h.updateById hd _ _ (setNackRequeue_ofDispatch d _ _ _ _) rfl
        (RunDispatch.sqlNackRequeue_valid hid hback hover hleft _ _ _)).readable

theorem Holds.extendLease_readable (h : Holds driver q m epoch) (dispatchId claimToken : String)
    (extensionMs now : UInt64) :
    Readable driver (extendLease driver dispatchId claimToken extensionMs now q).2 := by
  refine h.withClaim_readable (fun _ => claimToken_of_holdsClaim) fun d hd ho hs _ => ?_
  cases hadd : Outcome.addU64 now extensionMs with
  | error f => exact h.readable
  | ok leaseUntil =>
    have hcond : ((ofDispatch driver d).status == "Claimed"
        && (ofDispatch driver d).claimToken == some claimToken) = true := by
      simp [ofDispatch, hs, claimToken_of_holdsClaim ho, statusToStr]
    refine (h.updateById hd _ (d.writeLeaseExtension leaseUntil now) ?_ rfl
      (RunDispatch.writeLeaseExtension_valid (h.valid _ _ hd) hs _ _)).readable
    rw [if_pos hcond, setLease_ofDispatch]

theorem Holds.claim_readable (h : Holds driver q m epoch) (threadId : String) {consumerId : String}
    (hconsumer : Str.isBlank consumerId = false) (leaseMs now limit : UInt64) (token : Uuid) :
    Readable driver (claim driver threadId consumerId leaseMs now limit token q).2 ∧
      NoStorageError (claim driver threadId consumerId leaseMs now limit token q).1 := by
  obtain ⟨q₁, m₁, -, h₁, ⟨-, hcall⟩ | ⟨-, hcall⟩⟩ :=
    h.claim_cases threadId consumerId leaseMs now limit token
  all_goals rw [hcall]
  · exact ⟨h₁.readable, noStorageError_ok _⟩
  · have hids : ∀ id ∈ (eligibleRows driver m₁ threadId now limit).map RunDispatch.dispatchId,
        ∃ d, m₁.get? id = some d ∧ d.status = .queued := by
      intro id hid
      obtain ⟨d, hd, rfl⟩ := List.mem_map.mp hid
      obtain ⟨hmem, -, hqueued⟩ := mem_eligibleRows hd
      exact ⟨d, h₁.get?_of_mem hmem, hqueued⟩
    rcases h₁.claimAll_cases (h₁.nodup_eligibleRows threadId now limit) hids hconsumer leaseMs now
        token with ⟨-, hall⟩ | ⟨-, f, hadd, hall⟩ | ⟨-, leaseUntil, ds, q', -, hall, hq'⟩
    · rw [hall]
      exact ⟨h₁.readable, noStorageError_ok _⟩
    · rw [hall]
      exact ⟨h₁.readable, noStorageError_of_addU64 hadd⟩
    · rw [hall]
      exact ⟨hq'.readable, noStorageError_ok _⟩

theorem Holds.claimDispatch_readable (h : Holds driver q m epoch) (dispatchId : String)
    {consumerId : String} (hconsumer : Str.isBlank consumerId = false) (leaseMs now : UInt64)
    (token : Uuid) :
    Readable driver (claimDispatch driver dispatchId consumerId leaseMs now token q).2 ∧
      NoStorageError (claimDispatch driver dispatchId consumerId leaseMs now token q).1 := by
  rcases h.claimDispatch_cases dispatchId hconsumer leaseMs now token with
    ⟨-, hcall⟩ | ⟨d, -, ⟨-, hcall⟩ | ⟨-, -, q', hcall, hq'⟩ | ⟨-, -, -, hcall⟩ |
      ⟨-, -, -, f, hadd, hcall⟩ | ⟨-, -, -, leaseUntil, q', -, hcall, hq'⟩⟩
  all_goals rw [hcall]
  · exact ⟨h.readable, noStorageError_ok _⟩
  · exact ⟨h.readable, noStorageError_ok _⟩
  · exact ⟨hq'.readable, noStorageError_ok _⟩
  · exact ⟨h.readable, noStorageError_ok _⟩
  · exact ⟨h.readable, noStorageError_of_addU64 hadd⟩
  · exact ⟨hq'.readable, noStorageError_ok _⟩

theorem Holds.reclaimExpiredLeases_readable (h : Holds driver q m epoch) {now limit : UInt64}
    (hok : TakesBackReadable driver q (.reclaimExpiredLeases now limit)) :
    Readable driver (reclaimExpiredLeases driver now limit q).2 ∧
      NoStorageError (reclaimExpiredLeases driver now limit q).1 := by
  have hvalid : ∀ d ∈ expiredRows m now limit, ¬CannotCount (epoch d.threadId) d →
      (reclaimWrite now (epoch d.threadId) d).Valid := by
    intro d hd hcount
    obtain ⟨hmem, -⟩ := mem_expiredRows hd
    have hget := h.get?_of_mem hmem
    have hid := (h.valid _ _ hget).identified
    unfold reclaimWrite
    split
    · exact RunDispatch.sqlSuperseded_valid hid _ _ _
    · rename_i hstale
      have hcan : d.attemptCount ≠ 0xFFFFFFFF := fun heq => hcount ⟨hstale, heq⟩
      have hrow : ofDispatch driver d ∈ sqlLimit limit.toInt64 (q.expired now) := by
        rw [h.expired]
        exact List.mem_map_of_mem hd
      have hback := hok d (h.mem_decoded hget hrow) (h.atEpoch (UInt64.not_lt.mp hstale))
      split
      · exact RunDispatch.sqlReclaimDeadLetter_valid hid hback hcan _
      · rename_i hleft
        exact RunDispatch.sqlReclaimRequeue_valid hid hback hcan hleft _
  rcases h.reclaimExpiredLeases_cases now limit hvalid with
    ⟨-, q', m', hcall, hq'⟩ | ⟨-, ds, q', hcall, hq'⟩
  all_goals rw [hcall]
  · exact ⟨hq'.readable, by rintro _ ⟨⟩⟩
  · exact ⟨hq'.readable, noStorageError_ok _⟩

theorem Holds.enqueue_readable (h : Holds driver q m epoch) (dispatch : RunDispatch) :
    Readable driver (enqueue driver dispatch q).2 := by
  rcases h.enqueue_cases dispatch with ⟨e, -, hcall⟩ | ⟨-, -, e, hcall⟩ |
    ⟨-, -, -, e, q', hcall, hq'⟩ | ⟨-, -, -, q', hcall, hq'⟩
  all_goals rw [hcall]
  · exact h.readable
  · exact h.readable
  · exact hq'.readable
  · exact hq'.readable

theorem Holds.cancel_readable (h : Holds driver q m epoch) (dispatchId : String) (now : UInt64) :
    Readable driver (cancel driver dispatchId now q).2 := by
  rcases h.cancel_cases dispatchId now with ⟨-, hcall⟩ | ⟨d, -, ⟨-, hcall⟩ | ⟨-, q', hcall, hq'⟩⟩
  all_goals rw [hcall]
  · exact h.readable
  · exact h.readable
  · exact hq'.readable

theorem Holds.supersedeClaimed_readable (h : Holds driver q m epoch)
    (dispatchId claimToken : String) (now : UInt64) (reason : String) :
    Readable driver (supersedeClaimed driver dispatchId claimToken now reason q).2 := by
  rcases h.supersedeClaimed_cases dispatchId claimToken now reason with
    ⟨-, hcall⟩ | ⟨d, -, ⟨-, hcall⟩ | ⟨-, -, hcall⟩ | ⟨-, -, q', hcall, hq'⟩⟩
  all_goals rw [hcall]
  · exact h.readable
  · exact h.readable
  · exact h.readable
  · exact hq'.readable

theorem Holds.interruptDetailed_readable (h : Holds driver q m epoch) {threadId : String}
    (hroom : q.threadDispatchEpochs.get? threadId ≠ some (.integer Int64.maxValue))
    (now : UInt64) :
    Readable driver (SqliteMailboxStore.interruptDetailed driver threadId now q).2 := by
  have hne : epoch threadId ≠ 0x7FFFFFFFFFFFFFFF := by
    intro heq
    rcases h.epochCell threadId with ⟨-, hzero⟩ | hcell
    · rw [hzero] at heq
      exact absurd heq (by decide)
    · rw [heq] at hcell
      exact hroom hcell
  obtain ⟨details, q', hcall, hq'⟩ := h.interruptDetailed hne now
  rw [hcall]
  exact hq'.readable

theorem noStorageError_map {α β : Type} {f : α → β} {r : Outcome α} (h : NoStorageError r) :
    NoStorageError (r.map f) := by
  cases r with
  | ok a => rintro _ ⟨⟩
  | error e =>
    intro e' he
    exact h e' (by cases he; rfl)

/-- A call that takes back what it can read keeps the rows readable, and a scan does
    not fail. -/
theorem Holds.call_readable (h : Holds driver q m epoch) {op : MailboxOp}
    (hconsumer : NamesConsumer op) (hok : TakesBackReadable driver q op) :
    Readable driver (call driver op q).2 ∧
      (op.ScansRows → NoStorageError (call driver op q).1) := by
  cases op <;> simp only [call, Method.map_snd]
  case enqueue dispatch => exact ⟨h.enqueue_readable dispatch, by rintro ⟨⟩⟩
  case claim threadId consumerId leaseMs now limit token =>
    have hclaim := h.claim_readable threadId (hconsumer consumerId rfl) leaseMs now limit token
    exact ⟨hclaim.1, fun _ => noStorageError_map hclaim.2⟩
  case claimDispatch dispatchId consumerId leaseMs now token =>
    have hclaim := h.claimDispatch_readable dispatchId (hconsumer consumerId rfl) leaseMs now token
    exact ⟨hclaim.1, fun _ => noStorageError_map hclaim.2⟩
  case ack dispatchId claimToken now =>
    refine ⟨h.withClaim_readable (fun _ => claimToken_of_holdsToken) fun d hd _ _ _ => ?_, by rintro ⟨⟩⟩
    exact (h.updateById hd _ _ (setAcked_ofDispatch d now) rfl
      (RunDispatch.writeAcked_valid (h.valid _ _ hd).identified _)).readable
  case recordDispatchStart dispatchId claimToken dispatchInstanceId now =>
    refine ⟨h.withClaim_readable (fun _ => claimToken_of_holdsClaim) fun d hd _ hs _ => ?_, by rintro ⟨⟩⟩
    exact (h.updateById hd _ _ (setDispatchStart_ofDispatch d dispatchInstanceId now) rfl
      (RunDispatch.writeDispatchStart_valid (h.valid _ _ hd) hs _ _)).readable
  case recordRunResult dispatchId claimToken result now =>
    refine ⟨h.withClaim_readable (fun _ => claimToken_of_holdsClaim) fun d hd _ hs _ => ?_, by rintro ⟨⟩⟩
    exact (h.updateById hd _ _ (setRunResult_ofDispatch d result now) rfl
      (RunDispatch.writeRunResult_valid (h.valid _ _ hd) hs _ _)).readable
  case nack => exact ⟨h.nack_readable hok, by rintro ⟨⟩⟩
  case deadLetter dispatchId claimToken error now =>
    refine ⟨h.withClaim_readable (fun _ => claimToken_of_holdsToken) fun d hd _ _ _ => ?_, by rintro ⟨⟩⟩
    exact (h.updateById hd _ _ (setDeadLetter_ofDispatch d error now) rfl
      (RunDispatch.writeDeadLetter_valid (h.valid _ _ hd).identified _ _)).readable
  case cancel dispatchId now => exact ⟨h.cancel_readable dispatchId now, by rintro ⟨⟩⟩
  case extendLease dispatchId claimToken extensionMs now =>
    exact ⟨h.extendLease_readable dispatchId claimToken extensionMs now, by rintro ⟨⟩⟩
  case interrupt threadId now => exact ⟨h.interruptDetailed_readable hok now, by rintro ⟨⟩⟩
  case interruptDetailed threadId now => exact ⟨h.interruptDetailed_readable hok now, by rintro ⟨⟩⟩
  case supersedeClaimed dispatchId claimToken now reason =>
    exact ⟨h.supersedeClaimed_readable dispatchId claimToken now reason, by rintro ⟨⟩⟩
  case loadDispatch dispatchId =>
    rw [h.loadRow]
    exact ⟨h.readable, fun _ => noStorageError_map (noStorageError_ok _)⟩
  case listDispatches threadId statusFilter limit offset =>
    refine ⟨h.readable, fun hrange => noStorageError_map ?_⟩
    rw [h.listDispatches threadId statusFilter hrange.1 hrange.2]
    exact noStorageError_ok _
  case reclaimExpiredLeases now limit =>
    have hreclaim := h.reclaimExpiredLeases_readable hok
    exact ⟨hreclaim.1, fun _ => noStorageError_map hreclaim.2⟩
  case purgeTerminal olderThan =>
    obtain ⟨n, q', hcall, hq'⟩ := h.purgeTerminal olderThan
    rw [hcall]
    exact ⟨hq'.readable, by rintro ⟨⟩⟩
  case currentDispatchEpoch | countDispatchesByStatus | listTerminalDispatches | queuedThreadIds =>
    exact ⟨h.readable, by rintro ⟨⟩⟩

/-- The step form, under the scan order of the step. -/
theorem step_readable {e : MailboxEvent} (h : Readable driver q) (hconsumer : NamesConsumer e.op)
    (hok : KeepsReadable driver q e) :
    Readable driver ((machine driver).step q e).2 ∧
      (e.op.ScansRows → NoStorageError ((machine driver).step q e).1) := by
  obtain ⟨m, epoch, hholds⟩ := h
  exact (hholds.reorder e.order).call_readable hconsumer hok

theorem Readable.decode (h : Readable driver q) {k : String} {row : DispatchRow}
    (hrow : q.runDispatches.get? k = some row) :
    ∃ d, row.rowToDispatch driver = .ok d ∧ d.validateForPersist = .ok () := by
  obtain ⟨m, epoch, hholds⟩ := h
  rw [hholds.get?, Option.map_eq_some_iff] at hrow
  obtain ⟨d, hd, rfl⟩ := hrow
  exact ⟨d, hholds.decode hd, RunDispatch.validateForPersist_ok.mpr (hholds.valid k d hd)⟩

/-! ## Runs -/

end SqliteMailboxStore

end Remo
