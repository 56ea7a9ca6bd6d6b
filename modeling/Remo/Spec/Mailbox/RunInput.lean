import Remo.Native.Mailbox.PendingDelivery
import Remo.Spec.Pending.Atomicity
import Remo.Spec.Pending.Delivery

/-!
# The recorded input of a run

A run consumes pending messages by freezes: one at its dispatch that also appends, and one at each
boundary of its loop. Every attempt plans on what it has read, and commits against a queue that
other clients may have changed. The record it stores lists what all freezes of the run have
consumed.

## Key results

- `commit_cases`: a commit fails without a trace or freezes what its attempt has planned
- `freezeAttempts_consumed`: what a call leaves after all its attempts
- `run_recordsConsumed`: whole runs of a run's freezes record what they have consumed, as long as
  no commit leaves its append behind
-/

namespace Remo.Mailbox

open InMemoryStore

/-! ## Calls of other clients -/

/-- The run that a call stores. -/
def storedRun : PendingOp → Option RunRecord
  | .freezeWithRun _ _ _ _ run _ _ => some run
  | .appendAndFreezeWithRun _ _ _ _ _ _ run _ _ => some run
  | _ => none

/-- The calls do not store a record of the run. -/
def LeavesRun (runId : String) (ops : List PendingOp) : Prop :=
  ∀ op ∈ ops, ∀ run, storedRun op = some run → run.runId ≠ runId

@[simp] theorem runs_messagesEntry (s : InMemoryStore) (threadId : String) :
    (s.messagesEntry threadId).runs = s.runs := rfl

theorem runs_moveSelected (s : InMemoryStore) (threadId : String) (selectedIndexes : List Nat)
    (generated : Nat → Uuid) :
    (moveSelected threadId selectedIndexes generated s).2.runs = s.runs := by
  unfold moveSelected
  dsimp only
  split <;> rfl

theorem runs_append (s : InMemoryStore) (threadId : String) (messages : List Message)
    (deliveryMode : DeliveryMode) (now : UInt64) (generated : Nat → Uuid) :
    (appendPendingMessageRecords threadId messages deliveryMode now generated s).2.runs =
      s.runs := by
  unfold appendPendingMessageRecords
  dsimp only
  split <;> rfl

/-- A freeze for a run stores the run when it succeeds, and no run when it fails. -/
theorem runs_freezeSelectionWithRun (s : InMemoryStore) (threadId : String)
    (boundary : DeliveryBoundary) (expectedPendingIds : List String) (run : RunRecord)
    (now : UInt64) (generated : Nat → Uuid) :
    let r := freezeSelectionWithRun threadId boundary expectedPendingIds run now generated s
    ((∃ fault, r.1 = .error fault) ∧ r.2.runs = s.runs) ∨
      ((∃ records, r.1 = .ok records) ∧ r.2.runs = s.runs.insert run.runId run) := by
  simp only [freezeSelectionWithRun]
  split
  · exact .inl ⟨⟨_, rfl⟩, rfl⟩
  · have hmoved := runs_moveSelected (s.messagesEntry threadId) threadId
      (selectPendingForFreezeForRun (s.pending threadId) boundary (some run.runId)) generated
    unfold Method.bind
    cases hmove : moveSelected threadId
        (selectPendingForFreezeForRun (s.pending threadId) boundary (some run.runId)) generated
        (s.messagesEntry threadId) with
    | mk reply s' =>
      rw [hmove] at hmoved
      cases reply with
      | error fault => exact .inl ⟨⟨fault, rfl⟩, hmoved⟩
      | ok records =>
        apply Or.inr
        refine ⟨⟨records, rfl⟩, ?_⟩
        show s'.runs.insert run.runId run = _
        rw [hmoved, runs_messagesEntry]

theorem runs_freezeWithRun (s : InMemoryStore) (threadId : String) (boundary : DeliveryBoundary)
    (expectedMessageVersion : Option UInt64) (expectedPendingIds : List String) (run : RunRecord)
    (now : UInt64) (generated : Nat → Uuid) :
    let r := freezePendingMessageRecordsWithRun threadId boundary expectedMessageVersion
      expectedPendingIds run now generated s
    ((∃ fault, r.1 = .error fault) ∧ r.2.runs = s.runs) ∨
      ((∃ records, r.1 = .ok records) ∧ r.2.runs = s.runs.insert run.runId run) := by
  simp only [freezePendingMessageRecordsWithRun]
  split
  · exact .inl ⟨⟨_, rfl⟩, rfl⟩
  · exact runs_freezeSelectionWithRun (s.pendingEntry threadId) _ _ _ _ _ _

theorem runs_appendAndFreezeWithRun (s : InMemoryStore) (threadId : String)
    (newMessages : List Message) (deliveryMode : DeliveryMode) (boundary : DeliveryBoundary)
    (expectedMessageVersion : Option UInt64) (expectedPendingIds : List String) (run : RunRecord)
    (now : UInt64) (generated : Nat → Uuid) :
    let r := appendAndFreezePendingMessageRecordsWithRun threadId newMessages deliveryMode boundary
      expectedMessageVersion expectedPendingIds run now generated s
    ((∃ fault, r.1 = .error fault) ∧ r.2.runs = s.runs) ∨
      ((∃ records, r.1 = .ok records) ∧ r.2.runs = s.runs.insert run.runId run) := by
  simp only [appendAndFreezePendingMessageRecordsWithRun]
  split
  · exact .inl ⟨⟨_, rfl⟩, rfl⟩
  · have happended := runs_append s threadId newMessages deliveryMode now generated
    unfold Method.bind
    cases happend :
        appendPendingMessageRecords threadId newMessages deliveryMode now generated s with
    | mk reply s' =>
      rw [happend] at happended
      cases reply with
      | error fault => exact .inl ⟨⟨fault, rfl⟩, happended⟩
      | ok _ =>
        rw [← happended]
        exact runs_freezeSelectionWithRun s' _ _ _ _ _ _

/-- A call stores its run, or no run. -/
theorem runs_callPending (s : InMemoryStore) (op : PendingOp) :
    (callPending op s).2.runs = s.runs ∨
      ∃ run, storedRun op = some run ∧ (callPending op s).2.runs = s.runs.insert run.runId run := by
  cases op with
  | load threadId => exact .inl rfl
  | listThreads limit after => exact .inl rfl
  | append threadId messages deliveryMode now generated =>
    exact .inl (runs_append s _ _ _ _ _)
  | update threadId pendingId expectedRevision message now =>
    apply Or.inl
    simp only [callPending, Method.map_snd, updatePendingMessageRecordChecked]
    split
    · rfl
    · split <;> rfl
  | retract threadId pendingId expectedRevision =>
    apply Or.inl
    simp only [callPending, Method.map_snd, retractPendingMessageRecordChecked]
    split
    · rfl
    · split <;> rfl
  | reorder threadId expectedQueueRevision orderedPendingIds now =>
    apply Or.inl
    simp only [callPending, Method.map_snd, reorderPendingMessageRecordsChecked]
    split
    · split <;> rfl
    · split <;> rfl
  | freeze threadId boundary expectedMessageVersion generated =>
    apply Or.inl
    simp only [callPending, Method.map_snd, freezePendingMessageRecords]
    split
    · rfl
    · split
      · rfl
      · exact runs_moveSelected (s.messagesEntry threadId) _ _ _
  | freezeWithRun threadId boundary expectedMessageVersion expectedPendingIds run now generated =>
    rw [callPending, Method.map_snd]
    cases runs_freezeWithRun s threadId boundary expectedMessageVersion expectedPendingIds run now
      generated with
    | inl h => exact .inl h.2
    | inr h => exact .inr ⟨run, rfl, h.2⟩
  | appendAndFreezeWithRun threadId newMessages deliveryMode boundary expectedMessageVersion
      expectedPendingIds run now generated =>
    rw [callPending, Method.map_snd]
    cases runs_appendAndFreezeWithRun s threadId newMessages deliveryMode boundary
      expectedMessageVersion expectedPendingIds run now generated with
    | inl h => exact .inl h.2
    | inr h => exact .inr ⟨run, rfl, h.2⟩

/-- Calls that do not store the run leave its record as it is. -/
theorem get?_runs_run {runId : String} {ops : List PendingOp} (h : LeavesRun runId ops)
    (s : InMemoryStore) : (pendingMachine.run s ops).runs.get? runId = s.runs.get? runId := by
  induction ops generalizing s with
  | nil => rfl
  | cons op ops ih =>
    have hrun : pendingMachine.run s (op :: ops) =
        pendingMachine.run (callPending op s).2 ops := rfl
    have hrest : LeavesRun runId ops := fun op' hop' => h op' (List.mem_cons_of_mem _ hop')
    rw [hrun, ih hrest]
    cases runs_callPending s op with
    | inl hsame => rw [hsame]
    | inr hstores =>
      obtain ⟨run, hstored, hinsert⟩ := hstores
      have hne : run.runId ≠ runId := h op List.mem_cons_self run hstored
      rw [hinsert, AssocMap.get?_insert_of_ne s.runs run hne.symm]

/-! ## Commits -/

/-- Runs, queues and logs are the same in both stores. -/
structure Unchanged (s s' : InMemoryStore) : Prop where
  runs : s'.runs = s.runs
  pending : ∀ t, s'.pending t = s.pending t
  committed : ∀ t, s'.committed t = s.committed t

theorem Unchanged.of_writes {s s' : InMemoryStore} {threadId : String} (hruns : s'.runs = s.runs)
    (h : Writes s s' threadId (s.pending threadId) (s.committed threadId)) : Unchanged s s' := by
  refine ⟨hruns, fun t => ?_, fun t => ?_⟩
  · by_cases ht : t = threadId
    · rw [ht, h.pending]
    · exact (h.frame t ht).1
  · by_cases ht : t = threadId
    · rw [ht, h.committed]
    · exact (h.frame t ht).2

/-- An unchanged thread stays in order. -/
theorem Unchanged.ordered {s s' : InMemoryStore} {threadId : String} (h : Unchanged s s')
    (hs : Ordered s threadId) : Ordered s' threadId := by
  have hledger : s'.ledger threadId = s.ledger threadId := by
    rw [ledger, pendingIds, committedIds, h.pending, h.committed]
    rfl
  exact ⟨by rw [h.pending]; exact hs.arranged, by rw [hledger]; exact hs.wellFormed⟩

/-- The commit queues its own messages, and then finds another selection than the planned one or
    messages that the log rejects. -/
def LeavesAppend (threadId : String) (boundary : DeliveryBoundary) (append : Append)
    (around : Surroundings) (point : CommitPoint) : Prop :=
  match append with
  | none => False
  | some (messages, mode) =>
    point.store.FailsBehindAppend threadId messages mode boundary
      (some (UInt64.ofNat point.version)) point.selectedPendingIds point.attempt around.now
      around.generated

instance (threadId : String) (boundary : DeliveryBoundary) (append : Append)
    (around : Surroundings) (point : CommitPoint) :
    Decidable (LeavesAppend threadId boundary append around point) :=
  match append with
  | none => inferInstanceAs (Decidable False)
  | some (_, _) => inferInstanceAs (Decidable (point.store.FailsBehindAppend _ _ _ _ _ _ _ _ _))

/-- What a commit that succeeds leaves: the planned messages at the end of the log, and the planned
    record. -/
structure Commits (threadId : String) (point : CommitPoint) (s' : InMemoryStore)
    (frozen : List MessageRecord) : Prop where
  stored : s'.runs.get? point.attempt.runId = some point.attempt
  ids : frozen.map MessageRecord.messageId = point.selectedPendingIds
  version : (UInt64.ofNat point.version).toNat = (point.store.committed threadId).length
  length : (s'.committed threadId).length =
    (point.store.committed threadId).length + point.selectedPendingIds.length
  log : s'.committedIds threadId = point.store.committedIds threadId ++ point.selectedPendingIds
  nodup : point.selectedPendingIds.Nodup
  fresh : point.selectedPendingIds.Disjoint (point.store.committedIds threadId)
  ordered : Ordered s' threadId

/-- The version check compares with the length of the log. -/
theorem toNat_eq_of_checkFreezeWithRun {s : InMemoryStore} {threadId : String} {version : UInt64}
    {run : RunRecord} (h : s.checkFreezeWithRun threadId (some version) run = .ok ()) :
    version.toNat = (s.committed threadId).length := by
  unfold checkFreezeWithRun at h
  obtain ⟨-, -, h⟩ := exists_of_bind_ok h
  obtain ⟨-, -, h⟩ := exists_of_bind_ok h
  unfold checkMessageVersion at h
  by_contra hne
  simp [hne] at h

/-- A freeze that succeeds has found the expected selection. -/
theorem freezeSelectionWithRun_ok {s : InMemoryStore} {threadId : String}
    {boundary : DeliveryBoundary} {expectedPendingIds : List String} {run : RunRecord}
    {now : UInt64} {generated : Nat → Uuid} {records : List MessageRecord}
    (h : (freezeSelectionWithRun threadId boundary expectedPendingIds run now generated s).1 =
      .ok records) :
    selectedPendingIds (s.pending threadId)
      (selectPendingForFreezeForRun (s.pending threadId) boundary (some run.runId)) =
        expectedPendingIds := by
  rw [freezeSelectionWithRun_fst] at h
  by_contra hne
  rw [if_pos hne] at h
  cases h

section Committed

variable {threadId : String} {point : CommitPoint} {s' : InMemoryStore}
  {queue : List PendingMessageRecord} {generated : Nat → Uuid} {frozen : List MessageRecord}

/-- A freeze of the planned selection is what a successful commit leaves. -/
theorem Commits.of_freezes {boundary : DeliveryBoundary}
    (hfreezes : Freezes point.store s' threadId queue
      (selectPendingForFreezeForRun queue boundary (some point.attempt.runId)) generated frozen)
    (hqueue : Arranged queue)
    (hwf : Ledger.WellFormed
      ⟨queue.map PendingMessageRecord.pendingId, point.store.committedIds threadId⟩)
    (hselected : selectedPendingIds queue
      (selectPendingForFreezeForRun queue boundary (some point.attempt.runId)) =
        point.selectedPendingIds)
    (hruns : s'.runs = point.store.runs.insert point.attempt.runId point.attempt)
    (hversion : (UInt64.ofNat point.version).toNat = (point.store.committed threadId).length) :
    Commits threadId point s' frozen := by
  have hids : frozen.map MessageRecord.messageId = point.selectedPendingIds := by
    rw [hfreezes.map_messageId hqueue.named, ← selectedPendingIds_eq, hselected]
  obtain ⟨hstep, harranged⟩ := hfreezes.ledger_step hqueue (select_pairwise _ _ _)
    fun i hi => lt_length_of_mem_select hi
  rw [hids] at hstep
  obtain ⟨hlog, hnodup, hfresh⟩ := hstep.of_deliver hwf
  have hcount : (selectedMessages queue
      (selectPendingForFreezeForRun queue boundary (some point.attempt.runId))).length =
        point.selectedPendingIds.length := by
    rw [← hids, List.length_map, hfreezes.records, List.length_mapIdx]
  have hcommitted := hfreezes.writes.committed
  exact
    { stored := by rw [hruns, AssocMap.get?_insert_self]
      ids := hids
      version := hversion
      length := by rw [hcommitted, List.length_append, hcount]
      log := hlog
      nodup := hnodup
      fresh := hfresh
      ordered := ⟨harranged, hstep.wellFormed hwf⟩ }

end Committed

/-- A freeze at a boundary fails without a trace or commits what was planned. -/
theorem freezeWithRun_commits {threadId : String} {boundary : DeliveryBoundary}
    {point : CommitPoint} (hs : Ordered point.store threadId) (now : UInt64)
    (generated : Nat → Uuid) :
    let r := freezePendingMessageRecordsWithRun threadId boundary
      (some (UInt64.ofNat point.version)) point.selectedPendingIds point.attempt now generated
      point.store
    ((∃ fault, r.1 = .error fault) ∧ Unchanged point.store r.2) ∨
      ∃ frozen, r.1 = .ok frozen ∧ Commits threadId point r.2 frozen := by
  dsimp only
  cases runs_freezeWithRun point.store threadId boundary (some (UInt64.ofNat point.version))
      point.selectedPendingIds point.attempt now generated with
  | inl hfails =>
    obtain ⟨⟨fault, hfault⟩, hruns⟩ := hfails
    cases freezeWithRun_cases point.store threadId boundary (some (UInt64.ofNat point.version))
        point.selectedPendingIds point.attempt now generated with
    | inl hunchanged => exact .inl ⟨⟨fault, hfault⟩, .of_writes hruns hunchanged.2⟩
    | inr hok =>
      obtain ⟨frozen, hok, -⟩ := hok
      rw [hfault] at hok
      cases hok
  | inr hstores =>
    obtain ⟨⟨frozen, hok⟩, hruns⟩ := hstores
    cases freezeWithRun_cases point.store threadId boundary (some (UInt64.ofNat point.version))
        point.selectedPendingIds point.attempt now generated with
    | inl hunchanged =>
      obtain ⟨fault, hfault⟩ := hunchanged.1
      rw [hfault] at hok
      cases hok
    | inr hfrozen =>
      obtain ⟨frozen', hok', hfreezes⟩ := hfrozen
      have hcheck : point.store.checkFreezeWithRun threadId (some (UInt64.ofNat point.version))
          point.attempt = .ok () := by
        cases hcheck : point.store.checkFreezeWithRun threadId (some (UInt64.ofNat point.version))
            point.attempt with
        | ok _ => rfl
        | error e => simp [freezePendingMessageRecordsWithRun, hcheck, Outcome.fail] at hok'
      have hselected : selectedPendingIds (point.store.pending threadId)
          (selectPendingForFreezeForRun (point.store.pending threadId) boundary
            (some point.attempt.runId)) = point.selectedPendingIds := by
        rw [freezePendingMessageRecordsWithRun, hcheck] at hok'
        have hfound := freezeSelectionWithRun_ok hok'
        rwa [pending_pendingEntry] at hfound
      exact .inr ⟨frozen', hok', .of_freezes hfreezes hs.arranged hs.wellFormed hselected hruns
        (toNat_eq_of_checkFreezeWithRun hcheck)⟩

/-- An append with freeze that succeeds has passed its checks and found the expected selection. -/
theorem appendAndFreezeWithRun_ok {s : InMemoryStore} {threadId : String} {messages : List Message}
    {mode : DeliveryMode} {boundary : DeliveryBoundary} {version : Option UInt64}
    {expectedPendingIds : List String} {run : RunRecord} {now : UInt64} {generated : Nat → Uuid}
    {frozen : List MessageRecord}
    (h : (appendAndFreeze threadId messages mode boundary version expectedPendingIds run now
      generated s).1 = .ok frozen) :
    s.AppendPasses threadId messages mode version run now generated ∧
      s.appendedSelectedIds threadId messages mode boundary run now generated =
        expectedPendingIds := by
  cases hcheck : s.checkFreezeWithRun threadId version run with
  | error e =>
    rw [appendAndFreeze_of_checkFreezeWithRun hcheck] at h
    cases h
  | ok _ =>
    cases hnew : checkNewRecords (s.committed threadId)
        ((s.pending threadId).map PendingMessageRecord.pendingId)
        (s.appendedRecords threadId messages mode now generated) with
    | error e =>
      rw [appendAndFreeze_of_checkNewRecords hcheck hnew] at h
      cases h
    | ok _ =>
      refine ⟨⟨hcheck, hnew⟩, ?_⟩
      rw [appendAndFreeze_of_appendPasses ⟨hcheck, hnew⟩] at h
      by_contra hne
      rw [appended_freeze_of_conflict hne] at h
      cases h

/-- A freeze that appends fails without a trace or commits what was planned, unless it leaves its
    messages behind. -/
theorem appendAndFreezeWithRun_commits {threadId : String} {messages : List Message}
    {mode : DeliveryMode} {boundary : DeliveryBoundary} {around : Surroundings}
    {point : CommitPoint} (hs : Ordered point.store threadId)
    (hclean : ¬ LeavesAppend threadId boundary (some (messages, mode)) around point) :
    let r := appendAndFreezePendingMessageRecordsWithRun threadId messages mode boundary
      (some (UInt64.ofNat point.version)) point.selectedPendingIds point.attempt around.now
      around.generated point.store
    ((∃ fault, r.1 = .error fault) ∧ Unchanged point.store r.2) ∨
      ∃ frozen, r.1 = .ok frozen ∧ Commits threadId point r.2 frozen := by
  dsimp only
  cases runs_appendAndFreezeWithRun point.store threadId messages mode boundary
      (some (UInt64.ofNat point.version)) point.selectedPendingIds point.attempt around.now
      around.generated with
  | inl hfails =>
    obtain ⟨⟨fault, hfault⟩, -⟩ := hfails
    have hall := (appendAndFreezeWithRun_allOrNothing_iff point.store threadId messages mode
      boundary (some (UInt64.ofNat point.version)) point.selectedPendingIds point.attempt around.now
      around.generated).mpr hclean
    have hreads := (hall fault hfault).1
    exact .inl ⟨⟨fault, hfault⟩, hreads.runs, hreads.pending, hreads.committed⟩
  | inr hstores =>
    obtain ⟨⟨frozen, hok⟩, hruns⟩ := hstores
    obtain ⟨⟨hcheck, hnew⟩, hselected⟩ := appendAndFreezeWithRun_ok hok
    have hqueue := hs.arranged.append_newRecords threadId messages mode (around.now / 1000)
      around.generated
    have hwf := (accept_of_checkNewRecords hnew).wellFormed hs.wellFormed
    cases appendAndFreezeWithRun_cases point.store threadId messages mode boundary
        (some (UInt64.ofNat point.version)) point.selectedPendingIds point.attempt around.now
        around.generated with
    | inl hunchanged =>
      obtain ⟨fault, hfault⟩ := hunchanged.1
      rw [hfault] at hok
      cases hok
    | inr happended =>
      cases happended.2 with
      | inl hfails =>
        obtain ⟨fault, hfault⟩ := hfails.1
        rw [hfault] at hok
        cases hok
      | inr hfrozen =>
        obtain ⟨frozen', hok', hfreezes⟩ := hfrozen
        exact .inr ⟨frozen', hok', .of_freezes hfreezes hqueue hwf hselected hruns
          (toNat_eq_of_checkFreezeWithRun hcheck)⟩

/-- A commit fails without a trace or commits what its attempt has planned. -/
theorem commit_cases {threadId : String} {boundary : DeliveryBoundary} {append : Append}
    {around : Surroundings} {point : CommitPoint} (hs : Ordered point.store threadId)
    (hclean : ¬ LeavesAppend threadId boundary append around point) :
    let r := commit threadId boundary append around point
    ((∃ fault, r.1 = .error fault) ∧ Unchanged point.store r.2) ∨
      ∃ frozen, r.1 = .ok frozen ∧ Commits threadId point r.2 frozen := by
  cases append with
  | none =>
    simp only [commit, freezeCall]
    exact freezeWithRun_commits hs around.now around.generated
  | some appended =>
    simp only [commit, freezeCall]
    exact appendAndFreezeWithRun_commits hs hclean

/-! ## Plans -/

/-- What the run has consumed so far: its stored record lists it, and it is in the log. -/
structure Consumed (s : InMemoryStore) (threadId runId : String) (ids : List String) : Prop where
  ordered : Ordered s threadId
  stored : ∀ record, s.runs.get? runId = some record →
    record.runId = runId ∧ priorTriggerIds record = ids
  absent : s.runs.get? runId = none → ids = []
  nodup : ids.Nodup
  committed : ids.Sublist (s.committedIds threadId)

/-- The calls around an attempt do not store a record of the run. -/
structure Surroundings.LeavesRun (around : Surroundings) (runId : String) : Prop where
  beforeReads : Mailbox.LeavesRun runId around.beforeReads
  betweenReads : Mailbox.LeavesRun runId around.betweenReads
  beforeCommit : Mailbox.LeavesRun runId around.beforeCommit

/-- An attempt that is about to commit has planned the record for its selection. -/
structure Plans (template : RunActivationSnapshot) (threadId : String) (record : RunRecord)
    (now : UInt64) (point : CommitPoint) : Prop where
  selected : point.selectedPendingIds ≠ []
  attempt : point.attempt = attemptRecord template threadId
    (point.version + point.selectedPendingIds.length) point.selectedPendingIds now record

section Plan

variable {s : InMemoryStore} {threadId runId : String} {ids : List String}

/-- Other clients leave what the run has consumed. -/
theorem Consumed.run (h : Consumed s threadId runId ids) {ops : List PendingOp}
    (hops : LeavesRun runId ops) : Consumed (pendingMachine.run s ops) threadId runId ids := by
  obtain ⟨hrun, hordered⟩ := run_ledger h.ordered ops
  have hsame := get?_runs_run hops s
  refine ⟨hordered, ?_, ?_, h.nodup, h.committed.trans hrun.delivered_prefix.sublist⟩
  · rw [hsame]
    exact h.stored
  · rw [hsame]
    exact h.absent

/-- So does a call that changes nothing. -/
theorem Consumed.of_unchanged {s' : InMemoryStore} (h : Consumed s threadId runId ids)
    (hsame : Unchanged s s') : Consumed s' threadId runId ids := by
  refine ⟨hsame.ordered h.ordered, ?_, ?_, h.nodup, ?_⟩
  · rw [hsame.runs]
    exact h.stored
  · rw [hsame.runs]
    exact h.absent
  · rw [committedIds, hsame.committed]
    exact h.committed

/-- The trigger ids of named records are their own ids. -/
theorem triggerIds_eq {records : List PendingMessageRecord}
    (h : ∀ r ∈ records, r.message.id = some r.pendingId) :
    triggerIds records = .ok (records.map PendingMessageRecord.pendingId) := by
  induction records with
  | nil => rfl
  | cons record records ih =>
    have hid := h record List.mem_cons_self
    have hrest := ih fun r hr => h r (List.mem_cons_of_mem _ hr)
    simp [triggerIds, hid, hrest, Except.map]

/-- The simulated queue has named records only. -/
theorem named_simulatedPending (threadId : String) {queue : List PendingMessageRecord}
    (hqueue : Arranged queue)
    (append : Append) (generated : Nat → Uuid) :
    ∀ r ∈ simulatedPending threadId queue append generated, r.message.id = some r.pendingId := by
  intro r hr
  cases append with
  | none => exact hqueue.named r hr
  | some appended =>
    cases List.mem_append.mp hr with
    | inl hold => exact hqueue.named r hold
    | inr hnew =>
      obtain ⟨i, hi, rfl⟩ := List.mem_mapIdx.mp hnew
      rfl

/-- An attempt ends without a freeze, or it is about to commit what it has planned. -/
theorem planFreeze_cases (h : Consumed s threadId runId ids) {around : Surroundings}
    (hforeign : around.LeavesRun runId) (template : RunActivationSnapshot)
    (boundary : DeliveryBoundary) (append : Append) (committed : List Message)
    {pending : List PendingMessageRecord} (hpending : Arranged pending) (record : RunRecord) :
    (∃ result, planFreeze template threadId boundary runId append around committed pending record
        s = .stopped result s ∧ ∀ frozen, result ≠ .ok (some frozen)) ∨
      ∃ point, planFreeze template threadId boundary runId append around committed pending record
          s = .commits point ∧
        Consumed point.store threadId runId ids ∧
        Plans template threadId record around.now point := by
  have hnamed := named_simulatedPending threadId hpending append around.simulatedIds
  generalize hqueue : simulatedPending threadId pending append around.simulatedIds = queue at hnamed
  generalize hselected : (selectPendingForFreezeForRun queue boundary (some runId)).filterMap
    (fun index => queue[index]?) = selected
  have htrigger : triggerIds selected = .ok (selected.map PendingMessageRecord.pendingId) := by
    apply triggerIds_eq
    intro r hr
    rw [← hselected] at hr
    obtain ⟨i, -, hget⟩ := List.mem_filterMap.mp hr
    exact hnamed r (List.mem_of_getElem? hget)
  unfold planFreeze
  simp only [hqueue, hselected]
  by_cases hempty : selected.isEmpty = true
  · rw [if_pos hempty]
    refine .inl ⟨_, rfl, fun frozen hfrozen => ?_⟩
    cases hfrozen
  · rw [if_neg hempty, htrigger]
    refine .inr ⟨_, rfl, h.run hforeign.beforeCommit, ?_, ?_⟩
    · simpa using hempty
    · rw [List.length_map]

theorem planAttempt_cases (h : Consumed s threadId runId ids) {around : Surroundings}
    (hforeign : around.LeavesRun runId) (template : RunActivationSnapshot)
    (boundary : DeliveryBoundary) (append : Append) (record : RunRecord) :
    (∃ result s', planAttempt template threadId boundary runId append around record s =
        .stopped result s' ∧ Consumed s' threadId runId ids ∧
          ∀ frozen, result ≠ .ok (some frozen)) ∨
      ∃ point, planAttempt template threadId boundary runId append around record s =
          .commits point ∧
        Consumed point.store threadId runId ids ∧
        Plans template threadId record around.now point := by
  have hfirst := h.run hforeign.beforeReads
  have hsecond := hfirst.run hforeign.betweenReads
  unfold planAttempt
  dsimp only
  cases (pendingMachine.run s around.beforeReads).loadCommittedMessages threadId with
  | error e => exact .inl ⟨_, _, rfl, hfirst, by simp⟩
  | ok committed =>
    dsimp only
    cases hload : (pendingMachine.run (pendingMachine.run s around.beforeReads)
        around.betweenReads).loadPendingMessageRecords threadId with
    | error e => exact .inl ⟨_, _, rfl, hsecond, by simp⟩
    | ok pending =>
      have hpending : pending = (pendingMachine.run (pendingMachine.run s around.beforeReads)
          around.betweenReads).pending threadId := by
        unfold loadPendingMessageRecords at hload
        obtain ⟨-, -, hload⟩ := exists_of_bind_ok hload
        cases hload
        rfl
      have harranged : Arranged pending := hpending ▸ hsecond.ordered.arranged
      cases planFreeze_cases hsecond hforeign template boundary append (committed.getD []) harranged
          record with
      | inl hstopped =>
        obtain ⟨result, hplan, hresult⟩ := hstopped
        exact .inl ⟨result, _, hplan, hsecond, hresult⟩
      | inr hcommits => exact .inr hcommits

end Plan

/-! ## Records -/

/-- The stored record of the run lists the messages that the run has consumed, each once and in
    the order of the log, up to the end of the log. -/
structure Recorded (s : InMemoryStore) (threadId runId : String) (ids : List String) : Prop where
  stored : ∃ record input activation, s.runs.get? runId = some record ∧
    record.input = some input ∧ record.activation = some activation ∧
    input.triggerMessageIds = ids ∧ activation.input.triggerMessageIds = ids ∧
    input.range = MessageSeqRange.new 1 (UInt64.ofNat (s.committed threadId).length) ∧
    activation.input.range = input.range
  nodup : ids.Nodup
  committed : ids.Sublist (s.committedIds threadId)

/-- New ids go behind the ones that are there. -/
theorem mergeTriggerIds_eq {prior ids : List String} (hnodup : ids.Nodup)
    (hfresh : ids.Disjoint prior) : mergeTriggerIds prior ids = prior ++ ids := by
  induction ids generalizing prior with
  | nil => simp [mergeTriggerIds]
  | cons id ids ih =>
    obtain ⟨hid, hnodup⟩ := List.nodup_cons.mp hnodup
    obtain ⟨hnew, hfresh⟩ := List.disjoint_cons_left.mp hfresh
    have hrest : ids.Disjoint (prior ++ [id]) := by
      simp [List.disjoint_append_right, hfresh, hid]
    have hmerge := ih hnodup hrest
    simp only [mergeTriggerIds, List.foldl_cons, if_neg hnew] at hmerge ⊢
    rw [hmerge, List.append_assoc, List.singleton_append]

section Recorded

variable {s' : InMemoryStore} {threadId runId : String} {ids : List String}
  {template : RunActivationSnapshot} {record : RunRecord} {now : UInt64} {point : CommitPoint}
  {frozen : List MessageRecord}

/-- The range of the planned record ends where the log ends behind the commit. -/
theorem Commits.lastSeq (h : Commits threadId point s' frozen) :
    UInt64.ofNat (point.version + point.selectedPendingIds.length) =
      UInt64.ofNat (s'.committed threadId).length := by
  rw [h.length, ← h.version, UInt64.ofNat_add, UInt64.ofNat_add, UInt64.ofNat_toNat]

/-- The planned record lists the prior messages and the committed ones. -/
theorem Commits.triggers (h : Commits threadId point s' frozen)
    (hconsumed : Consumed point.store threadId runId ids) (hprior : priorTriggerIds record = ids) :
    mergeTriggerIds (priorTriggerIds record) point.selectedPendingIds =
      ids ++ frozen.map MessageRecord.messageId := by
  have hfresh : point.selectedPendingIds.Disjoint ids := fun id hid hmem =>
    h.fresh hid (hconsumed.committed.mem hmem)
  rw [hprior, mergeTriggerIds_eq h.nodup hfresh, h.ids]

/-- A commit of a plan records what the run has consumed. -/
theorem Commits.consumed (h : Commits threadId point s' frozen)
    (hconsumed : Consumed point.store threadId runId ids)
    (hplans : Plans template threadId record now point) (hrun : record.runId = runId)
    (hprior : priorTriggerIds record = ids) :
    s'.runs.get? runId = some point.attempt ∧
      Recorded s' threadId runId (ids ++ frozen.map MessageRecord.messageId) ∧
      Consumed s' threadId runId (ids ++ frozen.map MessageRecord.messageId) := by
  have htriggers := h.triggers hconsumed hprior
  have hattempt := hplans.attempt
  rw [attemptRecord, htriggers] at hattempt
  have hrunId : point.attempt.runId = runId := by rw [hattempt, hrun]
  have hstored : s'.runs.get? runId = some point.attempt := by rw [← hrunId, h.stored]
  have hnodup : (ids ++ frozen.map MessageRecord.messageId).Nodup := by
    rw [h.ids]
    exact hconsumed.nodup.append h.nodup fun id hid hnew =>
      h.fresh hnew (hconsumed.committed.mem hid)
  have hcommitted : (ids ++ frozen.map MessageRecord.messageId).Sublist
      (s'.committedIds threadId) := by
    rw [h.log, h.ids]
    exact hconsumed.committed.append (List.Sublist.refl _)
  refine ⟨hstored, ⟨?_, hnodup, hcommitted⟩, h.ordered, fun stored hget => ?_, fun hnone => ?_,
    hnodup, hcommitted⟩
  · have hrange : (buildRunInput threadId (point.version + point.selectedPendingIds.length)
        (ids ++ frozen.map MessageRecord.messageId)).range =
          MessageSeqRange.new 1 (UInt64.ofNat (s'.committed threadId).length) := by
      rw [buildRunInput, h.lastSeq]
    exact ⟨_, _, _, hstored, by rw [hattempt], by rw [hattempt], rfl, rfl, hrange, rfl⟩
  · rw [hstored] at hget
    cases hget
    refine ⟨hrunId, ?_⟩
    rw [hattempt]
    rfl
  · rw [hstored] at hnone
    cases hnone

end Recorded

/-! ## Calls -/

section Attempts

variable (template : RunActivationSnapshot) (threadId : String) (boundary : DeliveryBoundary)
  (runId : String) (append : Append)

/-- The commits that a call makes, with what happens around them. -/
def commits : List Surroundings → RunRecord → InMemoryStore → List (Surroundings × CommitPoint)
  | [], _, _ => []
  | around :: rest, record, s =>
    match planAttempt template threadId boundary runId append around record s with
    | .stopped _ _ => []
    | .commits point => (around, point) ::
      match commit threadId boundary append around point with
      | (.ok _, _) => []
      | (.error fault, s) => if isConflict fault then commits rest record s else []

/-- A call freezes and records what the run has consumed, or it changes nothing. -/
theorem freezeAttempts_consumed {s : InMemoryStore} {ids : List String} {record : RunRecord}
    {arounds : List Surroundings} (h : Consumed s threadId runId ids) (hrun : record.runId = runId)
    (hprior : priorTriggerIds record = ids)
    (hforeign : ∀ around ∈ arounds, around.LeavesRun runId)
    (hclean : ∀ p ∈ commits template threadId boundary runId append arounds record s,
      ¬ LeavesAppend threadId boundary append p.1 p.2) :
    let r := freezeAttempts template threadId boundary runId append arounds (record, s)
    (∃ frozen, r.1 = .ok (some frozen) ∧ r.2.2.runs.get? runId = some r.2.1 ∧
        Recorded r.2.2 threadId runId (ids ++ frozen.map MessageRecord.messageId) ∧
        Consumed r.2.2 threadId runId (ids ++ frozen.map MessageRecord.messageId)) ∨
      ((∀ frozen, r.1 ≠ .ok (some frozen)) ∧ r.2.1 = record ∧
        Consumed r.2.2 threadId runId ids ∧
        ∀ p ∈ commits template threadId boundary runId append arounds record s,
          Unchanged p.2.store (commit threadId boundary append p.1 p.2).2) := by
  -- induction on the attempts: a conflict changes nothing, so the next attempt starts as this one
  induction arounds generalizing s with
  | nil => exact .inr ⟨by simp [freezeAttempts], rfl, h, by simp [commits]⟩
  | cons around rest ih =>
    have hhere : around.LeavesRun runId := hforeign around List.mem_cons_self
    have hrest := fun a ha => hforeign a (List.mem_cons_of_mem around ha)
    cases planAttempt_cases h hhere template boundary append record with
    | inl hstopped =>
      obtain ⟨result, s', hplan, hconsumed, hresult⟩ := hstopped
      simp only [freezeAttempts, commits, hplan]
      exact .inr ⟨hresult, trivial, hconsumed, by simp⟩
    | inr hcommits =>
      obtain ⟨point, hplan, hconsumed, hplans⟩ := hcommits
      simp only [commits, hplan] at hclean
      have hpoint := hclean _ List.mem_cons_self
      cases hcommit : commit threadId boundary append around point with
      | mk reply s' =>
        have hcases := commit_cases hconsumed.ordered hpoint
        simp only [hcommit] at hcases hclean
        simp only [freezeAttempts, commits, hplan, hcommit]
        cases hcases with
        | inl hfails =>
          obtain ⟨⟨fault, rfl⟩, hsame⟩ := hfails
          have hnext := hconsumed.of_unchanged hsame
          have hfirst : Unchanged point.store (commit threadId boundary append around point).2 := by
            rw [hcommit]
            exact hsame
          by_cases hconflict : isConflict fault = true
          · simp only [hconflict, if_true] at hclean ⊢
            have hlater := ih hnext hrest fun p hp => hclean p (List.mem_cons_of_mem _ hp)
            cases hlater with
            | inl hok => exact .inl hok
            | inr hnone =>
              obtain ⟨hresult, hrecord, hlast, hunchanged⟩ := hnone
              refine .inr ⟨hresult, hrecord, hlast, fun p hp => ?_⟩
              cases List.mem_cons.mp hp with
              | inl heq => rw [heq]; exact hfirst
              | inr hmem => exact hunchanged p hmem
          · simp only [hconflict]
            refine .inr ⟨by simp, by simp, hnext, fun p hp => ?_⟩
            simp only [Bool.false_eq_true, if_false, List.mem_singleton] at hp
            rw [hp]
            exact hfirst
        | inr hok =>
          obtain ⟨frozen, rfl, hcommitted⟩ := hok
          obtain ⟨hstored, hrecorded, hafter⟩ :=
            hcommitted.consumed hconsumed hplans hrun hprior
          exact .inl ⟨frozen, rfl, hstored, hrecorded, hafter⟩

end Attempts

/-- Who asks for a freeze: the dispatch of the run for the messages it stages, or its loop. -/
inductive Caller where
  | dispatch (request : RunActivation) (messages : List Message) (mode : DeliveryMode)
      (now : UInt64)
  | loop

/-- The messages that a caller appends. -/
def Caller.append : Caller → Append
  | .dispatch _ messages mode _ => some (messages, mode)
  | .loop => none

/-- The record that a caller holds: a dispatch takes the stored one or makes a new one, the loop
    takes the stored one. -/
def Caller.record (threadId runId : String) (boundary : DeliveryBoundary) (s : InMemoryStore) :
    Caller → Except MailboxError RunRecord
  | .dispatch request _ _ now => dispatchRecord s request threadId runId now
  | .loop =>
    match s.runs.get? runId with
    | some record => .ok record
    | none => .error (.internal
        s!"run '{runId}' not found while freezing pending {boundaryName boundary}")

/-- A call for a freeze of a run, and what other clients do before it and around its attempts. -/
structure FreezeCall where
  before : List PendingOp
  caller : Caller
  template : RunActivationSnapshot
  boundary : DeliveryBoundary
  around : Nat → Surroundings

/-- The surroundings of the attempts of a call. -/
def FreezeCall.arounds (call : FreezeCall) : List Surroundings :=
  (List.range maxPendingFreezeAttempts).map call.around

/-- What a caller gets: the result, its record before and after, and the commits it made. -/
structure Served where
  result : Except MailboxError (Option (List MessageRecord))
  given : Option RunRecord
  left : Option RunRecord
  commits : List (Surroundings × CommitPoint)

/-- The freezes of a run on its thread. -/
def freezeMachine (threadId runId : String) : Machine InMemoryStore FreezeCall Served where
  step s call :=
    let s := pendingMachine.run s call.before
    match call.caller.record threadId runId call.boundary s with
    | .error e => (⟨.error e, none, none, []⟩, s)
    | .ok record =>
      let frozen := preparePendingBoundarySnapshotForRun call.template threadId call.boundary runId
        call.caller.append call.around (record, s)
      (⟨frozen.1, some record, some frozen.2.1, commits call.template threadId call.boundary runId
        call.caller.append call.arounds record s⟩, frozen.2.2)

/-- The boundary handler of the loop is a call. -/
theorem freezePendingBoundary_eq (template : RunActivationSnapshot) (threadId runId : String)
    (boundary : DeliveryBoundary) (around : Nat → Surroundings) (s : InMemoryStore) :
    let r := (freezeMachine threadId runId).step s ⟨[], .loop, template, boundary, around⟩
    freezePendingBoundary template threadId runId boundary around s = (r.1.result, r.2) := by
  have hstart : pendingMachine.run s [] = s := rfl
  simp only [freezePendingBoundary, freezeMachine, Caller.record, hstart]
  cases s.runs.get? runId <;> rfl

/-- A dispatch that stages messages is a call. -/
theorem prepareRunForDispatch_eq {request : RunActivation} {threadId resolutionId : String}
    {messages : List Message} {fresh : Uuid} {generated : Nat → Uuid} {now : UInt64}
    {around : Nat → Surroundings} {s : InMemoryStore} {boundary : DeliveryBoundary}
    (hmessages : messages ≠ [])
    (hboundary : dispatchBoundary (routeToWaitingRun s threadId request) = some boundary) :
    let routed := routeToWaitingRun s threadId request
    let runId := dispatchRunId routed fresh
    (prepareRunForDispatch request threadId messages fresh generated (.ok resolutionId) now around
        s).2 =
      ((freezeMachine threadId runId).step s ⟨[],
        .dispatch routed (normalizeMessageIds messages generated)
          (deliveryModeForDispatch boundary runId) now,
        routed.snapshot ⟨"", none, [], [], none, none⟩ (some resolutionId), boundary, around⟩).2 := by
  intro routed runId
  have hstart : pendingMachine.run s [] = s := rfl
  have hne : normalizeMessageIds messages generated ≠ [] := by
    simpa [normalizeMessageIds] using hmessages
  simp only [prepareRunForDispatch, freezeMachine, Caller.record, Caller.append, hstart]
  cases dispatchRecord s routed threadId runId now with
  | error e => rfl
  | ok record =>
    simp only [preparePendingMessagesForDispatch, if_neg hne, hboundary]
    cases preparePendingBoundarySnapshotForRun
        (routed.snapshot ⟨"", none, [], [], none, none⟩ (some resolutionId)) threadId boundary runId
        (some (normalizeMessageIds messages generated, deliveryModeForDispatch boundary runId))
        around (record, s) with
    | mk result state =>
      cases result with
      | error e => rfl
      | ok frozen => cases frozen <;> rfl

/-- Other clients leave the record of the run. -/
structure FreezeCall.LeavesRun (call : FreezeCall) (runId : String) : Prop where
  before : Mailbox.LeavesRun runId call.before
  around : ∀ n, (call.around n).LeavesRun runId

/-- A call for a freeze of the run, its reply and the stores around it. -/
abbrev FreezeStep := Machine.Step InMemoryStore FreezeCall Served

/-- The ids that the calls of a trace have frozen, oldest first. -/
def frozenIds (ts : List FreezeStep) : List String :=
  ts.flatMap fun t =>
    match t.reply.result with
    | .ok (some frozen) => frozen.map MessageRecord.messageId
    | _ => []

theorem frozenIds_cons (t : FreezeStep) (ts : List FreezeStep) :
    frozenIds (t :: ts) = frozenIds [t] ++ frozenIds ts := by
  simp [frozenIds]

/-- The call records what the run has consumed when it freezes. Otherwise none of its commits
    changes runs, queues and logs, and the caller keeps its record. -/
def RecordsConsumed (threadId runId : String) (consumed : List String) (t : FreezeStep) : Prop :=
  match t.reply.result with
  | .ok (some frozen) =>
    Recorded t.after threadId runId (consumed ++ frozen.map MessageRecord.messageId) ∧
      t.reply.left = t.after.runs.get? runId
  | _ =>
    t.reply.left = t.reply.given ∧ ∀ p ∈ t.reply.commits,
      Unchanged p.2.store (commit threadId t.event.boundary t.event.caller.append p.1 p.2).2

theorem RecordsConsumed.unchanged {threadId runId : String} {consumed : List String}
    {t : FreezeStep} (h : RecordsConsumed threadId runId consumed t)
    (hresult : t.reply.result = .ok none) :
    ∀ p ∈ t.reply.commits,
      Unchanged p.2.store (commit threadId t.event.boundary t.event.caller.append p.1 p.2).2 := by
  unfold RecordsConsumed at h
  rw [hresult] at h
  exact h.2

/-- No commit of the call leaves its messages behind. -/
def KeepsNoAppend (threadId : String) (t : FreezeStep) : Prop :=
  ∀ p ∈ t.reply.commits, ¬ LeavesAppend threadId t.event.boundary t.event.caller.append p.1 p.2

instance (threadId : String) (t : FreezeStep) : Decidable (KeepsNoAppend threadId t) :=
  inferInstanceAs (Decidable (∀ _ ∈ _, _))

section Run

variable {s : InMemoryStore} {threadId runId : String} {ids : List String}

/-- A caller holds a record of the run that lists what it has consumed. -/
theorem Caller.record_ok {caller : Caller} {boundary : DeliveryBoundary} {record : RunRecord}
    (h : Consumed s threadId runId ids)
    (hrecord : caller.record threadId runId boundary s = .ok record) :
    record.runId = runId ∧ priorTriggerIds record = ids := by
  cases caller with
  | loop =>
    cases hget : s.runs.get? runId with
    | none => simp [Caller.record, hget] at hrecord
    | some stored =>
      simp only [Caller.record, hget] at hrecord
      cases hrecord
      exact h.stored record hget
  | dispatch request messages mode now =>
    simp only [Caller.record, dispatchRecord] at hrecord
    cases hget : s.runs.get? runId with
    | none =>
      rw [hget] at hrecord
      cases hrecord
      exact ⟨rfl, (h.absent hget).symm⟩
    | some stored =>
      rw [hget] at hrecord
      dsimp only at hrecord
      obtain ⟨hrun, hprior⟩ := h.stored stored hget
      split at hrecord
      · cases hrecord
      · split at hrecord
        · cases hrecord
        · cases hrecord
          exact ⟨hrun, hprior⟩

/-- One call: it records what the run has consumed, and the next call starts from that. -/
theorem step_recordsConsumed (h : Consumed s threadId runId ids) {call : FreezeCall}
    (hforeign : call.LeavesRun runId) {t : FreezeStep}
    (ht : t = ⟨s, call, ((freezeMachine threadId runId).step s call).1,
      ((freezeMachine threadId runId).step s call).2⟩) (hclean : KeepsNoAppend threadId t) :
    RecordsConsumed threadId runId ids t ∧
      Consumed t.after threadId runId (ids ++ frozenIds [t]) := by
  have hstart := h.run hforeign.before
  cases hrecord : call.caller.record threadId runId call.boundary
      (pendingMachine.run s call.before) with
  | error e =>
    simp only [freezeMachine, hrecord] at ht
    rw [ht]
    refine ⟨⟨rfl, by simp⟩, ?_⟩
    simpa [frozenIds] using hstart
  | ok record =>
    obtain ⟨hrun, hprior⟩ := Caller.record_ok hstart hrecord
    have harounds : ∀ around ∈ call.arounds, around.LeavesRun runId := by
      intro around haround
      obtain ⟨n, -, rfl⟩ := List.mem_map.mp haround
      exact hforeign.around n
    have hcall : preparePendingBoundarySnapshotForRun call.template threadId call.boundary runId
        call.caller.append call.around (record, pendingMachine.run s call.before) =
      freezeAttempts call.template threadId call.boundary runId call.caller.append call.arounds
        (record, pendingMachine.run s call.before) := rfl
    simp only [freezeMachine, hrecord, hcall] at ht
    rw [ht] at hclean ⊢
    have hcases := freezeAttempts_consumed call.template threadId call.boundary runId
      call.caller.append hstart hrun hprior harounds hclean
    cases hr : freezeAttempts call.template threadId call.boundary runId call.caller.append
        call.arounds (record, pendingMachine.run s call.before) with
    | mk result state =>
      simp only [hr] at hcases
      cases hcases with
      | inl hok =>
        obtain ⟨frozen, rfl, hstored, hrecorded, hafter⟩ := hok
        refine ⟨⟨hrecorded, hstored.symm⟩, ?_⟩
        simpa [frozenIds] using hafter
      | inr hnone =>
        obtain ⟨hresult, hleft, hafter, hunchanged⟩ := hnone
        cases result with
        | error e =>
          refine ⟨⟨congrArg some hleft, hunchanged⟩, ?_⟩
          simpa [frozenIds] using hafter
        | ok frozen =>
          cases frozen with
          | some frozen => exact absurd rfl (hresult frozen)
          | none =>
            refine ⟨⟨congrArg some hleft, hunchanged⟩, ?_⟩
            simpa [frozenIds] using hafter

theorem trace_recordsConsumed (h : Consumed s threadId runId ids) {calls : List FreezeCall}
    (hforeign : ∀ call ∈ calls, call.LeavesRun runId)
    (hclean : ∀ t ∈ (freezeMachine threadId runId).trace s calls, KeepsNoAppend threadId t)
    {pre post : List FreezeStep} {t : FreezeStep}
    (ht : (freezeMachine threadId runId).trace s calls = pre ++ t :: post) :
    RecordsConsumed threadId runId (ids ++ frozenIds pre) t := by
  induction calls generalizing s ids pre with
  | nil => simp [Machine.trace] at ht
  | cons call calls ih =>
    rw [Machine.trace] at ht hclean
    obtain ⟨hfirst, hnext⟩ := step_recordsConsumed h (hforeign call List.mem_cons_self) rfl
      (hclean _ List.mem_cons_self)
    cases pre with
    | nil =>
      obtain ⟨rfl, -⟩ := List.cons.inj ht
      simpa [frozenIds] using hfirst
    | cons t' pre =>
      obtain ⟨rfl, hrest⟩ := List.cons.inj ht
      have hlater := ih hnext (fun c hc => hforeign c (List.mem_cons_of_mem _ hc))
        (fun u hu => hclean u (List.mem_cons_of_mem _ hu)) hrest
      rw [frozenIds_cons, ← List.append_assoc]
      exact hlater

/-- However often a run is dispatched and asks for freezes, and whatever other clients do around
    every attempt, the stored record lists what the run has consumed, and a call that does not
    freeze changes nothing, as long as no dispatch leaves its messages queued behind a conflict. -/
theorem run_recordsConsumed (s : InMemoryStore) (threadId runId : String)
    (hempty : s.pending threadId = [])
    (hstored : ∀ record, s.runs.get? runId = some record →
      record.runId = runId ∧ priorTriggerIds record = [])
    (calls : List FreezeCall) (hforeign : ∀ call ∈ calls, call.LeavesRun runId)
    (hclean : ∀ t ∈ (freezeMachine threadId runId).trace s calls, KeepsNoAppend threadId t) :
    ∀ pre t post, (freezeMachine threadId runId).trace s calls = pre ++ t :: post →
      RecordsConsumed threadId runId (frozenIds pre) t := by
  intro pre t post ht
  have hstart : Consumed s threadId runId [] :=
    ⟨ordered_of_empty hempty, hstored, fun _ => rfl, List.nodup_nil, List.nil_sublist _⟩
  exact trace_recordsConsumed hstart hforeign hclean ht

end Run

/-! ## Two clients -/

private def newActivation : RunActivation where
  intent := ⟨none, "t", .newIntent⟩
  trace := ⟨none, none, none, none, none, none⟩
  runMode := .foreground
  internalOrigin := false
  seededDecisions := []
  runIdHint := none

private def anyId : Nat → Uuid := fun _ => .generated

/-- Another client queues a message for the given boundary. -/
private def queueOther (messageId : String) (boundary : DeliveryBoundary) : PendingOp :=
  .append "t" [.user "other" messageId] (deliveryModeForDispatch boundary "") 0 anyId

/-- Another client makes the given calls before the first commit. -/
private def disturbed (beforeCommit : List PendingOp) (n : Nat) : Surroundings :=
  ⟨[], [], if n = 0 then beforeCommit else [], 1000, anyId, anyId⟩

/-- A call of a client for a boundary, between the given calls of another client. -/
private def callFor (caller : Caller) (boundary : DeliveryBoundary)
    (before beforeCommit : List PendingOp) : FreezeCall where
  before := before
  caller := caller
  template := newActivation.snapshot ⟨"", none, [], [], none, none⟩ (some "plan")
  boundary := boundary
  around := disturbed beforeCommit

/-- The dispatch of a run for its message. -/
private def dispatcher : Caller :=
  .dispatch newActivation [.user "hello" "m-1"] (deliveryModeForDispatch .interrupt "r") 0

/-- A dispatch, and a step of the loop that meets a message at its boundary and another one before
    its commit. -/
private def undisturbedCalls : List FreezeCall :=
  [callFor dispatcher .interrupt [] [],
    callFor .loop .nextStep [queueOther "m-2" .nextStep] [queueOther "m-3" .nextStep]]

theorem leavesRun_disturbed (messageId : String) (boundary : DeliveryBoundary) (runId : String) :
    LeavesRun runId [queueOther messageId boundary] := by
  intro op hop run hrun
  rw [List.mem_singleton.mp hop] at hrun
  cases hrun

/-- The step freezes both messages in its second attempt. -/
theorem run_recordsConsumed_conflict :
    frozenIds ((freezeMachine "t" "r").trace .new undisturbedCalls) = ["m-1", "m-2", "m-3"] ∧
      ∀ pre t post, (freezeMachine "t" "r").trace .new undisturbedCalls = pre ++ t :: post →
        RecordsConsumed "t" "r" (frozenIds pre) t := by
  have hnone : LeavesRun "r" [] := by simp [LeavesRun]
  have hquiet : ∀ n, (disturbed [] n).LeavesRun "r" := fun n =>
    ⟨hnone, hnone, by simp [disturbed, LeavesRun]⟩
  have hother : ∀ n, (disturbed [queueOther "m-3" .nextStep] n).LeavesRun "r" := by
    intro n
    refine ⟨hnone, hnone, ?_⟩
    simp only [disturbed]
    split
    · exact leavesRun_disturbed _ _ _
    · exact hnone
  refine ⟨by decide, run_recordsConsumed .new "t" "r" rfl (by simp [InMemoryStore.new])
    undisturbedCalls ?_ (by decide)⟩
  simp only [undisturbedCalls, List.forall_mem_cons, List.not_mem_nil, false_implies,
    implies_true, and_true]
  exact ⟨⟨hnone, hquiet⟩, leavesRun_disturbed _ _ _, hother⟩

/-- Another client queues a message for the next step between the reads and the commit of the
    dispatch. The commit finds another selection than the planned one and leaves its message queued;
    behind the other one it is not eligible, so the call returns nothing. -/
theorem dispatch_leavesAppend :
    let call := callFor dispatcher .interrupt [] [queueOther "m-2" .nextStep]
    let reply := (freezeMachine "t" "r").step .new call
    reply.1.result = .ok none ∧ reply.2.pendingIds "t" = ["m-2", "m-1"] ∧
      ¬ RecordsConsumed "t" "r" [] ⟨.new, call, reply.1, reply.2⟩ := by
  intro call reply
  have hresult : reply.1.result = .ok none := by decide
  have hchanged : ¬ ∀ p ∈ reply.1.commits,
      (commit "t" .interrupt dispatcher.append p.1 p.2).2.pendingIds "t" =
        p.2.store.pendingIds "t" := by decide
  refine ⟨hresult, by decide, fun hrecords => hchanged fun p hp => ?_⟩
  have hsame := hrecords.unchanged hresult p hp
  show List.map _ _ = List.map _ _
  rw [← hsame.pending]
  rfl

end Remo.Mailbox
