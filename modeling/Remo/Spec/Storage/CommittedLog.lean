import Remo.Native.Storage.Store
import Remo.Spec.Message.ToolPairing
import Remo.Spec.Pending.Atomicity
import Remo.Spec.Pending.Delivery

/-!
# The committed log of the store

Appends, checkpoints that append and freezes extend the log of one thread; a version
guard compares the number of committed messages. The plain freeze makes the empty log
of a new thread before it looks at the guard, so that one failed call can be seen.

## Key results

- `callStore_logs`: every call keeps the logs well formed
- `callStore_logStep`: what an appending call does to the log of a thread
- `run_append_only_iff`: the log law holds along a run exactly when no freeze fails
  its guard on a thread without a log
-/

namespace Remo

/-- A step of the store. -/
abbrev StoreStep := Machine.Step InMemoryStore StoreOp (Outcome StoreReply)

namespace StoreOp

/-- The call overwrites no log and deletes none. -/
def appends : StoreOp → Bool
  | deleteThreadWithStrategy _ _ _ => false
  | saveMessages _ _ => false
  | checkpoint _ _ _ _ => false
  | _ => true

/-- The thread whose log the call appends to. -/
def logThread : StoreOp → Option String
  | appendMessageRecords threadId _ _ => some threadId
  | checkpointAppend threadId _ _ _ _ => some threadId
  | pending (.freeze threadId _ _ _) => some threadId
  | pending (.freezeWithRun threadId _ _ _ _ _ _) => some threadId
  | pending (.appendAndFreezeWithRun threadId _ _ _ _ _ _ _ _) => some threadId
  | _ => none

/-- The number of committed messages the call expects. -/
def expectedVersion : StoreOp → Option UInt64
  | checkpointAppend _ _ expectedVersion _ _ => expectedVersion
  | pending (.freeze _ _ expectedMessageVersion _) => expectedMessageVersion
  | pending (.freezeWithRun _ _ expectedMessageVersion _ _ _ _) => expectedMessageVersion
  | pending (.appendAndFreezeWithRun _ _ _ _ expectedMessageVersion _ _ _ _) =>
    expectedMessageVersion
  | _ => none

/-- The messages the call carries: those given, or those a freeze selects. -/
def carried (s : InMemoryStore) : StoreOp → List Message
  | appendMessageRecords _ messages _ => messages
  | checkpointAppend _ messages _ _ _ => messages
  | pending op =>
    match InMemoryStore.freezeSelection (s.pending (op.threadId.getD "")) op with
    | some (boundary, currentRunId, queue) =>
      InMemoryStore.selectedMessages queue
        (selectPendingForFreezeForRun queue boundary currentRunId)
    | none => []
  | _ => []

end StoreOp

/-- The records of a thread that a call returns when it commits their messages. -/
def returnedRecords (threadId : String) (t : StoreStep) : List MessageRecord :=
  if t.event.logThread = some threadId then
    match t.reply with
    | .ok (.records records) => records
    | .ok (.pending (.messages records)) => records
    | _ => []
  else []

namespace InMemoryStore

/-! ## Well-formed logs -/

/-- Every log is well formed. -/
def LogsWellFormed (s : InMemoryStore) : Prop := ∀ t, WellFormedLog (s.committed t)

theorem logsWellFormed_new : new.LogsWellFormed := by
  intro t
  have hnil : new.committed t = [] := by simp [committed, new]
  rw [hnil]
  exact wellFormedLog_nil

theorem LogsWellFormed.congr {s s' : InMemoryStore} (h : s.LogsWellFormed)
    (hsame : ∀ t, s'.committed t = s.committed t) : s'.LogsWellFormed := by
  intro t
  rw [hsame]
  exact h t

theorem LogsWellFormed.setCommitted {s : InMemoryStore} (h : s.LogsWellFormed)
    {threadId : String} {messages : List Message} (hmessages : WellFormedLog messages) :
    (s.setCommitted threadId messages).LogsWellFormed := by
  intro t
  rw [committed_setCommitted]
  split
  · exact hmessages
  · exact h t

theorem LogsWellFormed.removeThread {s : InMemoryStore} (h : s.LogsWellFormed)
    (threadId : String) : (s.removeThread threadId).LogsWellFormed := by
  intro t
  have hget : (s.removeThread threadId).messages.get? t =
      if t = threadId then none else s.messages.get? t := by
    show (s.messages.retain fun k _ => decide (k ≠ threadId)).get? t = _
    rw [AssocMap.get?_retain_keys s.messages (fun k => decide (k ≠ threadId)) t]
    by_cases ht : t = threadId <;> simp [ht]
  unfold committed
  rw [hget]
  split
  · exact wellFormedLog_nil
  · exact h t

theorem validateCommittedMessages_iff {messages : List Message} :
    validateCommittedMessages messages = .ok () ↔ WellFormedLog messages :=
  validateAppendOnlyDelta_iff wellFormedLog_nil

theorem saveMessages_logs {s : InMemoryStore} (h : s.LogsWellFormed) (threadId : String)
    (messages : List Message) : (saveMessages threadId messages s).2.LogsWellFormed := by
  unfold saveMessages
  split
  · exact h
  · rename_i hvalid
    exact h.setCommitted (validateCommittedMessages_iff.mp hvalid)

theorem deleteThreadWithStrategy_logs {s : InMemoryStore} (h : s.LogsWellFormed)
    (threadId : String) (strategy : ChildThreadDeleteStrategy) (now : UInt64) :
    (deleteThreadWithStrategy threadId strategy now s).2.LogsWellFormed := by
  unfold deleteThreadWithStrategy
  split
  · exact h
  · cases strategy with
    | reject =>
      dsimp only
      split
      · exact h
      · exact h.removeThread threadId
    | detach => exact LogsWellFormed.removeThread (h.congr fun _ => rfl) threadId
    | cascade =>
      dsimp only
      split
      · exact h
      · rename_i ids _
        have hfold : ∀ (ids : List String) (s : InMemoryStore), s.LogsWellFormed →
            (ids.foldl InMemoryStore.removeThread s).LogsWellFormed := by
          intro ids
          induction ids with
          | nil => exact fun s hs => hs
          | cons id ids ih => exact fun s hs => ih _ (hs.removeThread id)
        exact hfold ids s h

theorem checkpoint_logs {s : InMemoryStore} (h : s.LogsWellFormed) (threadId : String)
    (messages : List Message) (run : RunRecord) (now : UInt64) :
    (checkpoint threadId messages run now s).2.LogsWellFormed := by
  unfold checkpoint
  dsimp only
  split
  · exact h
  · rename_i hchecked
    obtain ⟨-, hrest⟩ := bind_ok.mp hchecked
    have hvalid := validateCommittedMessages_iff.mp (bind_ok.mp hrest).1
    have hset : (s.setCommitted threadId messages).LogsWellFormed := h.setCommitted hvalid
    exact hset.congr fun _ => rfl

/-- How an append can end: rejected with an entry for the thread made, or accepted. -/
theorem appendMessageRecords_cases (s : InMemoryStore) (threadId : String)
    (messages : List Message) (generated : Nat → Uuid) :
    let m := appendMessageRecords threadId messages generated
    (∃ e, m s = (Outcome.fail e, s.messagesEntry threadId)) ∨
      (validateAppendOnlyDelta (s.committed threadId) messages = .ok () ∧
        m s = (.ok (messages.mapIdx fun index message => MessageRecord.fromMessage threadId
            ((s.committed threadId).length + 1 + index) message (generated index)),
          (s.messagesEntry threadId).setCommitted threadId
            (s.committed threadId ++ messages))) := by
  intro m
  simp only [m, appendMessageRecords, committed_messagesEntry]
  split
  · rename_i e _
    exact .inl ⟨e, rfl⟩
  · rename_i hvalid
    exact .inr ⟨hvalid, rfl⟩

/-- How an appending checkpoint can end: rejected without a trace, rejected behind its
    guard with an entry for the thread made, or accepted. -/
theorem checkpointAppend_cases (s : InMemoryStore) (threadId : String) (messages : List Message)
    (expectedVersion : Option UInt64) (run : RunRecord) (now : UInt64) :
    let m := checkpointAppend threadId messages expectedVersion run now
    (∃ e, m s = (Outcome.fail e, s)) ∨
      (checkMessageVersion expectedVersion (s.committed threadId).length = .ok () ∧
        ((∃ e, m s = (Outcome.fail e, s.messagesEntry threadId)) ∨
          (validateAppendOnlyDelta (s.committed threadId) messages = .ok () ∧
            m s = (.ok (s.committed threadId ++ messages).length,
              ((s.messagesEntry threadId).setCommitted threadId
                (s.committed threadId ++ messages)).recordRun threadId run now)))) := by
  intro m
  simp only [m, checkpointAppend, committed_messagesEntry]
  split
  · rename_i e _
    exact .inl ⟨e, rfl⟩
  · rename_i hchecked
    right
    obtain ⟨-, hrest⟩ := bind_ok.mp hchecked
    refine ⟨(bind_ok.mp hrest).2, ?_⟩
    split
    · rename_i e _
      exact .inl ⟨e, rfl⟩
    · rename_i committed hmerged
      right
      obtain ⟨hvalid, heq⟩ := bind_ok.mp hmerged
      cases heq
      exact ⟨hvalid, rfl⟩

theorem appendMessageRecords_logs {s : InMemoryStore} (h : s.LogsWellFormed) (threadId : String)
    (messages : List Message) (generated : Nat → Uuid) :
    (appendMessageRecords threadId messages generated s).2.LogsWellFormed := by
  have hentry : (s.messagesEntry threadId).LogsWellFormed := h.congr fun _ => by simp
  rcases appendMessageRecords_cases s threadId messages generated with ⟨e, hm⟩ | ⟨hvalid, hm⟩
  · rw [hm]
    exact hentry
  · rw [hm]
    exact hentry.setCommitted ((validateAppendOnlyDelta_iff (h threadId)).mp hvalid)

theorem checkpointAppend_logs {s : InMemoryStore} (h : s.LogsWellFormed) (threadId : String)
    (messages : List Message) (expectedVersion : Option UInt64) (run : RunRecord)
    (now : UInt64) :
    (checkpointAppend threadId messages expectedVersion run now s).2.LogsWellFormed := by
  have hentry : (s.messagesEntry threadId).LogsWellFormed := h.congr fun _ => by simp
  rcases checkpointAppend_cases s threadId messages expectedVersion run now with
    ⟨e, hm⟩ | ⟨-, ⟨e, hm⟩ | ⟨hvalid, hm⟩⟩
  · rw [hm]
    exact h
  · rw [hm]
    exact hentry
  · rw [hm]
    have hset : ((s.messagesEntry threadId).setCommitted threadId
        (s.committed threadId ++ messages)).LogsWellFormed :=
      hentry.setCommitted ((validateAppendOnlyDelta_iff (h threadId)).mp hvalid)
    exact hset.congr fun _ => rfl

/-- Moving selected messages checks them against the log. -/
theorem moveSelected_logs {s : InMemoryStore} (h : s.LogsWellFormed) (threadId : String)
    {selectedIndexes : List Nat} (hasc : selectedIndexes.Pairwise (· < ·))
    (hrange : ∀ i ∈ selectedIndexes, i < (s.pending threadId).length) (generated : Nat → Uuid) :
    (moveSelected threadId selectedIndexes generated s).2.LogsWellFormed := by
  unfold moveSelected
  dsimp only
  split
  · exact h
  · rename_i hvalid
    rw [drainSelected_fst hasc hrange, ← selectedMessages_eq]
    have hpending : ∀ queue, (s.setPending threadId queue).LogsWellFormed :=
      fun queue => h.congr fun _ => rfl
    exact (hpending _).setCommitted ((validateAppendOnlyDelta_iff (h threadId)).mp hvalid)

theorem freezeSelectionWithRun_logs {s : InMemoryStore} (h : s.LogsWellFormed)
    (threadId : String) (boundary : DeliveryBoundary) (expectedPendingIds : List String)
    (run : RunRecord) (now : UInt64) (generated : Nat → Uuid) :
    (freezeSelectionWithRun threadId boundary expectedPendingIds run now generated
      s).2.LogsWellFormed := by
  unfold freezeSelectionWithRun
  dsimp only
  split
  · exact h
  · have hentry : (s.messagesEntry threadId).LogsWellFormed := h.congr fun _ => by simp
    have hmoved := moveSelected_logs hentry threadId
      (select_pairwise (s.pending threadId) boundary (some run.runId))
      (fun i hi => lt_length_of_mem_select hi) generated
    apply Method.bind_snd LogsWellFormed
    · exact hmoved
    · intro records s' heq
      rw [heq] at hmoved
      exact hmoved.congr fun _ => rfl

theorem committed_of_writes {s s' : InMemoryStore} {threadId : String}
    {queue : List PendingMessageRecord} (h : Writes s s' threadId queue (s.committed threadId))
    (t : String) : s'.committed t = s.committed t := by
  by_cases ht : t = threadId
  · rw [ht, h.committed]
  · exact (h.frame t ht).2

/-- The calls of the queue that are no freezes leave the logs alone. -/
theorem committed_callPending_of_quiet (s : InMemoryStore) {op : PendingOp}
    (hop : (StoreOp.pending op).logThread = none) (t : String) :
    (callPending op s).2.committed t = s.committed t := by
  cases op with
  | load => rfl
  | listThreads => rfl
  | append threadId messages deliveryMode now generated =>
    rw [callPending, Method.map_snd]
    rcases append_cases s threadId messages deliveryMode now generated with
      ⟨-, hwrites⟩ | ⟨-, -, hwrites⟩ <;> exact committed_of_writes hwrites t
  | update threadId pendingId expectedRevision message now =>
    rw [callPending, Method.map_snd]
    rcases update_cases s threadId pendingId expectedRevision message now with
      ⟨-, hwrites⟩ | ⟨_, _, _, -, -, -, -, hwrites⟩ <;> exact committed_of_writes hwrites t
  | retract threadId pendingId expectedRevision =>
    rw [callPending, Method.map_snd]
    rcases retract_cases s threadId pendingId expectedRevision with
      ⟨-, hwrites⟩ | ⟨_, _, -, -, -, hwrites⟩ <;> exact committed_of_writes hwrites t
  | reorder threadId expectedQueueRevision orderedPendingIds now =>
    rw [callPending, Method.map_snd]
    rcases reorder_cases s threadId expectedQueueRevision orderedPendingIds now with
      ⟨-, hwrites⟩ | ⟨_, -, -, hwrites⟩ <;> exact committed_of_writes hwrites t
  | freeze => cases hop
  | freezeWithRun => cases hop
  | appendAndFreezeWithRun => cases hop

theorem callPending_logs {s : InMemoryStore} (h : s.LogsWellFormed) (op : PendingOp) :
    (callPending op s).2.LogsWellFormed := by
  cases op with
  | freeze threadId boundary expectedMessageVersion generated =>
    rw [callPending, Method.map_snd]
    have hentry : (s.messagesEntry threadId).LogsWellFormed := h.congr fun _ => by simp
    unfold freezePendingMessageRecords
    dsimp only
    split
    · exact hentry
    · split
      · exact hentry
      · exact moveSelected_logs hentry threadId
          (select_pairwise (s.pending threadId) boundary none)
          (fun i hi => lt_length_of_mem_select hi) generated
  | freezeWithRun threadId boundary expectedMessageVersion expectedPendingIds run now generated =>
    rw [callPending, Method.map_snd]
    have hentry : (s.pendingEntry threadId).LogsWellFormed := h.congr fun _ => rfl
    unfold freezePendingMessageRecordsWithRun
    split
    · exact h
    · exact freezeSelectionWithRun_logs hentry threadId boundary expectedPendingIds run now
        generated
  | appendAndFreezeWithRun threadId newMessages deliveryMode boundary expectedMessageVersion
      expectedPendingIds run now generated =>
    rw [callPending, Method.map_snd]
    unfold appendAndFreezePendingMessageRecordsWithRun
    split
    · exact h
    · have happended : (appendPendingMessageRecords threadId newMessages deliveryMode now generated
          s).2.LogsWellFormed := by
        rcases append_cases s threadId newMessages deliveryMode now generated with
          ⟨-, hwrites⟩ | ⟨-, -, hwrites⟩ <;> exact h.congr (committed_of_writes hwrites)
      apply Method.bind_snd LogsWellFormed
      · exact happended
      · intro records s' heq
        rw [heq] at happended
        exact freezeSelectionWithRun_logs happended threadId boundary expectedPendingIds run now
          generated
  | _ => exact h.congr (committed_callPending_of_quiet s rfl)

/-- Every call keeps the logs well formed. -/
theorem callStore_logs {s : InMemoryStore} (h : s.LogsWellFormed) (op : StoreOp) :
    (callStore op s).2.LogsWellFormed := by
  cases op with
  | saveThreadValidated thread =>
    rw [callStore, Method.map_snd]
    unfold saveThreadValidated
    dsimp only
    split
    · exact h
    · exact h.congr fun _ => rfl
  | deleteThreadWithStrategy threadId strategy now =>
    rw [callStore, Method.map_snd]
    exact deleteThreadWithStrategy_logs h threadId strategy now
  | saveMessages threadId messages =>
    rw [callStore, Method.map_snd]
    exact saveMessages_logs h threadId messages
  | appendMessageRecords threadId messages generated =>
    rw [callStore, Method.map_snd]
    exact appendMessageRecords_logs h threadId messages generated
  | checkpoint threadId messages run now =>
    rw [callStore, Method.map_snd]
    exact checkpoint_logs h threadId messages run now
  | checkpointAppend threadId messages expectedVersion run now =>
    rw [callStore, Method.map_snd]
    exact checkpointAppend_logs h threadId messages expectedVersion run now
  | pending op =>
    rw [callStore, Method.map_snd]
    exact callPending_logs h op

theorem run_logs_from {s : InMemoryStore} (h : s.LogsWellFormed) (ops : List StoreOp) :
    (storeMachine.run s ops).LogsWellFormed := by
  apply storeMachine.run_invariant LogsWellFormed
  · intro s op h
    exact callStore_logs h op
  · exact h

/-- Every log of a reachable state is well formed. -/
theorem run_logs (ops : List StoreOp) : (storeMachine.run new ops).LogsWellFormed :=
  run_logs_from logsWellFormed_new ops

/-- The step a call makes. -/
def storeStep (s : InMemoryStore) (op : StoreOp) : StoreStep :=
  ⟨s, op, (callStore op s).1, (callStore op s).2⟩

@[simp] theorem storeStep_before (s : InMemoryStore) (op : StoreOp) :
    (storeStep s op).before = s := rfl

@[simp] theorem storeStep_event (s : InMemoryStore) (op : StoreOp) :
    (storeStep s op).event = op := rfl

@[simp] theorem storeStep_reply (s : InMemoryStore) (op : StoreOp) :
    (storeStep s op).reply = (callStore op s).1 := rfl

@[simp] theorem storeStep_after (s : InMemoryStore) (op : StoreOp) :
    (storeStep s op).after = (callStore op s).2 := rfl

/-- The call returned. -/
def Succeeds (t : StoreStep) : Prop := ∃ reply, t.reply = .ok reply

/-- A step appended the messages `delta` to the log of a thread. A call on the thread
    that returned passed its guard, appended what it carries, and returned the new
    length or the records of the messages. -/
structure LogStep (threadId : String) (t : StoreStep) (delta : List Message) : Prop where
  committed : t.after.committed threadId = t.before.committed threadId ++ delta
  guard : t.event.logThread = some threadId → Succeeds t →
    ∀ version, t.event.expectedVersion = some version →
      version.toNat = (t.before.committed threadId).length
  carried : t.event.logThread = some threadId → Succeeds t → delta = t.event.carried t.before
  version : t.event.logThread = some threadId → ∀ version, t.reply = .ok (.version version) →
    version = (t.after.committed threadId).length
  records : ∀ r ∈ returnedRecords threadId t, ∃ i m generated, delta[i]? = some m ∧
    r = MessageRecord.fromMessage threadId ((t.before.committed threadId).length + 1 + i) m
      generated

/-- A call on no log or on that of another thread. -/
theorem LogStep.of_frame {threadId : String} {t : StoreStep}
    (hthread : t.event.logThread ≠ some threadId)
    (hsame : t.after.committed threadId = t.before.committed threadId) :
    LogStep threadId t [] where
  committed := by rw [hsame, List.append_nil]
  guard h := absurd h hthread
  carried h := absurd h hthread
  version h := absurd h hthread
  records := by
    intro r hr
    rw [returnedRecords, if_neg hthread] at hr
    cases hr

/-- A call that failed and left the log alone. -/
theorem LogStep.of_error {threadId : String} {t : StoreStep} {f : Fault}
    (hreply : t.reply = .error f)
    (hsame : t.after.committed threadId = t.before.committed threadId) :
    LogStep threadId t [] where
  committed := by rw [hsame, List.append_nil]
  guard := by
    rintro - ⟨reply, hok⟩
    rw [hreply] at hok
    cases hok
  carried := by
    rintro - ⟨reply, hok⟩
    rw [hreply] at hok
    cases hok
  version := by
    intro _ version hok
    rw [hreply] at hok
    cases hok
  records := by
    intro r hr
    rw [returnedRecords, hreply] at hr
    split at hr <;> cases hr

theorem checkMessageVersion_ok {expected : Option UInt64} {actual : Nat}
    (h : checkMessageVersion expected actual = .ok ()) :
    ∀ version, expected = some version → version.toNat = actual := by
  rintro version rfl
  simp only [checkMessageVersion] at h
  split at h
  · cases h
  · rename_i hne
    exact not_not.mp hne

theorem checkFreezeWithRun_guard {s : InMemoryStore} {threadId : String}
    {expectedMessageVersion : Option UInt64} {run : RunRecord}
    (hok : s.checkFreezeWithRun threadId expectedMessageVersion run = .ok ()) :
    checkMessageVersion expectedMessageVersion (s.committed threadId).length = .ok () := by
  obtain ⟨-, hrest⟩ := bind_ok.mp hok
  exact (bind_ok.mp hrest).2

/-- Every freeze that returned passed its guard. -/
theorem freeze_guard {s : InMemoryStore} {threadId : String} {boundary : DeliveryBoundary}
    {expectedMessageVersion : Option UInt64} {generated : Nat → Uuid}
    {records : List MessageRecord}
    (hok : (freezePendingMessageRecords threadId boundary expectedMessageVersion generated s).1 =
      .ok records) :
    checkMessageVersion expectedMessageVersion (s.committed threadId).length = .ok () := by
  simp only [freezePendingMessageRecords, committed_messagesEntry] at hok
  cases hcheck : checkMessageVersion expectedMessageVersion (s.committed threadId).length with
  | ok v => rfl
  | error e =>
    rw [hcheck] at hok
    cases hok

theorem freezeWithRun_guard {s : InMemoryStore} {threadId : String} {boundary : DeliveryBoundary}
    {expectedMessageVersion : Option UInt64} {expectedPendingIds : List String} {run : RunRecord}
    {now : UInt64} {generated : Nat → Uuid} {records : List MessageRecord}
    (hok : (freezePendingMessageRecordsWithRun threadId boundary expectedMessageVersion
      expectedPendingIds run now generated s).1 = .ok records) :
    checkMessageVersion expectedMessageVersion (s.committed threadId).length = .ok () := by
  unfold freezePendingMessageRecordsWithRun at hok
  cases hcheck : s.checkFreezeWithRun threadId expectedMessageVersion run with
  | ok v => exact checkFreezeWithRun_guard hcheck
  | error e =>
    rw [hcheck] at hok
    cases hok

theorem appendAndFreezeWithRun_guard {s : InMemoryStore} {threadId : String}
    {newMessages : List Message} {deliveryMode : DeliveryMode} {boundary : DeliveryBoundary}
    {expectedMessageVersion : Option UInt64} {expectedPendingIds : List String} {run : RunRecord}
    {now : UInt64} {generated : Nat → Uuid} {records : List MessageRecord}
    (hok : (appendAndFreezePendingMessageRecordsWithRun threadId newMessages deliveryMode boundary
      expectedMessageVersion expectedPendingIds run now generated s).1 = .ok records) :
    checkMessageVersion expectedMessageVersion (s.committed threadId).length = .ok () := by
  unfold appendAndFreezePendingMessageRecordsWithRun at hok
  cases hcheck : s.checkFreezeWithRun threadId expectedMessageVersion run with
  | ok v => exact checkFreezeWithRun_guard hcheck
  | error e =>
    rw [hcheck] at hok
    cases hok

/-- A freeze failed and left the log alone, or passed its guard and moved the messages
    it carries to the end of the log. -/
def FreezesOrFails (threadId : String) (s : InMemoryStore) (op : PendingOp)
    (m : Method Fault InMemoryStore (List MessageRecord)) : Prop :=
  ((∃ f, (m s).1 = .error f) ∧ (m s).2.committed threadId = s.committed threadId) ∨
    ∃ (records : List MessageRecord) (generated : Nat → Uuid), (m s).1 = .ok records ∧
      checkMessageVersion (StoreOp.pending op).expectedVersion (s.committed threadId).length =
        .ok () ∧
      (m s).2.committed threadId = s.committed threadId ++ (StoreOp.pending op).carried s ∧
      records = ((StoreOp.pending op).carried s).mapIdx fun index message =>
        MessageRecord.fromMessage threadId ((s.committed threadId).length + 1 + index) message
          (generated index)

theorem FreezesOrFails.logStep {threadId : String} {s : InMemoryStore} {op : PendingOp}
    {m : Method Fault InMemoryStore (List MessageRecord)} (h : FreezesOrFails threadId s op m)
    (hm : callPending op = Method.map .messages m) :
    ∃ delta, LogStep threadId (storeStep s (.pending op)) delta := by
  have hreply : (storeStep s (.pending op)).reply =
      (m s).1.map fun records => .pending (.messages records) := by
    rw [storeStep, callStore, hm, Method.map_map]
    rfl
  have hafter : (storeStep s (.pending op)).after = (m s).2 := by
    rw [storeStep, callStore, hm, Method.map_map]
    rfl
  rcases h with ⟨⟨f, hf⟩, hsame⟩ | ⟨records, generated, hok, hguard, hcommitted, hrecords⟩
  · rw [hf] at hreply
    exact ⟨[], .of_error hreply (by rw [hafter]; exact hsame)⟩
  · rw [hok] at hreply
    refine ⟨(StoreOp.pending op).carried s, ?_⟩
    constructor
    case committed => rw [hafter, hcommitted]; rfl
    case guard => exact fun _ _ => checkMessageVersion_ok hguard
    case carried => exact fun _ _ => rfl
    case version =>
      intro _ version hversion
      rw [hreply] at hversion
      cases hversion
    case records =>
      intro r hr
      rw [returnedRecords, hreply] at hr
      split at hr
      · have hr' : r ∈ records := hr
        rw [hrecords] at hr'
        obtain ⟨i, hi, rfl⟩ := List.mem_mapIdx.mp hr'
        exact ⟨i, _, _, List.getElem?_eq_getElem hi, rfl⟩
      · cases hr

/-- What a freeze of the queue does to the log of its thread. -/
theorem freezeStep {threadId : String} (s : InMemoryStore) {op : PendingOp}
    (hop : (StoreOp.pending op).logThread = some threadId) :
    ∃ delta, LogStep threadId (storeStep s (.pending op)) delta := by
  cases op with
  | freeze tid boundary expectedMessageVersion generated =>
    obtain rfl := Option.some.inj hop
    apply FreezesOrFails.logStep _ rfl
    rcases freeze_cases s tid boundary expectedMessageVersion generated with
      ⟨hf, hwrites⟩ | ⟨hnone, hok, hwrites⟩ | ⟨records, hok, hfreezes⟩
    · exact Or.inl ⟨hf, hwrites.committed⟩
    · have hcarried : (StoreOp.pending (.freeze tid boundary expectedMessageVersion
          generated)).carried s = [] := by
        show selectedMessages (s.pending tid) (selectPendingForFreezeForRun (s.pending tid)
          boundary none) = []
        rw [hnone]
        rfl
      refine Or.inr ⟨[], generated, hok, freeze_guard hok, ?_, ?_⟩
      · rw [hcarried, List.append_nil, hwrites.committed]
      · rw [hcarried]
        rfl
    · exact Or.inr ⟨records, generated, hok, freeze_guard hok, hfreezes.writes.committed,
        hfreezes.records⟩
  | freezeWithRun tid boundary expectedMessageVersion expectedPendingIds run now generated =>
    obtain rfl := Option.some.inj hop
    apply FreezesOrFails.logStep _ rfl
    rcases freezeWithRun_cases s tid boundary expectedMessageVersion expectedPendingIds run now
      generated with ⟨hf, hwrites⟩ | ⟨records, hok, hfreezes⟩
    · exact Or.inl ⟨hf, hwrites.committed⟩
    · exact Or.inr ⟨records, generated, hok, freezeWithRun_guard hok, hfreezes.writes.committed,
        hfreezes.records⟩
  | appendAndFreezeWithRun tid newMessages deliveryMode boundary expectedMessageVersion
      expectedPendingIds run now generated =>
    obtain rfl := Option.some.inj hop
    apply FreezesOrFails.logStep _ rfl
    rcases appendAndFreezeWithRun_cases s tid newMessages deliveryMode boundary
      expectedMessageVersion expectedPendingIds run now generated with
      ⟨hf, hwrites⟩ | ⟨-, ⟨hf, hwrites⟩ | ⟨records, hok, hfreezes⟩⟩
    · exact Or.inl ⟨hf, hwrites.committed⟩
    · exact Or.inl ⟨hf, hwrites.committed⟩
    · exact Or.inr ⟨records, generated, hok, appendAndFreezeWithRun_guard hok,
        hfreezes.writes.committed, hfreezes.records⟩
  | _ => cases hop

/-- A call on the queue of one thread leaves the logs of the others alone. -/
theorem committed_callPending_of_other (s : InMemoryStore) {op : PendingOp} {threadId : String}
    (hop : (StoreOp.pending op).logThread ≠ some threadId) :
    (callPending op s).2.committed threadId = s.committed threadId := by
  cases htid : (StoreOp.pending op).logThread with
  | none => exact committed_callPending_of_quiet s htid threadId
  | some tid =>
    have hthread : op.threadId = some tid := by
      cases op with
      | freeze => exact htid
      | freezeWithRun => exact htid
      | appendAndFreezeWithRun => exact htid
      | _ => cases htid
    apply (callPending_frame _).2
    rw [hthread, ← htid]
    exact hop

theorem appendMessageRecords_logStep (s : InMemoryStore) (threadId : String)
    (messages : List Message) (generated : Nat → Uuid) :
    ∃ delta, LogStep threadId (storeStep s (.appendMessageRecords threadId messages generated))
      delta := by
  have hafter : (storeStep s (.appendMessageRecords threadId messages generated)).after =
      (appendMessageRecords threadId messages generated s).2 := by
    rw [storeStep_after, callStore, Method.map_snd]
  have hreply : (storeStep s (.appendMessageRecords threadId messages generated)).reply =
      (appendMessageRecords threadId messages generated s).1.map .records := by
    rw [storeStep_reply, callStore, Method.map_fst]
  rcases appendMessageRecords_cases s threadId messages generated with ⟨e, hm⟩ | ⟨-, hm⟩
  · rw [hm] at hafter hreply
    refine ⟨[], LogStep.of_error (f := .storage e) hreply ?_⟩
    rw [hafter, storeStep_before, committed_messagesEntry]
  · rw [hm] at hafter hreply
    refine ⟨messages, ?_⟩
    constructor
    case committed =>
      rw [hafter, storeStep_before, committed_setCommitted, if_pos rfl]
    case guard =>
      intro _ _ version hversion
      cases hversion
    case carried => exact fun _ _ => rfl
    case version =>
      intro _ version hversion
      rw [hreply] at hversion
      cases hversion
    case records =>
      intro r hr
      rw [returnedRecords, hreply] at hr
      split at hr
      · have hr' : r ∈ messages.mapIdx fun index message => MessageRecord.fromMessage threadId
            ((s.committed threadId).length + 1 + index) message (generated index) := hr
        obtain ⟨i, hi, rfl⟩ := List.mem_mapIdx.mp hr'
        exact ⟨i, _, _, List.getElem?_eq_getElem hi, rfl⟩
      · cases hr

theorem checkpointAppend_logStep (s : InMemoryStore) (threadId : String)
    (messages : List Message) (expectedVersion : Option UInt64) (run : RunRecord)
    (now : UInt64) :
    ∃ delta, LogStep threadId
      (storeStep s (.checkpointAppend threadId messages expectedVersion run now)) delta := by
  have hafter : (storeStep s (.checkpointAppend threadId messages expectedVersion run now)).after =
      (checkpointAppend threadId messages expectedVersion run now s).2 := by
    rw [storeStep_after, callStore, Method.map_snd]
  have hreply : (storeStep s (.checkpointAppend threadId messages expectedVersion run now)).reply =
      (checkpointAppend threadId messages expectedVersion run now s).1.map .version := by
    rw [storeStep_reply, callStore, Method.map_fst]
  rcases checkpointAppend_cases s threadId messages expectedVersion run now with
    ⟨e, hm⟩ | ⟨hguard, ⟨e, hm⟩ | ⟨-, hm⟩⟩
  · rw [hm] at hafter hreply
    refine ⟨[], LogStep.of_error (f := .storage e) hreply ?_⟩
    rw [hafter, storeStep_before]
  · rw [hm] at hafter hreply
    refine ⟨[], LogStep.of_error (f := .storage e) hreply ?_⟩
    rw [hafter, storeStep_before, committed_messagesEntry]
  · rw [hm] at hafter hreply
    have hcommitted : (storeStep s (.checkpointAppend threadId messages expectedVersion run
        now)).after.committed threadId = s.committed threadId ++ messages := by
      rw [hafter, committed_recordRun, committed_setCommitted, if_pos rfl]
    refine ⟨messages, ?_⟩
    constructor
    case committed => exact hcommitted
    case guard => exact fun _ _ => checkMessageVersion_ok hguard
    case carried => exact fun _ _ => rfl
    case version =>
      intro _ version hversion
      rw [hreply] at hversion
      cases hversion
      rw [hcommitted]
    case records =>
      intro r hr
      rw [returnedRecords, hreply] at hr
      split at hr <;> cases hr

/-- What an appending call does to the log of a thread. -/
theorem callStore_logStep (s : InMemoryStore) {op : StoreOp} (hop : op.appends = true)
    (threadId : String) : ∃ delta, LogStep threadId (storeStep s op) delta := by
  by_cases hthread : op.logThread = some threadId
  · cases op with
    | appendMessageRecords tid messages generated =>
      obtain rfl := Option.some.inj hthread
      exact appendMessageRecords_logStep s tid messages generated
    | checkpointAppend tid messages expectedVersion run now =>
      obtain rfl := Option.some.inj hthread
      exact checkpointAppend_logStep s tid messages expectedVersion run now
    | pending op => exact freezeStep s hthread
    | _ => cases hthread
  · refine ⟨[], LogStep.of_frame hthread ?_⟩
    rw [storeStep_after, storeStep_before]
    cases op with
    | saveThreadValidated thread =>
      rw [callStore, Method.map_snd]
      unfold saveThreadValidated
      dsimp only
      split <;> rfl
    | appendMessageRecords tid messages generated =>
      have hne : threadId ≠ tid := fun h => hthread (congrArg some h.symm)
      rw [callStore, Method.map_snd]
      rcases appendMessageRecords_cases s tid messages generated with ⟨e, hm⟩ | ⟨-, hm⟩
      · rw [hm, committed_messagesEntry]
      · rw [hm, committed_setCommitted, if_neg hne, committed_messagesEntry]
    | checkpointAppend tid messages expectedVersion run now =>
      have hne : threadId ≠ tid := fun h => hthread (congrArg some h.symm)
      rw [callStore, Method.map_snd]
      rcases checkpointAppend_cases s tid messages expectedVersion run now with
        ⟨e, hm⟩ | ⟨-, ⟨e, hm⟩ | ⟨-, hm⟩⟩
      · rw [hm]
      · rw [hm, committed_messagesEntry]
      · rw [hm, committed_recordRun, committed_setCommitted, if_neg hne, committed_messagesEntry]
    | pending op =>
      rw [callStore, Method.map_snd]
      exact committed_callPending_of_other s hthread
    | deleteThreadWithStrategy => cases hop
    | saveMessages => cases hop
    | checkpoint => cases hop

/-! ## Failed guards -/

/-- The call expects another number of committed messages than there are. -/
def FailsGuard (t : StoreStep) : Prop :=
  ∃ threadId version, t.event.logThread = some threadId ∧
    t.event.expectedVersion = some version ∧
    version.toNat ≠ (t.before.committed threadId).length

/-- A freeze without a run that expects committed messages of a thread without a log. -/
def FreezesMissingLog (s : InMemoryStore) (op : StoreOp) : Prop :=
  ∃ threadId boundary version generated,
    op = .pending (.freeze threadId boundary (some version) generated) ∧
      s.messages.get? threadId = none ∧ version.toNat ≠ 0

theorem checkMessageVersion_of_ne {version : UInt64} {actual : Nat} (h : version.toNat ≠ actual) :
    checkMessageVersion (some version) actual =
      .error (.versionConflict version (UInt64.ofNat actual)) := by
  simp only [checkMessageVersion]
  rw [if_pos h]

theorem checkFreezeWithRun_of_ne {s : InMemoryStore} {threadId : String} {version : UInt64}
    (run : RunRecord) (h : version.toNat ≠ (s.committed threadId).length) :
    ∃ e, s.checkFreezeWithRun threadId (some version) run = .error e := by
  cases hcheck : s.checkFreezeWithRun threadId (some version) run with
  | error e => exact ⟨e, rfl⟩
  | ok v =>
    have hguard := checkFreezeWithRun_guard hcheck
    rw [checkMessageVersion_of_ne h] at hguard
    cases hguard

/-- The freeze makes the empty log of a new thread before it looks at its guard. -/
theorem freeze_of_ne {s : InMemoryStore} {threadId : String} {version : UInt64}
    (boundary : DeliveryBoundary) (generated : Nat → Uuid)
    (h : version.toNat ≠ (s.committed threadId).length) :
    (freezePendingMessageRecords threadId boundary (some version) generated s).2 =
      s.messagesEntry threadId := by
  simp only [freezePendingMessageRecords, committed_messagesEntry, checkMessageVersion_of_ne h]

theorem not_failsGuard_of_logThread {s : InMemoryStore} {op : StoreOp}
    (h : op.logThread = none) : ¬FailsGuard (storeStep s op) := by
  rintro ⟨threadId, version, hthread, -⟩
  rw [storeStep_event, h] at hthread
  cases hthread

/-- A call that fails its guard leaves everything as a load reads it, unless it is a
    freeze without a run on a thread without a log. -/
theorem storeStep_guarded_iff (s : InMemoryStore) (op : StoreOp) :
    (FailsGuard (storeStep s op) → SameReads s (storeStep s op).after) ↔
      ¬FreezesMissingLog s op := by
  constructor
  · rintro hguarded ⟨threadId, boundary, version, generated, rfl, hnone, hversion⟩
    have hlength : version.toNat ≠ (s.committed threadId).length := by
      rw [committed, hnone]
      exact hversion
    have hreads := hguarded ⟨threadId, version, rfl, rfl, hlength⟩
    have hentry := hreads.messages threadId
    rw [storeStep_after, callStore, Method.map_snd, callPending, Method.map_snd,
      freeze_of_ne boundary generated hlength, messagesEntry, AssocMap.get?_orInsert, if_pos rfl,
      hnone] at hentry
    cases hentry
  · intro hnot hfails
    by_cases hthread : op.logThread = none
    · exact absurd hfails (not_failsGuard_of_logThread hthread)
    obtain ⟨tid, version, htid, hversion, hne⟩ := hfails
    rw [storeStep_event] at htid hversion
    rw [storeStep_before] at hne
    rw [storeStep_after]
    cases op with
    | appendMessageRecords threadId messages generated => cases hversion
    | checkpointAppend threadId messages expectedVersion run now =>
      cases htid
      obtain rfl : expectedVersion = some version := hversion
      rw [callStore, Method.map_snd]
      rcases checkpointAppend_cases s tid messages (some version) run now with
        ⟨e, hm⟩ | ⟨hguard, -⟩
      · rw [hm]
        exact .refl s
      · rw [checkMessageVersion_of_ne hne] at hguard
        cases hguard
    | pending op =>
      rw [callStore, Method.map_snd]
      cases op with
      | freeze threadId boundary expectedMessageVersion generated =>
        cases htid
        obtain rfl : expectedMessageVersion = some version := hversion
        rw [callPending, Method.map_snd, freeze_of_ne boundary generated hne]
        apply sameReads_messagesEntry
        intro hnone
        apply hnot
        refine ⟨tid, boundary, version, generated, rfl, hnone, ?_⟩
        rw [committed, hnone] at hne
        exact hne
      | freezeWithRun threadId boundary expectedMessageVersion expectedPendingIds run now
          generated =>
        cases htid
        obtain rfl : expectedMessageVersion = some version := hversion
        obtain ⟨e, hcheck⟩ := checkFreezeWithRun_of_ne run hne
        rw [callPending, Method.map_snd, freezePendingMessageRecordsWithRun, hcheck]
        exact .refl s
      | appendAndFreezeWithRun threadId newMessages deliveryMode boundary expectedMessageVersion
          expectedPendingIds run now generated =>
        cases htid
        obtain rfl : expectedMessageVersion = some version := hversion
        obtain ⟨e, hcheck⟩ := checkFreezeWithRun_of_ne run hne
        rw [callPending, Method.map_snd, appendAndFreezePendingMessageRecordsWithRun, hcheck]
        exact .refl s
      | _ => cases htid
    | _ => cases htid

/-! ## The law of the log along a run -/

/-- Two calls expect the same version of the same log and carry messages, and both
    returned. -/
def BothWin (t u : StoreStep) : Prop :=
  ∃ threadId version, t.event.logThread = some threadId ∧ u.event.logThread = some threadId ∧
    t.event.expectedVersion = some version ∧ u.event.expectedVersion = some version ∧
    t.event.carried t.before ≠ [] ∧ u.event.carried u.before ≠ [] ∧ Succeeds t ∧ Succeeds u

/-- The logs are append-only and guarded by their version along the steps. -/
structure AppendOnly (steps : List StoreStep) : Prop where
  grows : ∀ t ∈ steps, ∀ threadId, t.before.committed threadId <+: t.after.committed threadId
  distinct : ∀ t ∈ steps, ∀ threadId, (logIds (t.after.committed threadId)).Nodup
  version : ∀ t ∈ steps, ∀ threadId version, t.event.logThread = some threadId →
    t.reply = .ok (.version version) → version = (t.after.committed threadId).length
  oneWins : steps.Pairwise fun t u => ¬BothWin t u
  guarded : ∀ t ∈ steps, FailsGuard t → ¬Succeeds t ∧ SameReads t.before t.after

/-- No log loses messages. -/
def LogsGrow (s s' : InMemoryStore) : Prop :=
  ∀ threadId, s.committed threadId <+: s'.committed threadId

theorem callStore_logsGrow (s : InMemoryStore) {op : StoreOp} (hop : op.appends = true) :
    LogsGrow s (callStore op s).2 := by
  intro threadId
  obtain ⟨delta, hstep⟩ := callStore_logStep s hop threadId
  have hcommitted := hstep.committed
  rw [storeStep_after, storeStep_before] at hcommitted
  rw [hcommitted]
  exact List.prefix_append _ _

/-- A run of appending calls only extends the logs. -/
theorem run_logsGrow (s : InMemoryStore) {ops : List StoreOp}
    (hops : ∀ op ∈ ops, op.appends = true) : LogsGrow s (storeMachine.run s ops) := by
  apply storeMachine.run_invariant_along (LogsGrow s) fun _ op => op.appends = true
  · intro s' op hgrow hop threadId
    exact (hgrow threadId).trans (callStore_logsGrow s' hop threadId)
  · intro threadId
    exact List.prefix_rfl
  · exact storeMachine.along_of_forall s hops

/-- The second of two calls with one expectation came too late. -/
theorem not_bothWin {s s' : InMemoryStore} {op op' : StoreOp} (hop : op.appends = true)
    (hop' : op'.appends = true) (hgrow : LogsGrow (storeStep s op).after s') :
    ¬BothWin (storeStep s op) (storeStep s' op') := by
  rintro ⟨threadId, version, hthread, hthread', hversion, hversion', hcarried, -, hok, hok'⟩
  obtain ⟨delta, hstep⟩ := callStore_logStep s hop threadId
  obtain ⟨delta', hstep'⟩ := callStore_logStep s' hop' threadId
  have hlength : version.toNat = (s.committed threadId).length :=
    hstep.guard hthread hok version hversion
  have hlength' : version.toNat = (s'.committed threadId).length :=
    hstep'.guard hthread' hok' version hversion'
  have hpos : 0 < delta.length := by
    rw [hstep.carried hthread hok]
    exact List.length_pos_iff.mpr hcarried
  have hafter := congrArg List.length hstep.committed
  rw [List.length_append, storeStep_before] at hafter
  have hle := (hgrow threadId).length_le
  omega

/-- A call that returned expected as many committed messages as there are. -/
theorem not_succeeds_of_failsGuard {s : InMemoryStore} {op : StoreOp}
    (hop : op.appends = true) (hfails : FailsGuard (storeStep s op)) :
    ¬Succeeds (storeStep s op) := by
  intro hok
  obtain ⟨threadId, version, hthread, hversion, hne⟩ := hfails
  obtain ⟨delta, hstep⟩ := callStore_logStep s hop threadId
  exact hne (hstep.guard hthread hok version hversion)

/-- A step of the store is the one its state and its call determine. -/
theorem eq_storeStep_of_mem {s : InMemoryStore} {ops : List StoreOp} {t : StoreStep}
    (ht : t ∈ storeMachine.trace s ops) : t = storeStep t.before t.event ∧ t.event ∈ ops := by
  obtain ⟨pre, post, hops, -, hreply, hafter⟩ := storeMachine.mem_trace ht
  constructor
  · obtain ⟨before, event, reply, after⟩ := t
    dsimp only at hreply hafter
    subst hreply hafter
    rfl
  · rw [hops]
    exact List.mem_append_right _ List.mem_cons_self

/-- Of two calls of a run with one expectation at most one wins. -/
theorem trace_oneWins (s : InMemoryStore) {ops : List StoreOp}
    (hops : ∀ op ∈ ops, op.appends = true) :
    (storeMachine.trace s ops).Pairwise fun t u => ¬BothWin t u := by
  have halong : storeMachine.Along (fun _ op => op.appends = true) s ops :=
    storeMachine.along_of_forall s hops
  have hgrow := (storeMachine.trace_pairwise LogsGrow _
    (fun _ _ => List.prefix_rfl) (fun _ _ _ h h' threadId => (h threadId).trans (h' threadId))
    (fun s op hop => callStore_logsGrow s hop) ops halong).2
  apply hgrow.imp_of_mem
  intro t u ht hu hgrow
  obtain ⟨heq, hevent⟩ := eq_storeStep_of_mem ht
  obtain ⟨heq', hevent'⟩ := eq_storeStep_of_mem hu
  rw [heq, heq']
  rw [heq] at hgrow
  exact not_bothWin (hops _ hevent) (hops _ hevent') hgrow

/-- From any reachable state, calls that append keep the logs append-only and guarded
    exactly when none of them is a freeze without a run that expects committed messages
    of a thread without a log. -/
theorem run_append_only_iff (setup ops : List StoreOp) (hops : ∀ op ∈ ops, op.appends = true) :
    AppendOnly (storeMachine.trace (storeMachine.run new setup) ops) ↔
      ∀ t ∈ storeMachine.trace (storeMachine.run new setup) ops,
        ¬FreezesMissingLog t.before t.event := by
  constructor
  · intro h t ht
    obtain ⟨heq, -⟩ := eq_storeStep_of_mem ht
    apply (storeStep_guarded_iff t.before t.event).mp
    rw [← heq]
    exact fun hfails => (h.guarded t ht hfails).2
  · intro hnot
    constructor
    case grows =>
      intro t ht
      obtain ⟨heq, hevent⟩ := eq_storeStep_of_mem ht
      rw [heq]
      exact callStore_logsGrow t.before (hops _ hevent)
    case distinct =>
      intro t ht threadId
      obtain ⟨heq, -⟩ := eq_storeStep_of_mem ht
      obtain ⟨pre, -, -, hbefore, -⟩ := storeMachine.mem_trace ht
      have hlogs : t.before.LogsWellFormed := by
        rw [hbefore]
        exact run_logs_from (run_logs setup) pre
      rw [heq]
      exact (callStore_logs hlogs t.event threadId).nodup
    case version =>
      intro t ht threadId version hthread hversion
      obtain ⟨heq, hevent⟩ := eq_storeStep_of_mem ht
      obtain ⟨delta, hstep⟩ := callStore_logStep t.before (hops _ hevent) threadId
      rw [← heq] at hstep
      exact hstep.version hthread version hversion
    case oneWins => exact trace_oneWins _ hops
    case guarded =>
      intro t ht hfails
      obtain ⟨heq, hevent⟩ := eq_storeStep_of_mem ht
      have hreads := (storeStep_guarded_iff t.before t.event).mpr (hnot t ht)
      rw [← heq] at hreads
      rw [heq] at hfails
      have hfailed := not_succeeds_of_failsGuard (hops _ hevent) hfails
      rw [← heq] at hfails hfailed
      exact ⟨hfailed, hreads hfails⟩

/-- Two writers append behind the same version; the second fails. -/
theorem run_append_only_two_writers :
    let ops : List StoreOp :=
      [.checkpointAppend "t" [.user "first" "m-1"] (some 0) (.new "r-1" "t" "agent") 0,
        .checkpointAppend "t" [.user "second" "m-2"] (some 0) (.new "r-2" "t" "agent") 0]
    AppendOnly (storeMachine.trace (storeMachine.run new []) ops) := by
  intro ops
  apply (run_append_only_iff [] ops (by decide)).mpr
  intro t ht hfreezes
  obtain ⟨threadId, boundary, version, generated, hevent, -⟩ := hfreezes
  obtain ⟨-, hmem⟩ := eq_storeStep_of_mem ht
  rw [hevent] at hmem
  simp [ops] at hmem

/-- A freeze of a new thread with a stale version fails, and the thread has an empty log
    behind it where it had none. -/
theorem freeze_stale_leaves_log :
    let op : StoreOp := .pending (.freeze "t" .newRun (some 1) fun _ => .generated)
    op.appends = true ∧ ¬AppendOnly (storeMachine.trace (storeMachine.run new []) [op]) ∧
      new.loadMessages "t" = .ok none ∧ (callStore op new).1.isOk = false ∧
      (callStore op new).2.loadMessages "t" = .ok (some []) := by
  intro op
  refine ⟨rfl, fun hlaw => ?_, rfl, rfl, rfl⟩
  have hmem : storeStep new op ∈ storeMachine.trace (storeMachine.run new []) [op] :=
    List.mem_singleton.mpr rfl
  have hfails : FailsGuard (storeStep new op) := ⟨"t", 1, rfl, rfl, by decide⟩
  have hentry := (hlaw.guarded _ hmem hfails).2.messages "t"
  cases hentry

end InMemoryStore

end Remo
