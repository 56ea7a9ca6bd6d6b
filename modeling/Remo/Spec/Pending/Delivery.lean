import Remo.ForStd.Ledger
import Remo.Spec.Pending.QueueSteps

/-!
# Exactly-once delivery

The pending queue and the committed log of a thread are a delivery ledger, and
every pending call is a run of ledger actions (`callPending_ledger`). So a message
id that was accepted is pending, committed or retracted at any moment, and only
one of these.

## Key results

- `callPending_ledger`: a call is the ledger run that its event and reply name
- `run_delivers_exactly_once`: exactly-once delivery over whole runs
-/

namespace Remo.InMemoryStore

/-! ## Ledger view -/

/-- The ids in the pending queue of a thread. -/
def pendingIds (s : InMemoryStore) (threadId : String) : List String :=
  (s.pending threadId).map PendingMessageRecord.pendingId

/-- The ids in the committed log of a thread. -/
def committedIds (s : InMemoryStore) (threadId : String) : List String :=
  (s.committed threadId).filterMap Message.id

/-- The queue and the log of a thread, by id. -/
def ledger (s : InMemoryStore) (threadId : String) : Ledger String :=
  ⟨s.pendingIds threadId, s.committedIds threadId⟩

/-- One call of a run. -/
abbrev PendingStep := Machine.Step InMemoryStore PendingOp (Outcome PendingReply)

end InMemoryStore

open InMemoryStore

/-- The thread a call works on. -/
def PendingOp.threadId : PendingOp → Option String
  | .load threadId => some threadId
  | .listThreads _ _ => none
  | .append threadId _ _ _ _ => some threadId
  | .update threadId _ _ _ _ => some threadId
  | .retract threadId _ _ => some threadId
  | .reorder threadId _ _ _ => some threadId
  | .freeze threadId _ _ _ => some threadId
  | .freezeWithRun threadId _ _ _ _ _ _ => some threadId
  | .appendAndFreezeWithRun threadId _ _ _ _ _ _ _ _ => some threadId

/-- The ids new messages are queued under. -/
def newMessageIds (messages : List Message) (generated : Nat → Uuid) : List String :=
  messages.mapIdx fun index message => message.id.getD (generated index).text

namespace InMemoryStore

/-- The ledger actions of a call on its thread. An append accepts the ids it
    returned. An append with freeze that failed accepts what it left behind the
    queue it found. -/
def actionsOf (threadId : String) (t : PendingStep) : List (Ledger.Action String) :=
  match t.event, t.reply with
  | .append _ _ _ _ _, .ok (.pendings records) =>
    [.accept (records.map PendingMessageRecord.pendingId)]
  | .retract _ pendingId _, .ok _ => [.retract pendingId]
  | .reorder _ _ _ _, .ok _ => [.reorder]
  | .freeze _ _ _ _, .ok (.messages records) => [.deliver (records.map MessageRecord.messageId)]
  | .freezeWithRun _ _ _ _ _ _ _, .ok (.messages records) =>
    [.deliver (records.map MessageRecord.messageId)]
  | .appendAndFreezeWithRun _ newMessages _ _ _ _ _ _ generated, .ok (.messages records) =>
    [.accept (newMessageIds newMessages generated),
      .deliver (records.map MessageRecord.messageId)]
  | .appendAndFreezeWithRun _ _ _ _ _ _ _ _ _, .error _ =>
    [.accept (((t.after.pending threadId).drop (t.before.pending threadId).length).map
      PendingMessageRecord.pendingId)]
  | _, _ => []

/-- The ledger actions of a call on the given thread. -/
def ledgerActions (threadId : String) (t : PendingStep) : List (Ledger.Action String) :=
  if t.event.threadId = some threadId then actionsOf threadId t else []

/-- The ledger actions of a run on the given thread. -/
def traceActions (threadId : String) (ts : List PendingStep) : List (Ledger.Action String) :=
  ts.flatMap (ledgerActions threadId)

/-! ## Calls as ledger runs -/

/-- A list without change of ids is the same ledger. -/
theorem ledger_of_writes {s s' : InMemoryStore} {threadId : String}
    {queue : List PendingMessageRecord} {messages : List Message}
    (h : Writes s s' threadId queue messages) :
    s'.ledger threadId = ⟨queue.map PendingMessageRecord.pendingId,
      messages.filterMap Message.id⟩ := by
  rw [ledger, pendingIds, committedIds, h.pending, h.committed]

/-- The state of a thread the calls rely on. -/
structure Ordered (s : InMemoryStore) (threadId : String) : Prop where
  arranged : Arranged (s.pending threadId)
  wellFormed : (s.ledger threadId).WellFormed

/-- A step of the thread: the ledger actions it names lead to the ledger it leaves,
    and the queue stays arranged. -/
def StepsTo (s s' : InMemoryStore) (threadId : String) (actions : List (Ledger.Action String)) :
    Prop :=
  Ledger.Run (s.ledger threadId) actions (s'.ledger threadId) ∧ Arranged (s'.pending threadId)

theorem StepsTo.of_unchanged {s s' : InMemoryStore} {threadId : String}
    (h : Writes s s' threadId (s.pending threadId) (s.committed threadId))
    (hs : Arranged (s.pending threadId)) : StepsTo s s' threadId [] := by
  refine ⟨?_, by rwa [h.pending]⟩
  rw [ledger_of_writes h]
  exact .refl _

/-- Messages of arranged records have the ids of their records. -/
theorem filterMap_id_messages {queue : List PendingMessageRecord}
    (h : ∀ r ∈ queue, r.message.id = some r.pendingId) :
    (queue.map PendingMessageRecord.message).filterMap Message.id =
      queue.map PendingMessageRecord.pendingId := by
  rw [List.filterMap_map, ← List.filterMap_eq_map]
  exact List.filterMap_congr h

/-- New records behind an arranged queue leave it arranged. -/
theorem Arranged.append_newRecords {queue : List PendingMessageRecord} (h : Arranged queue)
    (threadId : String) (messages : List Message) (deliveryMode : DeliveryMode) (now : UInt64)
    (generated : Nat → Uuid) :
    Arranged (queue ++ newRecords threadId queue.length messages deliveryMode now generated) := by
  refine ⟨?_, fun r hr => ?_⟩
  · rw [List.map_append, h.positions, map_position_newRecords, List.length_append,
      length_newRecords, Nat.add_comm queue.length 1, List.range'_append_1]
  · rcases List.mem_append.mp hr with hr | hr
    · exact h.named r hr
    · exact named_newRecords _ _ _ _ _ _ r hr

/-- Records that passed the checks are accepted. -/
theorem accept_of_checkNewRecords {s : InMemoryStore} {threadId : String}
    {records : List PendingMessageRecord}
    (h : checkNewRecords (s.committed threadId)
      ((s.pending threadId).map PendingMessageRecord.pendingId) records = .ok ()) :
    Ledger.Step (s.ledger threadId) (.accept (records.map PendingMessageRecord.pendingId))
      ⟨(s.pending threadId ++ records).map PendingMessageRecord.pendingId,
        s.committedIds threadId⟩ := by
  obtain ⟨hnodup, hnew⟩ := checkNewRecords_ok h
  rw [List.map_append]
  refine .accept hnodup fun id hid => ?_
  obtain ⟨r, hr, rfl⟩ := List.mem_map.mp hid
  refine ⟨(hnew r hr).1, fun hmem => ?_⟩
  obtain ⟨m, hm, hmid⟩ := List.mem_filterMap.mp hmem
  exact (hnew r hr).2 m hm hmid

section Freeze

variable {queue : List PendingMessageRecord} {selectedIndexes : List Nat}

theorem mem_of_mem_selectedRecords {r : PendingMessageRecord}
    (h : r ∈ selectedRecords queue selectedIndexes) : r ∈ queue := by
  obtain ⟨i, -, hget⟩ := List.mem_filterMap.mp h
  exact List.mem_of_getElem? hget

theorem mem_of_mem_unselected {r : PendingMessageRecord}
    (h : r ∈ unselected queue selectedIndexes) : r ∈ queue := by
  obtain ⟨⟨r', i⟩, hmem, rfl⟩ := List.mem_map.mp h
  exact List.mem_of_getElem? (List.mem_zipIdx_iff_getElem?.mp (List.mem_of_mem_filter hmem))

/-- The ids of the selected messages are those of their records. -/
theorem filterMap_id_selectedMessages (h : ∀ r ∈ queue, r.message.id = some r.pendingId) :
    (selectedMessages queue selectedIndexes).filterMap Message.id =
      (selectedRecords queue selectedIndexes).map PendingMessageRecord.pendingId := by
  rw [selectedMessages_eq]
  exact filterMap_id_messages fun r hr => h r (mem_of_mem_selectedRecords hr)

/-- The committed records name the selected messages. -/
theorem map_messageId_fromMessage {threadId : String} (start : Nat) (generated : Nat → Uuid)
    {messages : List Message} (h : ∀ m ∈ messages, m.id.isSome = true) :
    (messages.mapIdx fun index message =>
        MessageRecord.fromMessage threadId (start + index) message (generated index)).map
      MessageRecord.messageId = messages.filterMap Message.id := by
  induction messages generalizing start generated with
  | nil => rfl
  | cons m messages ih =>
    obtain ⟨id, hid⟩ := Option.isSome_iff_exists.mp (h m List.mem_cons_self)
    have hrest := ih (start + 1) (fun i => generated (i + 1))
      fun m' hm' => h m' (List.mem_cons_of_mem _ hm')
    rw [List.mapIdx_cons, List.map_cons, List.filterMap_cons_some hid, ← hrest]
    congr 1
    · simp [MessageRecord.fromMessage, hid]
    · simp only [Nat.add_assoc, Nat.add_comm 1]

theorem isSome_id_of_mem_selectedMessages (h : ∀ r ∈ queue, r.message.id = some r.pendingId)
    {m : Message} (hm : m ∈ selectedMessages queue selectedIndexes) : m.id.isSome = true := by
  rw [selectedMessages_eq] at hm
  obtain ⟨r, hr, rfl⟩ := List.mem_map.mp hm
  rw [h r (mem_of_mem_selectedRecords hr)]
  rfl

/-- The committed records have the ids of the selected ones. -/
theorem Freezes.map_messageId {s s' : InMemoryStore} {threadId : String}
    {generated : Nat → Uuid} {records : List MessageRecord}
    (h : Freezes s s' threadId queue selectedIndexes generated records)
    (hqueue : ∀ r ∈ queue, r.message.id = some r.pendingId) :
    records.map MessageRecord.messageId =
      (selectedRecords queue selectedIndexes).map PendingMessageRecord.pendingId := by
  rw [h.records, map_messageId_fromMessage _ _ fun m hm =>
    isSome_id_of_mem_selectedMessages hqueue hm]
  exact filterMap_id_selectedMessages hqueue

/-- A freeze delivers the selected records of its queue. -/
theorem Freezes.ledger_step {s s' : InMemoryStore} {threadId : String}
    {generated : Nat → Uuid} {records : List MessageRecord}
    (h : Freezes s s' threadId queue selectedIndexes generated records)
    (hqueue : Arranged queue) (hasc : selectedIndexes.Pairwise (· < ·))
    (hrange : ∀ i ∈ selectedIndexes, i < queue.length) :
    Ledger.Step ⟨queue.map PendingMessageRecord.pendingId, s.committedIds threadId⟩
        (.deliver (records.map MessageRecord.messageId)) (s'.ledger threadId) ∧
      Arranged (s'.pending threadId) := by
  have hids := h.map_messageId hqueue.named
  have hperm : queue.Perm
      (selectedRecords queue selectedIndexes ++ unselected queue selectedIndexes) := by
    have := drainSelected_perm hasc hrange
    rwa [drainSelected_fst hasc hrange, drainSelected_snd hasc hrange] at this
  constructor
  · rw [ledger_of_writes h.writes, List.filterMap_append,
      filterMap_id_selectedMessages hqueue.named, map_pendingId_normalizePendingPositions, hids]
    refine .deliver ?_
    simpa using hperm.map PendingMessageRecord.pendingId
  · rw [h.writes.pending]
    exact arranged_normalizePendingPositions fun r hr =>
      hqueue.named r (mem_of_mem_unselected hr)

end Freeze

/-- The step of a run a call makes. -/
def stepOf (s : InMemoryStore) (op : PendingOp) : PendingStep :=
  ⟨s, op, (callPending op s).1, (callPending op s).2⟩

/-- A freeze of the thread's own queue is a ledger step. -/
theorem Freezes.stepsTo {s s' : InMemoryStore} {threadId : String} {boundary : DeliveryBoundary}
    {currentRunId : Option String} {generated : Nat → Uuid} {records : List MessageRecord}
    (h : Freezes s s' threadId (s.pending threadId)
      (selectPendingForFreezeForRun (s.pending threadId) boundary currentRunId) generated records)
    (hs : Arranged (s.pending threadId)) :
    StepsTo s s' threadId [.deliver (records.map MessageRecord.messageId)] := by
  obtain ⟨hstep, harranged⟩ := h.ledger_step hs (select_pairwise _ _ _)
    fun i hi => lt_length_of_mem_select hi
  exact ⟨.single hstep, harranged⟩

/-- A call on a thread does to its ledger what its event and reply say. -/
theorem callPending_ledger {s : InMemoryStore} {op : PendingOp} {threadId : String}
    (hs : Ordered s threadId) (hop : op.threadId = some threadId) :
    StepsTo s (callPending op s).2 threadId (actionsOf threadId (stepOf s op)) := by
  have hsame : Writes s s threadId (s.pending threadId) (s.committed threadId) :=
    ⟨rfl, rfl, fun _ _ => ⟨rfl, rfl⟩⟩
  unfold stepOf
  cases op with
  | load tid => exact .of_unchanged hsame hs.arranged
  | listThreads limit after => cases hop
  | append tid messages deliveryMode now generated =>
    cases hop
    have hcases := append_cases s threadId messages deliveryMode now generated
    unfold FailsUnchanged at hcases
    simp only [callPending, Method.map]
    rcases hm : appendPendingMessageRecords threadId messages deliveryMode now generated s
      with ⟨reply, s'⟩
    simp only [hm] at hcases ⊢
    rcases hcases with ⟨⟨f, rfl⟩, hwrites⟩ | ⟨hcheck, rfl, hwrites⟩
    · exact .of_unchanged hwrites hs.arranged
    · refine ⟨.single ?_, ?_⟩
      · rw [ledger_of_writes hwrites]
        exact accept_of_checkNewRecords hcheck
      · rw [hwrites.pending]
        exact hs.arranged.append_newRecords _ _ _ _ _
  | update tid pendingId expectedRevision message now =>
    cases hop
    have hcases := update_cases s threadId pendingId expectedRevision message now
    unfold FailsUnchanged at hcases
    simp only [callPending, Method.map_snd]
    have hnone : actionsOf threadId ⟨s, .update threadId pendingId expectedRevision message now,
        (Method.map .pending (updatePendingMessageRecordChecked threadId pendingId
          expectedRevision message now) s).1,
        (updatePendingMessageRecordChecked threadId pendingId expectedRevision message now
          s).2⟩ = [] := rfl
    rw [hnone]
    rcases hcases with ⟨-, hwrites⟩ | ⟨i, r, r', hget, hid, hposition, hnamed, hwrites⟩
    · exact .of_unchanged hwrites hs.arranged
    · refine ⟨?_, ?_⟩
      · rw [ledger_of_writes hwrites, map_pendingId_set hget hid]
        exact .refl _
      · rw [hwrites.pending]
        exact hs.arranged.set hget hposition hnamed
  | retract tid pendingId expectedRevision =>
    cases hop
    have hcases := retract_cases s threadId pendingId expectedRevision
    unfold FailsUnchanged at hcases
    simp only [callPending, Method.map]
    rcases hm : retractPendingMessageRecordChecked threadId pendingId expectedRevision s
      with ⟨reply, s'⟩
    simp only [hm] at hcases ⊢
    rcases hcases with ⟨⟨f, rfl⟩, hwrites⟩ | ⟨i, r, hget, hid, rfl, hwrites⟩
    · exact .of_unchanged hwrites hs.arranged
    · obtain ⟨hi, rfl⟩ := List.getElem?_eq_some_iff.mp hget
      have hperm := List.getElem_cons_eraseIdx_perm hi
      refine ⟨.single ?_, ?_⟩
      · rw [ledger_of_writes hwrites, map_pendingId_normalizePendingPositions, ← hid]
        exact .retract (hperm.map PendingMessageRecord.pendingId).symm
      · rw [hwrites.pending]
        exact arranged_normalizePendingPositions fun x hx =>
          hs.arranged.named x (List.mem_of_mem_eraseIdx hx)
  | reorder tid expectedQueueRevision orderedPendingIds now =>
    cases hop
    have hcases := reorder_cases s threadId expectedQueueRevision orderedPendingIds now
    unfold FailsUnchanged at hcases
    simp only [callPending, Method.map]
    rcases hm : reorderPendingMessageRecordsChecked threadId expectedQueueRevision
      orderedPendingIds now s with ⟨reply, s'⟩
    simp only [hm] at hcases ⊢
    rcases hcases with ⟨⟨f, rfl⟩, hwrites⟩ | ⟨reordered, hreordered, rfl, hwrites⟩
    · exact .of_unchanged hwrites hs.arranged
    · obtain ⟨-, hperm, harranged⟩ :=
        reorderedRecords_ok hs.wellFormed.nodup hs.arranged hreordered
      refine ⟨.single ?_, by rwa [hwrites.pending]⟩
      rw [ledger_of_writes hwrites]
      exact .reorder hperm
  | freeze tid boundary expectedMessageVersion generated =>
    cases hop
    have hcases := freeze_cases_of_arranged s threadId boundary expectedMessageVersion generated
      hs.arranged
    unfold FailsUnchanged at hcases
    simp only [callPending, Method.map]
    rcases hm : freezePendingMessageRecords threadId boundary expectedMessageVersion generated s
      with ⟨reply, s'⟩
    simp only [hm] at hcases ⊢
    rcases hcases with ⟨⟨f, rfl⟩, hwrites⟩ | ⟨records, rfl, hfreezes⟩
    · exact .of_unchanged hwrites hs.arranged
    · exact hfreezes.stepsTo hs.arranged
  | freezeWithRun tid boundary expectedMessageVersion expectedPendingIds run now generated =>
    cases hop
    have hcases := freezeWithRun_cases s threadId boundary expectedMessageVersion
      expectedPendingIds run now generated
    unfold FailsUnchanged at hcases
    simp only [callPending, Method.map]
    rcases hm : freezePendingMessageRecordsWithRun threadId boundary expectedMessageVersion
      expectedPendingIds run now generated s with ⟨reply, s'⟩
    simp only [hm] at hcases ⊢
    rcases hcases with ⟨⟨f, rfl⟩, hwrites⟩ | ⟨records, rfl, hfreezes⟩
    · exact .of_unchanged hwrites hs.arranged
    · exact hfreezes.stepsTo hs.arranged
  | appendAndFreezeWithRun tid newMessages deliveryMode boundary expectedMessageVersion
      expectedPendingIds run now generated =>
    cases hop
    have hcases := appendAndFreezeWithRun_cases s threadId newMessages deliveryMode boundary
      expectedMessageVersion expectedPendingIds run now generated
    unfold FailsUnchanged at hcases
    simp only [callPending, Method.map]
    rcases hm : appendAndFreezePendingMessageRecordsWithRun threadId newMessages deliveryMode
      boundary expectedMessageVersion expectedPendingIds run now generated s with ⟨reply, s'⟩
    simp only [hm] at hcases ⊢
    have hqueued := hs.arranged.append_newRecords threadId newMessages deliveryMode (now / 1000)
      generated
    rcases hcases with ⟨⟨f, rfl⟩, hwrites⟩ |
      ⟨hcheck, ⟨⟨f, rfl⟩, hwrites⟩ | ⟨frozen, rfl, hfreezes⟩⟩
    · -- nothing is left behind the old queue, so nothing is accepted
      have hnothing : ((s'.pending threadId).drop (s.pending threadId).length) = [] := by
        rw [hwrites.pending, List.drop_length]
      refine ⟨.single ?_, by rw [hwrites.pending]; exact hs.arranged⟩
      rw [ledger_of_writes hwrites]
      simp only [hnothing]
      have := Ledger.Step.accept (l := s.ledger threadId) List.nodup_nil (by simp)
      simpa [ledger, pendingIds, committedIds] using this
    · have hleft : ((s'.pending threadId).drop (s.pending threadId).length) =
          newRecords threadId (s.pending threadId).length newMessages deliveryMode (now / 1000)
            generated := by
        rw [hwrites.pending, List.drop_left]
      refine ⟨.single ?_, by rw [hwrites.pending]; exact hqueued⟩
      rw [ledger_of_writes hwrites]
      simp only [hleft]
      exact accept_of_checkNewRecords hcheck
    · obtain ⟨hstep, harranged⟩ := hfreezes.ledger_step hqueued (select_pairwise _ _ _)
        fun i hi => lt_length_of_mem_select hi
      have haccept := accept_of_checkNewRecords hcheck
      rw [map_pendingId_newRecords] at haccept
      exact ⟨Ledger.Run.append (.single haccept) (.single hstep), harranged⟩

/-- A call that leaves the log as it is appends nothing. -/
theorem Writes.append_nil {s s' : InMemoryStore} {threadId : String}
    {queue : List PendingMessageRecord} (h : Writes s s' threadId queue (s.committed threadId)) :
    ∃ queue messages, Writes s s' threadId queue (s.committed threadId ++ messages) :=
  ⟨queue, [], by rwa [List.append_nil]⟩

/-- A call only writes to its thread, and only appends to its log. -/
theorem callPending_writes {s : InMemoryStore} {op : PendingOp} {threadId : String}
    (hop : op.threadId = some threadId) :
    ∃ queue messages,
      Writes s (callPending op s).2 threadId queue (s.committed threadId ++ messages) := by
  cases op with
  | load tid =>
    exact Writes.append_nil ⟨rfl, rfl, fun _ _ => ⟨rfl, rfl⟩⟩
  | listThreads limit after => cases hop
  | append tid messages deliveryMode now generated =>
    cases hop
    simp only [callPending, Method.map_snd]
    rcases append_cases s threadId messages deliveryMode now generated with
      ⟨-, h⟩ | ⟨-, -, h⟩ <;> exact h.append_nil
  | update tid pendingId expectedRevision message now =>
    cases hop
    simp only [callPending, Method.map_snd]
    rcases update_cases s threadId pendingId expectedRevision message now with
      ⟨-, h⟩ | ⟨_, _, _, -, -, -, -, h⟩ <;> exact h.append_nil
  | retract tid pendingId expectedRevision =>
    cases hop
    simp only [callPending, Method.map_snd]
    rcases retract_cases s threadId pendingId expectedRevision with
      ⟨-, h⟩ | ⟨_, _, -, -, -, h⟩ <;> exact h.append_nil
  | reorder tid expectedQueueRevision orderedPendingIds now =>
    cases hop
    simp only [callPending, Method.map_snd]
    rcases reorder_cases s threadId expectedQueueRevision orderedPendingIds now with
      ⟨-, h⟩ | ⟨_, -, -, h⟩ <;> exact h.append_nil
  | freeze tid boundary expectedMessageVersion generated =>
    cases hop
    simp only [callPending, Method.map_snd]
    rcases freeze_cases s threadId boundary expectedMessageVersion generated with
      ⟨-, h⟩ | ⟨-, -, h⟩ | ⟨_, -, -, h⟩
    · exact h.append_nil
    · exact h.append_nil
    · exact ⟨_, _, h⟩
  | freezeWithRun tid boundary expectedMessageVersion expectedPendingIds run now generated =>
    cases hop
    simp only [callPending, Method.map_snd]
    rcases freezeWithRun_cases s threadId boundary expectedMessageVersion expectedPendingIds run now
      generated with ⟨-, h⟩ | ⟨_, -, -, h⟩
    · exact h.append_nil
    · exact ⟨_, _, h⟩
  | appendAndFreezeWithRun tid newMessages deliveryMode boundary expectedMessageVersion
      expectedPendingIds run now generated =>
    cases hop
    simp only [callPending, Method.map_snd]
    rcases appendAndFreezeWithRun_cases s threadId newMessages deliveryMode boundary
      expectedMessageVersion expectedPendingIds run now generated with
      ⟨-, h⟩ | ⟨-, ⟨-, h⟩ | ⟨_, -, -, h⟩⟩
    · exact h.append_nil
    · exact h.append_nil
    · exact ⟨_, _, h⟩

/-- A call on another thread leaves the thread as it is. -/
theorem callPending_frame {s : InMemoryStore} {op : PendingOp} {threadId : String}
    (hop : op.threadId ≠ some threadId) :
    (callPending op s).2.pending threadId = s.pending threadId ∧
      (callPending op s).2.committed threadId = s.committed threadId := by
  cases htid : op.threadId with
  | none =>
    cases op with
    | listThreads limit after => exact ⟨rfl, rfl⟩
    | _ => cases htid
  | some tid =>
    obtain ⟨queue, messages, hwrites⟩ := callPending_writes htid (s := s)
    exact hwrites.frame threadId fun h => hop (h ▸ htid)

/-- One call, seen from one thread. -/
theorem step_ledger {s : InMemoryStore} {threadId : String} (hs : Ordered s threadId)
    (op : PendingOp) :
    Ledger.Run (s.ledger threadId) (ledgerActions threadId (stepOf s op))
        ((callPending op s).2.ledger threadId) ∧
      Ordered (callPending op s).2 threadId := by
  by_cases hop : op.threadId = some threadId
  · obtain ⟨hrun, harranged⟩ := callPending_ledger hs hop
    have hactions : ledgerActions threadId (stepOf s op) = actionsOf threadId (stepOf s op) :=
      if_pos hop
    rw [hactions]
    exact ⟨hrun, harranged, hrun.wellFormed hs.wellFormed⟩
  · obtain ⟨hpending, hcommitted⟩ := callPending_frame (s := s) hop
    have hledger : (callPending op s).2.ledger threadId = s.ledger threadId := by
      rw [ledger, pendingIds, committedIds, hpending, hcommitted]
      rfl
    have hactions : ledgerActions threadId (stepOf s op) = [] := if_neg hop
    rw [hactions, hledger]
    exact ⟨.refl _, by rw [hpending]; exact hs.arranged, hledger ▸ hs.wellFormed⟩

/-- A whole run, seen from one thread. -/
theorem run_ledger {s : InMemoryStore} {threadId : String} (hs : Ordered s threadId)
    (ops : List PendingOp) :
    Ledger.Run (s.ledger threadId) (traceActions threadId (pendingMachine.trace s ops))
        ((pendingMachine.run s ops).ledger threadId) ∧
      Ordered (pendingMachine.run s ops) threadId := by
  induction ops generalizing s with
  | nil => exact ⟨.refl _, hs⟩
  | cons op ops ih =>
    obtain ⟨hfirst, hnext⟩ := step_ledger hs op
    obtain ⟨hrest, hlast⟩ := ih hnext
    exact ⟨hfirst.append hrest, hlast⟩

/-! ## Exactly-once delivery -/

/-- Every accepted id is pending, committed or retracted, and only one of these, and
    the queue is in order. -/
structure DeliveredOnce (s : InMemoryStore) (threadId : String) (ts : List PendingStep) :
    Prop where
  exactlyOne : ∀ id, Ledger.Accepted (traceActions threadId ts) id →
    ExactlyOne (id ∈ s.pendingIds threadId) (id ∈ s.committedIds threadId)
      (Ledger.retracted (traceActions threadId ts) id = true)
  committedOnce : ∀ id, Ledger.Accepted (traceActions threadId ts) id →
    (s.committedIds threadId).count id ≤ 1
  pendingNodup : (s.pendingIds threadId).Nodup
  pendingNotCommitted : (s.pendingIds threadId).Disjoint (s.committedIds threadId)
  positions : (s.pending threadId).map PendingMessageRecord.position =
    List.range' 1 (s.pending threadId).length

/-- The boundary, the run and the queue a freeze selects from. -/
def freezeSelection (queue : List PendingMessageRecord) :
    PendingOp → Option (DeliveryBoundary × Option String × List PendingMessageRecord)
  | .freeze _ boundary _ _ => some (boundary, none, queue)
  | .freezeWithRun _ boundary _ _ run _ _ => some (boundary, some run.runId, queue)
  | .appendAndFreezeWithRun threadId newMessages deliveryMode boundary _ _ run now generated =>
    some (boundary, some run.runId, queue ++
      newRecords threadId queue.length newMessages deliveryMode (now / 1000) generated)
  | _ => none

/-- A freeze that succeeded appended the selected messages in queue order under
    consecutive sequence numbers, and took them out of the queue. -/
def FreezeAppends (threadId : String) (t : PendingStep) : Prop :=
  ∀ boundary currentRunId queue records, t.event.threadId = some threadId →
    freezeSelection (t.before.pending threadId) t.event = some (boundary, currentRunId, queue) →
    t.reply = .ok (.messages records) →
    let selected := selectPendingForFreezeForRun queue boundary currentRunId
    let messages := selectedMessages queue selected
    selected.Pairwise (· < ·) ∧ (∀ i ∈ selected, i < queue.length) ∧
      t.after.committed threadId = t.before.committed threadId ++ messages ∧
      records.map MessageRecord.message = messages ∧
      records.map MessageRecord.seq =
        List.range' ((t.before.committed threadId).length + 1) messages.length ∧
      t.after.pending threadId = normalizePendingPositions (unselected queue selected)

/-- The committed records carry the given messages, under consecutive numbers. -/
theorem map_message_fromMessage {threadId : String} {start : Nat} {generated : Nat → Uuid}
    {messages : List Message} (h : ∀ m ∈ messages, m.id.isSome = true) :
    (messages.mapIdx fun index message =>
        MessageRecord.fromMessage threadId (start + index) message (generated index)).map
      MessageRecord.message = messages := by
  refine List.ext_getElem (by simp) fun i hi hi' => ?_
  obtain ⟨id, hid⟩ := Option.isSome_iff_exists.mp (h _ (List.getElem_mem hi'))
  simp only [List.getElem_map, List.getElem_mapIdx, MessageRecord.fromMessage, hid,
    Option.getD_some]
  rw [← hid]

/-- Records are numbered from the given number on. -/
theorem map_seq_fromMessage (threadId : String) (start : Nat) (generated : Nat → Uuid)
    (messages : List Message) :
    (messages.mapIdx fun index message =>
        MessageRecord.fromMessage threadId (start + index) message (generated index)).map
      MessageRecord.seq = List.range' start messages.length := by
  refine List.ext_getElem (by simp) fun i hi hi' => ?_
  simp [MessageRecord.fromMessage]

/-- What a successful freeze of an arranged queue returns and leaves. -/
theorem Freezes.appends {s s' : InMemoryStore} {threadId : String}
    {queue : List PendingMessageRecord} {boundary : DeliveryBoundary}
    {currentRunId : Option String} {generated : Nat → Uuid} {records : List MessageRecord}
    (h : Freezes s s' threadId queue (selectPendingForFreezeForRun queue boundary currentRunId)
      generated records) (hqueue : Arranged queue) :
    let selected := selectPendingForFreezeForRun queue boundary currentRunId
    let messages := selectedMessages queue selected
    selected.Pairwise (· < ·) ∧ (∀ i ∈ selected, i < queue.length) ∧
      s'.committed threadId = s.committed threadId ++ messages ∧
      records.map MessageRecord.message = messages ∧
      records.map MessageRecord.seq =
        List.range' ((s.committed threadId).length + 1) messages.length ∧
      s'.pending threadId = normalizePendingPositions (unselected queue selected) := by
  refine ⟨select_pairwise _ _ _, fun i hi => lt_length_of_mem_select hi, h.writes.committed, ?_, ?_,
    h.writes.pending⟩
  · rw [h.records]
    exact map_message_fromMessage fun m hm => isSome_id_of_mem_selectedMessages hqueue.named hm
  · rw [h.records]
    exact map_seq_fromMessage _ _ _ _

/-- A call of a run appends what its freeze selects. -/
theorem stepOf_freezeAppends {s : InMemoryStore} {threadId : String}
    (hs : Arranged (s.pending threadId)) (op : PendingOp) :
    FreezeAppends threadId (stepOf s op) := by
  intro boundary currentRunId queue records hop hfreeze hreply
  simp only [stepOf] at hop hfreeze hreply ⊢
  cases op with
  | freeze tid boundary' expectedMessageVersion generated =>
    cases hop
    cases hfreeze
    simp only [callPending, Method.map_snd] at hreply ⊢
    obtain ⟨records', hok, hrecords⟩ := Method.map_ok hreply
    cases hrecords
    rcases freeze_cases_of_arranged s threadId boundary expectedMessageVersion generated hs with
      ⟨⟨f, hf⟩, -⟩ | ⟨frozen, hfrozen, hfreezes⟩
    · rw [hok] at hf
      cases hf
    · rw [hok] at hfrozen
      cases hfrozen
      exact hfreezes.appends hs
  | freezeWithRun tid boundary' expectedMessageVersion expectedPendingIds run now generated =>
    cases hop
    cases hfreeze
    simp only [callPending, Method.map_snd] at hreply ⊢
    obtain ⟨records', hok, hrecords⟩ := Method.map_ok hreply
    cases hrecords
    rcases freezeWithRun_cases s threadId boundary expectedMessageVersion expectedPendingIds run
      now generated with ⟨⟨f, hf⟩, -⟩ | ⟨frozen, hfrozen, hfreezes⟩
    · rw [hok] at hf
      cases hf
    · rw [hok] at hfrozen
      cases hfrozen
      exact hfreezes.appends hs
  | appendAndFreezeWithRun tid newMessages deliveryMode boundary' expectedMessageVersion
      expectedPendingIds run now generated =>
    cases hop
    cases hfreeze
    simp only [callPending, Method.map_snd] at hreply ⊢
    obtain ⟨records', hok, hrecords⟩ := Method.map_ok hreply
    cases hrecords
    have hqueued := hs.append_newRecords threadId newMessages deliveryMode (now / 1000) generated
    rcases appendAndFreezeWithRun_cases s threadId newMessages deliveryMode boundary
      expectedMessageVersion expectedPendingIds run now generated with
      ⟨⟨f, hf⟩, -⟩ | ⟨-, ⟨⟨f, hf⟩, -⟩ | ⟨frozen, hfrozen, hfreezes⟩⟩
    · rw [hok] at hf
      cases hf
    · rw [hok] at hf
      cases hf
    · rw [hok] at hfrozen
      cases hfrozen
      exact hfreezes.appends hqueued
  | _ => cases hfreeze

/-- The committed log of every thread only grows at its end. -/
theorem committed_callPending (s : InMemoryStore) (op : PendingOp) (threadId : String) :
    s.committed threadId <+: (callPending op s).2.committed threadId := by
  by_cases hop : op.threadId = some threadId
  · obtain ⟨queue, messages, hwrites⟩ := callPending_writes hop (s := s)
    rw [hwrites.committed]
    exact List.prefix_append _ _
  · have hsame := (callPending_frame (s := s) hop).2
    exact hsame ▸ List.prefix_rfl

/-- An empty queue is in order. -/
theorem ordered_of_empty {s : InMemoryStore} {threadId : String} (h : s.pending threadId = []) :
    Ordered s threadId := by
  refine ⟨h ▸ arranged_nil, ?_, ?_⟩ <;> simp [ledger, pendingIds, h]

/-- However many calls are made on a thread that starts with an empty queue, and
    whichever of them fail, every accepted message is pending, committed or retracted,
    the log only grows at its end, and a freeze appends what it selects. -/
theorem run_delivers_exactly_once (s : InMemoryStore) (threadId : String)
    (hempty : s.pending threadId = []) (ops : List PendingOp) :
    DeliveredOnce (pendingMachine.run s ops) threadId (pendingMachine.trace s ops) ∧
      ∀ t ∈ pendingMachine.trace s ops,
        t.before.committed threadId <+: t.after.committed threadId ∧ FreezeAppends threadId t := by
  have hs := ordered_of_empty hempty
  obtain ⟨hrun, hordered⟩ := run_ledger hs ops
  refine ⟨⟨fun id hid => hrun.exactlyOne hs.wellFormed hid,
    fun id hid => hrun.count_le_one hs.wellFormed hid, hordered.wellFormed.nodup,
    hordered.wellFormed.disjoint, hordered.arranged.positions⟩, fun t ht => ?_⟩
  obtain ⟨pre, post, -, hbefore, hreply, hafter⟩ := Machine.mem_trace _ ht
  have hpre := (run_ledger hs pre).2
  have ht' : t = stepOf t.before t.event := by
    rcases t with ⟨before, event, reply, after⟩
    dsimp only at hreply hafter
    rw [hreply, hafter]
    rfl
  rw [← hbefore] at hpre
  rw [ht']
  exact ⟨committed_callPending _ _ _, stepOf_freezeAppends hpre.arranged _⟩

/-- A message that is queued, retracted, queued again and frozen. -/
theorem run_delivers_exactly_once_after_retract :
    let generated : Nat → Uuid := fun _ => .generated
    let append := PendingOp.append "t" [.user "hello" "m-1"] (.newRun .batch) 0 generated
    let ops := [append, .retract "t" "m-1" none, append, .freeze "t" .newRun (some 0) generated]
    DeliveredOnce (pendingMachine.run .new ops) "t" (pendingMachine.trace .new ops) ∧
      ∀ t ∈ pendingMachine.trace .new ops,
        t.before.committed "t" <+: t.after.committed "t" ∧ FreezeAppends "t" t :=
  run_delivers_exactly_once .new "t" rfl _

end Remo.InMemoryStore
