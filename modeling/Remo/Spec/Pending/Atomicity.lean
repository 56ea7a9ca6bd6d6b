import Remo.Spec.Pending.QueueSteps

/-!
# When a failed append-and-freeze leaves no trace

`appendAndFreezePendingMessageRecordsWithRun` queues its new messages before it
selects, compares and validates, all under one set of locks but without undoing
what it wrote. A failure of the later checks leaves the new messages in the queue.

## Key results

- `appendAndFreezeWithRun_sameReads`: the reply depends on what the store reads back only
- `appendAndFreezeWithRun_allOrNothing_iff`: a failed call leaves no trace exactly
  when it does not fail behind its own append
-/

namespace Remo.InMemoryStore

/-- Every load returns the same on both stores. -/
structure SameReads (s s' : InMemoryStore) : Prop where
  threads : s'.threads = s.threads
  runs : s'.runs = s.runs
  runInsertion : s'.runInsertion = s.runInsertion
  messages : ∀ t, s'.messages.get? t = s.messages.get? t
  pending : ∀ t, s'.pending t = s.pending t

theorem SameReads.refl (s : InMemoryStore) : SameReads s s :=
  ⟨rfl, rfl, rfl, fun _ => rfl, fun _ => rfl⟩

theorem SameReads.committed {s s' : InMemoryStore} (h : SameReads s s') (t : String) :
    s'.committed t = s.committed t := by
  rw [InMemoryStore.committed, h.messages]
  rfl

/-- A call that fails leaves everything as a load reads it, and fails in the same way
    when it is made again. -/
def AllOrNothing {α : Type} (m : Method Fault InMemoryStore α) (s : InMemoryStore) : Prop :=
  ∀ f, (m s).1 = .error f → SameReads s (m s).2 ∧ (m (m s).2).1 = .error f

/-! ## Entries made by a call -/

theorem sameReads_pendingEntry (s : InMemoryStore) (threadId : String) :
    SameReads s (s.pendingEntry threadId) :=
  ⟨rfl, rfl, rfl, fun _ => rfl, fun t => pending_pendingEntry s threadId t⟩

/-- Writing the queue that is there changes nothing. -/
theorem sameReads_setPending_self (s : InMemoryStore) (threadId : String) :
    SameReads s (s.setPending threadId (s.pending threadId)) := by
  refine ⟨rfl, rfl, rfl, fun _ => rfl, fun t => ?_⟩
  rw [pending_setPending]
  split
  · rename_i h
    rw [h]
  · rfl

theorem SameReads.trans {s s' s'' : InMemoryStore} (h : SameReads s s') (h' : SameReads s' s'') :
    SameReads s s'' where
  threads := h'.threads.trans h.threads
  runs := h'.runs.trans h.runs
  runInsertion := h'.runInsertion.trans h.runInsertion
  messages t := (h'.messages t).trans (h.messages t)
  pending t := (h'.pending t).trans (h.pending t)

/-- A thread with committed messages keeps its entry. -/
theorem sameReads_messagesEntry {s : InMemoryStore} {threadId : String}
    (h : s.messages.get? threadId ≠ none) : SameReads s (s.messagesEntry threadId) := by
  refine ⟨rfl, rfl, rfl, fun t => ?_, fun _ => rfl⟩
  rw [messagesEntry, AssocMap.get?_orInsert]
  split
  · rename_i ht
    obtain ⟨messages, hmessages⟩ := Option.ne_none_iff_exists'.mp h
    rw [ht, hmessages, Option.getD_some]
  · rfl

/-! ## Append and freeze -/

section AppendAndFreeze

variable (s : InMemoryStore) (threadId : String) (newMessages : List Message)
  (deliveryMode : DeliveryMode) (boundary : DeliveryBoundary)
  (expectedMessageVersion : Option UInt64) (expectedPendingIds : List String) (run : RunRecord)
  (now : UInt64) (generated : Nat → Uuid)

/-- The records the call queues. -/
def appendedRecords : List PendingMessageRecord :=
  newRecords threadId (s.pending threadId).length newMessages deliveryMode (now / 1000) generated

/-- The queue the call selects from. -/
def appendedQueue : List PendingMessageRecord :=
  s.pending threadId ++ s.appendedRecords threadId newMessages deliveryMode now generated

/-- What the call selects from the queue with its new records. -/
def appendedSelection : List Nat :=
  selectPendingForFreezeForRun (s.appendedQueue threadId newMessages deliveryMode now generated)
    boundary (some run.runId)

/-- The checks before the append pass. -/
def AppendPasses : Prop :=
  s.checkFreezeWithRun threadId expectedMessageVersion run = .ok () ∧
    checkNewRecords (s.committed threadId)
      ((s.pending threadId).map PendingMessageRecord.pendingId)
      (s.appendedRecords threadId newMessages deliveryMode now generated) = .ok ()

/-- The ids of the selected records. -/
def appendedSelectedIds : List String :=
  selectedPendingIds (s.appendedQueue threadId newMessages deliveryMode now generated)
    (s.appendedSelection threadId newMessages deliveryMode boundary run now generated)

/-- The check on the selected messages. -/
def validateAppendedSelection : Except StorageError Unit :=
  validateAppendOnlyDelta (s.committed threadId)
    (selectedMessages (s.appendedQueue threadId newMessages deliveryMode now generated)
      (s.appendedSelection threadId newMessages deliveryMode boundary run now generated))

/-- The new messages are queued, and then the selection is not the expected one or
    its messages are rejected. Without new messages only a rejected selection of a
    thread that has no committed messages yet shows: it gets an empty log. -/
def FailsBehindAppend : Prop :=
  s.AppendPasses threadId newMessages deliveryMode expectedMessageVersion run now generated ∧
    (newMessages ≠ [] ∧ s.appendedSelectedIds threadId newMessages deliveryMode boundary run now
        generated ≠ expectedPendingIds ∨
      (newMessages ≠ [] ∨ s.messages.get? threadId = none) ∧
        s.appendedSelectedIds threadId newMessages deliveryMode boundary run now generated =
          expectedPendingIds ∧
        ∃ e, s.validateAppendedSelection threadId newMessages deliveryMode boundary run now
          generated = .error e)

instance : Decidable (s.AppendPasses threadId newMessages deliveryMode expectedMessageVersion run now
    generated) :=
  inferInstanceAs (Decidable (_ ∧ _))

instance : Decidable (∃ e, s.validateAppendedSelection threadId newMessages deliveryMode boundary run
    now generated = .error e) :=
  decidable_of_iff ((s.validateAppendedSelection threadId newMessages deliveryMode boundary run now
    generated).isOk = false) (by
      cases s.validateAppendedSelection threadId newMessages deliveryMode boundary run now
        generated <;> simp [Except.isOk, Except.toBool])

instance : Decidable (s.FailsBehindAppend threadId newMessages deliveryMode boundary
    expectedMessageVersion expectedPendingIds run now generated) :=
  inferInstanceAs (Decidable (_ ∧ (_ ∨ _ ∧ _ ∧ _)))

/-- The queue the call freezes from, in the store. -/
def appended : InMemoryStore :=
  (s.pendingEntry threadId).setPending threadId
    (s.appendedQueue threadId newMessages deliveryMode now generated)

/-- The call itself. -/
abbrev appendAndFreeze : Method Fault InMemoryStore (List MessageRecord) :=
  appendAndFreezePendingMessageRecordsWithRun threadId newMessages deliveryMode boundary
    expectedMessageVersion expectedPendingIds run now generated

section Branches

variable {s threadId newMessages deliveryMode boundary expectedMessageVersion expectedPendingIds
  run now generated}

/-- Rejected before the append. -/
theorem appendAndFreeze_of_checkFreezeWithRun {e : StorageError}
    (hcheck : s.checkFreezeWithRun threadId expectedMessageVersion run = .error e) :
    appendAndFreeze threadId newMessages deliveryMode boundary expectedMessageVersion
      expectedPendingIds run now generated s = (Outcome.fail e, s) := by
  simp only [appendAndFreezePendingMessageRecordsWithRun, hcheck]

/-- Rejected by the append. -/
theorem appendAndFreeze_of_checkNewRecords {e : StorageError}
    (hcheck : s.checkFreezeWithRun threadId expectedMessageVersion run = .ok ())
    (hnew : checkNewRecords (s.committed threadId)
      ((s.pending threadId).map PendingMessageRecord.pendingId)
      (s.appendedRecords threadId newMessages deliveryMode now generated) = .error e) :
    appendAndFreeze threadId newMessages deliveryMode boundary expectedMessageVersion
      expectedPendingIds run now generated s = (Outcome.fail e, s.pendingEntry threadId) := by
  unfold appendedRecords at hnew
  simp only [appendAndFreezePendingMessageRecordsWithRun, hcheck, Method.bind,
    appendPendingMessageRecords, pending_pendingEntry, committed_pendingEntry, hnew]
  rfl

/-- Behind the append the call freezes from the queue with the new records. -/
theorem appendAndFreeze_of_appendPasses
    (hpasses : s.AppendPasses threadId newMessages deliveryMode expectedMessageVersion run now
      generated) :
    appendAndFreeze threadId newMessages deliveryMode boundary expectedMessageVersion
        expectedPendingIds run now generated s =
      freezeSelectionWithRun threadId boundary expectedPendingIds run now generated
        (s.appended threadId newMessages deliveryMode now generated) := by
  obtain ⟨hcheck, hnew⟩ := hpasses
  unfold appendedRecords at hnew
  simp only [appendAndFreezePendingMessageRecordsWithRun, hcheck, Method.bind,
    appendPendingMessageRecords, pending_pendingEntry, committed_pendingEntry, hnew]
  rfl

/-- Behind the append: another selection than the expected one. -/
theorem appended_freeze_of_conflict
    (hids : s.appendedSelectedIds threadId newMessages deliveryMode boundary run now generated ≠
      expectedPendingIds) :
    freezeSelectionWithRun threadId boundary expectedPendingIds run now generated
        (s.appended threadId newMessages deliveryMode now generated) =
      (Outcome.fail (.pendingSelectionConflict expectedPendingIds
          (s.appendedSelectedIds threadId newMessages deliveryMode boundary run now generated)),
        s.appended threadId newMessages deliveryMode now generated) := by
  have hpending : (s.appended threadId newMessages deliveryMode now generated).pending threadId =
      s.appendedQueue threadId newMessages deliveryMode now generated := by simp [appended]
  simp only [freezeSelectionWithRun, hpending]
  exact if_pos hids

/-- Behind the append: the expected selection is moved, or it is rejected. -/
theorem appended_freeze_of_expected
    (hids : s.appendedSelectedIds threadId newMessages deliveryMode boundary run now generated =
      expectedPendingIds) :
    freezeSelectionWithRun threadId boundary expectedPendingIds run now generated
        (s.appended threadId newMessages deliveryMode now generated) =
      Method.bind (moveSelected threadId
          (s.appendedSelection threadId newMessages deliveryMode boundary run now generated)
          generated)
        (fun records s => (.ok records, s.recordRun threadId run now))
        ((s.appended threadId newMessages deliveryMode now generated).messagesEntry threadId) := by
  have hpending : (s.appended threadId newMessages deliveryMode now generated).pending threadId =
      s.appendedQueue threadId newMessages deliveryMode now generated := by simp [appended]
  simp only [freezeSelectionWithRun, hpending]
  exact if_neg (not_not.mpr hids)

/-- What the moved selection leaves when it is rejected. -/
theorem appended_move_of_rejected {e : StorageError}
    (hdelta : s.validateAppendedSelection threadId newMessages deliveryMode boundary run now
      generated = .error e) :
    Method.bind (moveSelected threadId
        (s.appendedSelection threadId newMessages deliveryMode boundary run now generated)
        generated)
      (fun records s => (.ok records, s.recordRun threadId run now))
      ((s.appended threadId newMessages deliveryMode now generated).messagesEntry threadId) =
    (Outcome.fail e,
      (s.appended threadId newMessages deliveryMode now generated).messagesEntry threadId) := by
  have hpending : (s.appended threadId newMessages deliveryMode now generated).pending threadId =
      s.appendedQueue threadId newMessages deliveryMode now generated := by simp [appended]
  have hcommitted : (s.appended threadId newMessages deliveryMode now generated).committed
      threadId = s.committed threadId := by simp [appended]
  unfold validateAppendedSelection at hdelta
  simp only [Method.bind, moveSelected, pending_messagesEntry, committed_messagesEntry, hpending,
    hcommitted, hdelta]
  rfl

/-- A selection that is accepted is moved. -/
theorem appended_move_of_accepted
    (hdelta : s.validateAppendedSelection threadId newMessages deliveryMode boundary run now
      generated = .ok ()) :
    ∃ records, (Method.bind (moveSelected threadId
        (s.appendedSelection threadId newMessages deliveryMode boundary run now generated)
        generated)
      (fun records s => (.ok records, s.recordRun threadId run now))
      ((s.appended threadId newMessages deliveryMode now generated).messagesEntry threadId)).1 =
        .ok records := by
  have hpending : (s.appended threadId newMessages deliveryMode now generated).pending threadId =
      s.appendedQueue threadId newMessages deliveryMode now generated := by simp [appended]
  have hcommitted : (s.appended threadId newMessages deliveryMode now generated).committed
      threadId = s.committed threadId := by simp [appended]
  unfold validateAppendedSelection at hdelta
  simp only [Method.bind, moveSelected, pending_messagesEntry, committed_messagesEntry, hpending,
    hcommitted, hdelta]
  exact ⟨_, rfl⟩

end Branches

/-! ## What the reply depends on -/

/-- A move returns the same on stores with the same queue and the same log. -/
theorem moveSelected_fst_congr {s s' : InMemoryStore} {threadId : String}
    (hpending : s'.pending threadId = s.pending threadId)
    (hcommitted : s'.committed threadId = s.committed threadId) (selectedIndexes : List Nat)
    (generated : Nat → Uuid) :
    (moveSelected threadId selectedIndexes generated s').1 =
      (moveSelected threadId selectedIndexes generated s).1 := by
  simp only [moveSelected, hpending, hcommitted]
  split <;> rfl

/-- A freeze returns what its move returns. -/
theorem freezeSelectionWithRun_fst (s : InMemoryStore) :
    (freezeSelectionWithRun threadId boundary expectedPendingIds run now generated s).1 =
      let queue := s.pending threadId
      let selectedIndexes := selectPendingForFreezeForRun queue boundary (some run.runId)
      let selectedIds := selectedPendingIds queue selectedIndexes
      if selectedIds ≠ expectedPendingIds then
        Outcome.fail (.pendingSelectionConflict expectedPendingIds selectedIds)
      else (moveSelected threadId selectedIndexes generated (s.messagesEntry threadId)).1 := by
  unfold freezeSelectionWithRun
  dsimp only
  split
  · rfl
  · unfold Method.bind
    rcases moveSelected threadId _ generated (s.messagesEntry threadId) with ⟨_ | _, _⟩ <;> rfl

theorem freezeSelectionWithRun_fst_congr {s s' : InMemoryStore}
    (hpending : s'.pending threadId = s.pending threadId)
    (hcommitted : s'.committed threadId = s.committed threadId) :
    (freezeSelectionWithRun threadId boundary expectedPendingIds run now generated s').1 =
      (freezeSelectionWithRun threadId boundary expectedPendingIds run now generated s).1 := by
  have hmoved : ∀ selectedIndexes,
      (moveSelected threadId selectedIndexes generated (s'.messagesEntry threadId)).1 =
        (moveSelected threadId selectedIndexes generated (s.messagesEntry threadId)).1 := by
    intro selectedIndexes
    apply moveSelected_fst_congr
    · simpa using hpending
    · simpa using hcommitted
  rw [freezeSelectionWithRun_fst, freezeSelectionWithRun_fst, hpending]
  simp only [hmoved]

/-- The reply depends on what the store reads back only, so a failed call that left
    no trace fails in the same way again. -/
theorem appendAndFreezeWithRun_sameReads {s s' : InMemoryStore} (h : SameReads s s') :
    (appendAndFreeze threadId newMessages deliveryMode boundary expectedMessageVersion
        expectedPendingIds run now generated s').1 =
      (appendAndFreeze threadId newMessages deliveryMode boundary expectedMessageVersion
        expectedPendingIds run now generated s).1 := by
  have hrun : s'.checkFreezeWithRun threadId expectedMessageVersion run =
      s.checkFreezeWithRun threadId expectedMessageVersion run := by
    simp only [checkFreezeWithRun, h.threads, h.committed]
  have hrecords : s'.appendedRecords threadId newMessages deliveryMode now generated =
      s.appendedRecords threadId newMessages deliveryMode now generated := by
    rw [appendedRecords, appendedRecords, h.pending]
  have hchecked : checkNewRecords (s'.committed threadId)
        ((s'.pending threadId).map PendingMessageRecord.pendingId)
        (s'.appendedRecords threadId newMessages deliveryMode now generated) =
      checkNewRecords (s.committed threadId)
        ((s.pending threadId).map PendingMessageRecord.pendingId)
        (s.appendedRecords threadId newMessages deliveryMode now generated) := by
    rw [hrecords, h.pending, h.committed]
  cases hcheck : s.checkFreezeWithRun threadId expectedMessageVersion run with
  | error e =>
    rw [appendAndFreeze_of_checkFreezeWithRun hcheck,
      appendAndFreeze_of_checkFreezeWithRun (hrun.trans hcheck)]
  | ok u =>
    cases hnew : checkNewRecords (s.committed threadId)
        ((s.pending threadId).map PendingMessageRecord.pendingId)
        (s.appendedRecords threadId newMessages deliveryMode now generated) with
    | error e =>
      rw [appendAndFreeze_of_checkNewRecords hcheck hnew,
        appendAndFreeze_of_checkNewRecords (hrun.trans hcheck) (hchecked.trans hnew)]
    | ok v =>
      rw [appendAndFreeze_of_appendPasses ⟨hcheck, hnew⟩,
        appendAndFreeze_of_appendPasses ⟨hrun.trans hcheck, hchecked.trans hnew⟩]
      apply freezeSelectionWithRun_fst_congr
      · simp [appended, appendedQueue, hrecords, h.pending]
      · simp [appended, h.committed]

/-! ## All or nothing -/

theorem length_appendedQueue :
    (s.appendedQueue threadId newMessages deliveryMode now generated).length =
      (s.pending threadId).length + newMessages.length := by
  rw [appendedQueue, List.length_append, appendedRecords, length_newRecords]

/-- Without new messages the append leaves no trace. -/
theorem sameReads_appended_nil :
    SameReads s (s.appended threadId [] deliveryMode now generated) := by
  have hqueue : s.appendedQueue threadId [] deliveryMode now generated = s.pending threadId := by
    rw [appendedQueue, appendedRecords, newRecords, List.mapIdx_nil, List.append_nil]
  rw [appended, hqueue]
  have hwrite := sameReads_setPending_self (s.pendingEntry threadId) threadId
  rw [pending_pendingEntry] at hwrite
  exact (sameReads_pendingEntry s threadId).trans hwrite

/-- With new messages the append shows in the queue. -/
theorem not_sameReads_of_pending {s' : InMemoryStore} (hne : newMessages ≠ [])
    (hqueue : s'.pending threadId =
      s.appendedQueue threadId newMessages deliveryMode now generated) : ¬SameReads s s' := by
  intro h
  have hlength := congrArg List.length ((h.pending threadId).symm.trans hqueue)
  rw [length_appendedQueue] at hlength
  have hpos : 0 < newMessages.length := List.length_pos_iff.mpr hne
  omega

/-- A call that fails leaves everything as it was, and fails in the same way when it
    is made again, exactly when it does not fail behind its own append. -/
theorem appendAndFreezeWithRun_allOrNothing_iff :
    AllOrNothing (appendAndFreezePendingMessageRecordsWithRun threadId newMessages deliveryMode
        boundary expectedMessageVersion expectedPendingIds run now generated) s ↔
      ¬s.FailsBehindAppend threadId newMessages deliveryMode boundary expectedMessageVersion
        expectedPendingIds run now generated := by
  show AllOrNothing (appendAndFreeze threadId newMessages deliveryMode boundary
    expectedMessageVersion expectedPendingIds run now generated) s ↔ _
  constructor
  · rintro hall ⟨hpasses, ⟨hne, hids⟩ | ⟨hshows, hids, e, hdelta⟩⟩
    · have hcall := (appendAndFreeze_of_appendPasses hpasses).trans (appended_freeze_of_conflict hids)
      obtain ⟨hreads, -⟩ := hall _ (congrArg Prod.fst hcall)
      refine not_sameReads_of_pending s threadId newMessages deliveryMode now generated hne ?_ hreads
      rw [hcall]
      simp [appended]
    · have hcall := ((appendAndFreeze_of_appendPasses hpasses).trans
        (appended_freeze_of_expected hids)).trans (appended_move_of_rejected hdelta)
      obtain ⟨hreads, -⟩ := hall _ (congrArg Prod.fst hcall)
      rcases hshows with hne | hnone
      · refine not_sameReads_of_pending s threadId newMessages deliveryMode now generated hne ?_
          hreads
        rw [hcall]
        simp [appended]
      · have hmessages := hreads.messages threadId
        rw [hcall, hnone] at hmessages
        simp [messagesEntry, AssocMap.get?_orInsert] at hmessages
  · intro hnot f hf
    suffices hreads : SameReads s (appendAndFreeze threadId newMessages deliveryMode boundary
        expectedMessageVersion expectedPendingIds run now generated s).2 by
      exact ⟨hreads, (appendAndFreezeWithRun_sameReads _ _ _ _ _ _ _ _ _ hreads).trans hf⟩
    cases hcheck : s.checkFreezeWithRun threadId expectedMessageVersion run with
    | error e =>
      rw [appendAndFreeze_of_checkFreezeWithRun hcheck]
      exact SameReads.refl s
    | ok u =>
      cases hnew : checkNewRecords (s.committed threadId)
          ((s.pending threadId).map PendingMessageRecord.pendingId)
          (s.appendedRecords threadId newMessages deliveryMode now generated) with
      | error e =>
        rw [appendAndFreeze_of_checkNewRecords hcheck hnew]
        exact sameReads_pendingEntry s threadId
      | ok v =>
        have hpasses : s.AppendPasses threadId newMessages deliveryMode expectedMessageVersion run
          now generated := ⟨hcheck, hnew⟩
        have hcall : appendAndFreeze threadId newMessages deliveryMode boundary
            expectedMessageVersion expectedPendingIds run now generated s = _ :=
          appendAndFreeze_of_appendPasses hpasses
        by_cases hids : s.appendedSelectedIds threadId newMessages deliveryMode boundary run now
            generated = expectedPendingIds
        · rw [appended_freeze_of_expected hids] at hcall
          cases hdelta : s.validateAppendedSelection threadId newMessages deliveryMode boundary run
              now generated with
          | ok w =>
            -- the call succeeded
            obtain ⟨records, hok⟩ := appended_move_of_accepted hdelta
            rw [← hcall, hf] at hok
            cases hok
          | error e =>
            rw [appended_move_of_rejected hdelta] at hcall
            have hshows : ¬(newMessages ≠ [] ∨ s.messages.get? threadId = none) :=
              fun hshows => hnot ⟨hpasses, .inr ⟨hshows, hids, e, hdelta⟩⟩
            obtain ⟨hnil, hentry⟩ := not_or.mp hshows
            rw [not_not] at hnil
            subst hnil
            rw [hcall]
            exact (sameReads_appended_nil s threadId deliveryMode now generated).trans
              (sameReads_messagesEntry hentry)
        · rw [appended_freeze_of_conflict hids] at hcall
          have hnil : newMessages = [] :=
            not_not.mp fun hne => hnot ⟨hpasses, .inl ⟨hne, hids⟩⟩
          subst hnil
          rw [hcall]
          exact sameReads_appended_nil s threadId deliveryMode now generated

end AppendAndFreeze

/-- A caller that has not seen the message already queued expects too short a
    selection. Its new message stays in the queue, and the corrected request, which
    would have succeeded, is rejected as a duplicate. -/
theorem appendAndFreezeWithRun_leaves_appended :
    let generated : Nat → Uuid := fun _ => .generated
    let s := pendingMachine.run .new
      [.append "t" [.user "first" "m-1"] (.newRun .batch) 0 generated]
    let request := fun expectedPendingIds =>
      appendAndFreezePendingMessageRecordsWithRun "t" [.user "second" "m-2"] (.newRun .batch)
        .newRun (some 0) expectedPendingIds (.new "r-1" "t" "agent") 0 generated
    ¬AllOrNothing (request ["m-2"]) s ∧ (request ["m-1", "m-2"] s).1.isOk = true ∧
      (request ["m-1", "m-2"] (request ["m-2"] s).2).1 =
        Outcome.fail (duplicatePendingId "m-2") := by
  intro generated s request
  refine ⟨fun hall => ?_, by decide, by decide⟩
  have hfails : (request ["m-2"] s).1 =
      Outcome.fail (.pendingSelectionConflict ["m-2"] ["m-1", "m-2"]) := by decide
  obtain ⟨hreads, -⟩ := hall _ hfails
  have hqueue := congrArg List.length (hreads.pending "t")
  exact absurd hqueue (by decide)

end Remo.InMemoryStore
