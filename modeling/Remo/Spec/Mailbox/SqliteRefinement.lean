import Remo.Spec.Mailbox.SqliteReadable

/-!
# The SQLite store against the in-memory store

Both stores implement one contract. `Mirrors` relates their states: the tables
hold the dispatches and the epochs of the in-memory maps, and all times fit the
signed columns. A call on which the two implementations do the same keeps the
relation and ends alike; `Agrees` says on which calls they do.
-/

namespace Remo

/-- The id of the dispatch a call enqueues. -/
def MailboxOp.enqueuedId : MailboxOp → Option String
  | .enqueue dispatch => some dispatch.dispatchId
  | _ => none

/-- The time a call is made at. -/
def MailboxOp.now : MailboxOp → Option UInt64
  | .claim _ _ _ now _ _ | .claimDispatch _ _ _ now _ | .ack _ _ now
  | .recordDispatchStart _ _ _ now | .recordRunResult _ _ _ now | .nack _ _ _ _ now
  | .deadLetter _ _ _ now | .cancel _ now | .extendLease _ _ _ now | .interrupt _ now
  | .interruptDetailed _ now | .supersedeClaimed _ _ now _ | .reclaimExpiredLeases now _ => some now
  | _ => none

namespace RunDispatch

/-- The times of the dispatch fit a signed column. -/
structure Bounded (d : RunDispatch) : Prop where
  availableAt : d.availableAt.toNat < 0x8000000000000000
  createdAt : d.createdAt.toNat < 0x8000000000000000
  updatedAt : d.updatedAt.toNat < 0x8000000000000000
  leaseUntil : ∀ t, d.leaseUntil = some t → t.toNat < 0x8000000000000000

/-- Without a runtime projection the statement supersedes as the transition does. -/
theorem sqlSuperseded_eq {d : RunDispatch} (h : d.NoProjection) (epoch : UInt64) (reason : String)
    (now : UInt64) :
    d.sqlSuperseded epoch reason now = d.writeSupersededAtEpoch now epoch (some reason) := by
  obtain ⟨hinstance, hstatus, htermination, hresponse, herror⟩ := h
  simp only [sqlSuperseded, writeSupersededAtEpoch, writeSuperseded, clearClaimFields,
    clearRuntimeProjection, hinstance, hstatus, htermination, hresponse, herror]
  rfl

/-- Below the limit the counter does not saturate. -/
theorem saturatingSucc_of_lt {d : RunDispatch} (h : d.attemptCount < d.maxAttempts) :
    saturatingSucc d.attemptCount = d.attemptCount + 1 ∧ d.attemptCount ≠ 0xFFFFFFFF := by
  have hne : d.attemptCount ≠ 0xFFFFFFFF := by
    intro heq
    rw [heq] at h
    grind
  exact ⟨if_neg hne, hne⟩

end RunDispatch

namespace SqliteMailboxStore

open DispatchRow

/-- The calls end alike: both return, both fail, or both panic. -/
def SameOutcome {α β : Type} : Outcome α → Outcome β → Prop
  | .ok _, .ok _ => True
  | .error (.storage _), .error (.storage _) => True
  | .error (.panic _), .error (.panic _) => True
  | _, _ => False

theorem sameOutcome_ok {α β : Type} (a : α) (b : β) :
    SameOutcome (.ok a : Outcome α) (.ok b : Outcome β) := trivial

theorem sameOutcome_error {α β : Type} (f : Fault) :
    SameOutcome (.error f : Outcome α) (.error f : Outcome β) := by
  cases f <;> trivial

theorem SameOutcome.map {α β α' β' : Type} {x : Outcome α} {y : Outcome β} (h : SameOutcome x y)
    (f : α → α') (g : β → β') : SameOutcome (x.map f) (y.map g) := by
  rcases x with (_ | _) | _ <;> rcases y with (_ | _) | _ <;> trivial

/-- The tables of the SQLite store show what the in-memory store holds. -/
structure Mirrors (driver : SqliteDriver) (s : InMemoryMailboxStore) (q : SqliteMailboxStore) :
    Prop where
  holds : q.Holds driver s.dispatches s.currentEpoch
  coherent : s.Coherent
  bounded : ∀ k d, s.dispatches.get? k = some d → d.Bounded
  epochs : ∀ t, (s.currentEpoch t).toNat < 0x8000000000000000

/-- A call of the SQLite store ends like a call of the in-memory store, in tables
    that show its result. -/
structure Follows {α β : Type} (driver : SqliteDriver) (x : Outcome α × InMemoryMailboxStore)
    (y : Outcome β × SqliteMailboxStore) : Prop where
  outcome : SameOutcome x.1 y.1
  holds : y.2.Holds driver x.2.dispatches x.2.currentEpoch
  bounded : ∀ k d, x.2.dispatches.get? k = some d → d.Bounded

variable {driver : SqliteDriver} {s : InMemoryMailboxStore} {q : SqliteMailboxStore}

theorem Follows.map {α β α' β' : Type} {x : Method Fault InMemoryMailboxStore α}
    {y : Method Fault SqliteMailboxStore β} (h : Follows driver (x s) (y q)) (f : α → α')
    (g : β → β') : Follows driver (Method.map f x s) (Method.map g y q) :=
  ⟨h.outcome.map f g, h.holds, h.bounded⟩

/-- Calls that change nothing keep the relation. -/
theorem Mirrors.unchanged (h : Mirrors driver s q) {α β : Type} {x : Outcome α} {y : Outcome β}
    (hxy : SameOutcome x y) : Follows driver (x, s) (y, q) :=
  ⟨hxy, h.holds, h.bounded⟩

/-- Calls that put the same record in the place of another one keep the relation. -/
theorem Mirrors.replaced (h : Mirrors driver s q) {α β : Type} {x : Outcome α} {y : Outcome β}
    (hxy : SameOutcome x y) {k : String} {d' : RunDispatch} {q' : SqliteMailboxStore}
    (hholds : q'.Holds driver (s.dispatches.modify k fun _ => d') s.currentEpoch)
    (hbounded : d'.Bounded) :
    Follows driver (x, { s with dispatches := s.dispatches.modify k fun _ => d' }) (y, q') := by
  refine ⟨hxy, hholds, fun k' e he => ?_⟩
  dsimp only at he
  rw [AssocMap.get?_modify] at he
  split at he
  · rw [Option.map_eq_some_iff] at he
    obtain ⟨_, _, rfl⟩ := he
    exact hbounded
  · exact h.bounded k' e he

/-- Calls that change several records alike keep the relation. -/
theorem follows_rewritten {α β : Type} {x : Outcome α} {y : Outcome β}
    (hxy : SameOutcome x y) {g : String → RunDispatch → RunDispatch} {q' : SqliteMailboxStore}
    (hholds : q'.Holds driver (s.dispatches.mapValues g) s.currentEpoch)
    (hbounded : ∀ k d, s.dispatches.get? k = some d → (g k d).Bounded) :
    Follows driver (x, { s with dispatches := s.dispatches.mapValues g }) (y, q') := by
  refine ⟨hxy, hholds, fun k e he => ?_⟩
  dsimp only at he
  rw [AssocMap.get?_mapValues, Option.map_eq_some_iff] at he
  obtain ⟨d, hd, rfl⟩ := he
  exact hbounded k d hd

theorem Mirrors.dispatchEpoch (h : Mirrors driver s q) {k : String} {d : RunDispatch}
    (hd : s.dispatches.get? k = some d) : d.dispatchEpoch.toNat < 0x8000000000000000 := by
  have hle := UInt64.le_iff_toNat_le.mp (h.coherent.epoch k d hd)
  have hbound := h.epochs d.threadId
  omega

theorem Mirrors.valid (h : Mirrors driver s q) {k : String} {d : RunDispatch}
    (hd : s.dispatches.get? k = some d) : d.Valid := h.holds.valid k d hd

/-! ## Calls of a claim holder -/

section WithClaim

variable {α β : Type} {context dispatchId claimToken : String} {missing rejected : Outcome α}
  {missing' rejected' : Outcome β} {stale : UInt64 → UInt64 → Outcome α}
  {stale' : RunDispatch → SqliteMailboxStore → Outcome β} {owns : RunDispatch → Bool}
  {now : UInt64} {reason reason' : String} {transition : Method Fault RunDispatch α}
  {update : RunDispatch → Method Fault SqliteMailboxStore β}

/-- A call of a claim holder follows its sibling when stale dispatches carry no
    projection and the transition follows on the dispatches at their epoch. -/
theorem Mirrors.withClaim (h : Mirrors driver s q) (hnow : now.toNat < 0x8000000000000000)
    (howns : ∀ d, owns d = true → d.claimToken = some claimToken)
    (hmissing : SameOutcome missing missing') (hrejected : SameOutcome rejected rejected')
    (hstaleOutcome : ∀ a b d q', Holds driver q' (s.dispatches.modify dispatchId fun _ =>
      d.sqlSuperseded (s.currentEpoch d.threadId) reason' now) s.currentEpoch →
      SameOutcome (stale a b) (stale' d q'))
    (hstale : ∀ d, s.dispatches.get? dispatchId = some d → owns d = true →
      d.dispatchEpoch < s.currentEpoch d.threadId → reason = reason' ∧ d.NoProjection)
    (hfresh : ∀ d, s.dispatches.get? dispatchId = some d → owns d = true → d.status = .claimed →
      s.currentEpoch d.threadId ≤ d.dispatchEpoch →
      Follows driver ((transition d).1,
        { s with dispatches := s.dispatches.modify dispatchId fun _ => (transition d).2 })
        (update d q)) :
    Follows driver
      (InMemoryMailboxStore.withClaim dispatchId missing rejected stale owns now reason transition
        s)
      (withClaim driver context dispatchId claimToken missing' rejected' stale' owns now reason'
        update q) := by
  unfold InMemoryMailboxStore.withClaim InMemoryMailboxStore.withDispatch
  rcases h.holds.withClaim_cases context missing' rejected' stale' now reason' update howns with
    ⟨hd, hcall⟩ | ⟨d, hd, ⟨ho, hcall⟩ | ⟨ho, hs, hlt, q', hcall, hholds⟩ | ⟨ho, hs, hge, hcall⟩⟩
  all_goals rw [hcall, hd]
  · exact h.unchanged hmissing
  · simp only [ho, Bool.not_false, if_true]
    rw [AssocMap.modify_get? hd]
    exact h.unchanged hrejected
  · obtain ⟨hreason, hprojection⟩ := hstale d hd ho hlt
    have hmark := InMemoryMailboxStore.markSupersededAtEpoch_ok (h.valid hd).identified
      (by rw [hs]; rfl) now (s.currentEpoch d.threadId) (some reason)
    simp only [ho, Bool.not_true, Bool.false_eq_true, if_false, hlt, if_true, Method.bind, hmark]
    have hsame := hstaleOutcome d.dispatchEpoch (s.currentEpoch d.threadId) d q' hholds
    rw [RunDispatch.sqlSuperseded_eq hprojection, ← hreason] at hholds
    have hbound := h.bounded _ _ hd
    exact h.replaced hsame hholds ⟨hbound.availableAt, hbound.createdAt, hnow, by rintro _ ⟨⟩⟩
  · have hnot : ¬d.dispatchEpoch < s.currentEpoch d.threadId := UInt64.not_lt.mpr hge
    simp only [ho, Bool.not_true, Bool.false_eq_true, if_false, hnot]
    exact hfresh d hd ho hs hge

end WithClaim

/-- A conflict on a stale epoch is reported by both. -/
theorem epochConflict_same {α β : Type} {m : AssocMap String RunDispatch}
    {epoch : String → UInt64} (a b : UInt64) (d : RunDispatch) (h : Holds driver q m epoch) :
    SameOutcome (InMemoryMailboxStore.epochConflict a b : Outcome α)
      (epochConflict driver d q : Outcome β) := by
  unfold epochConflict
  rw [h.epochs]
  trivial

/-! ## When the two stores do the same -/

/-- The dispatch is behind its thread's epoch. -/
def Behind (s : InMemoryMailboxStore) (d : RunDispatch) : Prop :=
  d.dispatchEpoch < s.currentEpoch d.threadId

instance (s : InMemoryMailboxStore) (d : RunDispatch) : Decidable (Behind s d) :=
  inferInstanceAs (Decidable (_ < _))

/-- A lease end that fits a signed column, or overflows in both stores. -/
def LeaseFits (now ms : UInt64) : Prop :=
  now.toNat + ms.toNat < 0x8000000000000000 ∨ 0x10000000000000000 ≤ now.toNat + ms.toNat

instance (now ms : UInt64) : Decidable (LeaseFits now ms) :=
  inferInstanceAs (Decidable (_ ∨ _))

/-- A limit that fits a signed column, or exceeds the number of dispatches. -/
def LimitFits (s : InMemoryMailboxStore) (limit : UInt64) : Prop :=
  limit.toNat < 0x8000000000000000 ∨ s.dispatches.values.length ≤ limit.toNat

instance (s : InMemoryMailboxStore) (limit : UInt64) : Decidable (LimitFits s limit) :=
  inferInstanceAs (Decidable (_ ∨ _))

/-- What the caller holds is superseded alike: if it is behind its thread, it
    carries no runtime projection. -/
def SupersedesAlike (s : InMemoryMailboxStore) (dispatchId : String) (owns : RunDispatch → Bool) :
    Prop :=
  ∀ d ∈ s.dispatches.get? dispatchId, owns d = true → Behind s d → d.NoProjection

instance (d : RunDispatch) : Decidable d.NoProjection :=
  decidable_of_iff (d.dispatchInstanceId = none ∧ d.runStatus = none ∧ d.termination = none ∧
      d.runResponse = none ∧ d.runError = none)
    ⟨fun ⟨h₁, h₂, h₃, h₄, h₅⟩ => ⟨h₁, h₂, h₃, h₄, h₅⟩, fun ⟨h₁, h₂, h₃, h₄, h₅⟩ => ⟨h₁, h₂, h₃, h₄, h₅⟩⟩

instance (s : InMemoryMailboxStore) (dispatchId : String) (owns : RunDispatch → Bool) :
    Decidable (SupersedesAlike s dispatchId owns) :=
  Option.decidableForallMem (s.dispatches.get? dispatchId)

/-- A nack at `retryAt` puts the same record in the place of the dispatch. -/
def NacksAlike (retryAt : UInt64) (d : RunDispatch) : Prop :=
  d.attemptCount < d.maxAttempts ∧ (d.attemptCount.toNat + 1 < d.maxAttempts.toNat →
    d.completedAt = none ∧ retryAt.toNat < 0x8000000000000000)

instance (retryAt : UInt64) (d : RunDispatch) : Decidable (NacksAlike retryAt d) :=
  inferInstanceAs (Decidable (_ ∧ _))

/-- A sweep at `now` puts the same record in the place of the dispatch. -/
def ReclaimsAlike (s : InMemoryMailboxStore) (now : UInt64) (d : RunDispatch) : Prop :=
  if Behind s d then d.NoProjection
  else d.attemptCount < d.maxAttempts ∧ d.availableAt = now ∧
    if d.attemptCount.toNat + 1 < d.maxAttempts.toNat then d.completedAt = none
    else d.lastError = some MailboxState.reasonLeaseExpiredMaxAttempts

instance (s : InMemoryMailboxStore) (now : UInt64) (d : RunDispatch) :
    Decidable (ReclaimsAlike s now d) := by
  unfold ReclaimsAlike
  infer_instance

/-- The epoch of every thread that a purge leaves without dispatch is 0. -/
def PurgesAlike (s : InMemoryMailboxStore) (olderThan : UInt64) : Prop :=
  ∀ e ∈ s.state.entries, e.2.currentDispatchEpoch = 0 ∨
    ((InMemoryMailboxStore.purgeTerminal olderThan s).2.dispatches.values.map
      RunDispatch.threadId).contains e.1 = true

instance (s : InMemoryMailboxStore) (olderThan : UInt64) : Decidable (PurgesAlike s olderThan) :=
  inferInstanceAs (Decidable (∀ e ∈ s.state.entries, _))

/-- The call does the same on both stores. Times and limits fit signed columns, a
    dispatch id is not enqueued while it is stored, consumers are named, and the
    call meets none of the records that the two stores write differently. -/
def AgreesOn (s : InMemoryMailboxStore) : MailboxOp → Prop
  | .enqueue d => d.validateForEnqueue = .ok () → s.dispatches.get? d.dispatchId = none ∧
      d.availableAt.toNat < 0x8000000000000000 ∧ d.createdAt.toNat < 0x8000000000000000 ∧ d.updatedAt.toNat < 0x8000000000000000
  | .claim _ consumerId leaseMs now limit _ => now.toNat < 0x8000000000000000 ∧
      Str.isBlank consumerId = false ∧ LeaseFits now leaseMs ∧ LimitFits s limit
  | .claimDispatch _ consumerId leaseMs now _ => now.toNat < 0x8000000000000000 ∧
      Str.isBlank consumerId = false ∧ LeaseFits now leaseMs
  | .ack dispatchId claimToken now => now.toNat < 0x8000000000000000 ∧
      ∀ d ∈ s.dispatches.get? dispatchId, holdsToken claimToken d = true → ¬Behind s d
  | .recordDispatchStart dispatchId claimToken _ now => now.toNat < 0x8000000000000000 ∧
      SupersedesAlike s dispatchId (holdsClaim claimToken)
  | .recordRunResult dispatchId claimToken result now => now.toNat < 0x8000000000000000 ∧
      SupersedesAlike s dispatchId (holdsClaim claimToken) ∧
      ∀ d ∈ s.dispatches.get? dispatchId, holdsClaim claimToken d = true → ¬Behind s d →
        result.runId = d.runId
  | .nack dispatchId claimToken retryAt _ now => now.toNat < 0x8000000000000000 ∧
      SupersedesAlike s dispatchId (holdsToken claimToken) ∧
      ∀ d ∈ s.dispatches.get? dispatchId, holdsToken claimToken d = true → ¬Behind s d →
        NacksAlike retryAt d
  | .deadLetter dispatchId claimToken _ now => now.toNat < 0x8000000000000000 ∧
      SupersedesAlike s dispatchId (holdsToken claimToken)
  | .cancel _ now => now.toNat < 0x8000000000000000
  | .extendLease dispatchId claimToken extensionMs now => now.toNat < 0x8000000000000000 ∧
      SupersedesAlike s dispatchId (holdsClaim claimToken) ∧
      ∀ d ∈ s.dispatches.get? dispatchId, holdsClaim claimToken d = true → ¬Behind s d →
        LeaseFits now extensionMs
  | .interrupt threadId now | .interruptDetailed threadId now => now.toNat < 0x8000000000000000 ∧
      (s.currentEpoch threadId).toNat + 1 < 0x8000000000000000
  | .supersedeClaimed dispatchId claimToken now _ => now.toNat < 0x8000000000000000 ∧
      ∀ d ∈ s.dispatches.get? dispatchId, holdsClaim claimToken d = true → d.NoProjection
  | .listDispatches _ _ limit offset => limit.toNat < 0x8000000000000000 ∧ offset.toNat < 0x8000000000000000
  | .reclaimExpiredLeases now limit => now.toNat < 0x8000000000000000 ∧ LimitFits s limit ∧
      ∀ d ∈ (s.expired now).take limit.toNat, ReclaimsAlike s now d
  | .purgeTerminal olderThan => olderThan.toNat < 0x8000000000000000 ∧ PurgesAlike s olderThan
  | .currentDispatchEpoch _ | .loadDispatch _ | .countDispatchesByStatus _
  | .listTerminalDispatches _ _ | .queuedThreadIds => True

instance (s : InMemoryMailboxStore) : ∀ op, Decidable (AgreesOn s op)
  | .enqueue d => inferInstanceAs (Decidable (d.validateForEnqueue = .ok () → _))
  | .claim _ _ _ _ _ _ | .claimDispatch _ _ _ _ _ | .recordDispatchStart _ _ _ _
  | .deadLetter _ _ _ _ | .interrupt _ _ | .interruptDetailed _ _ | .listDispatches _ _ _ _
  | .reclaimExpiredLeases _ _ | .purgeTerminal _ => inferInstanceAs (Decidable (_ ∧ _))
  | .ack dispatchId _ _ | .supersedeClaimed dispatchId _ _ _ =>
    have := fun P [DecidablePred P] => Option.decidableForallMem (p := P)
      (s.dispatches.get? dispatchId)
    inferInstanceAs (Decidable (_ ∧ _))
  | .recordRunResult dispatchId _ _ _ | .nack dispatchId _ _ _ _ | .extendLease dispatchId _ _ _ =>
    inferInstanceAs (Decidable (_ ∧ _ ∧ ∀ d ∈ s.dispatches.get? dispatchId, _))
  | .cancel _ now => inferInstanceAs (Decidable (now.toNat < _))
  | .currentDispatchEpoch _ | .loadDispatch _ | .countDispatchesByStatus _
  | .listTerminalDispatches _ _ | .queuedThreadIds => .isTrue trivial

/-! ## Calls on one dispatch -/

/-- What holds of every sum that fits a signed column. -/
theorem LeaseFits.bound {now ms leaseUntil : UInt64} (h : LeaseFits now ms)
    (hadd : Outcome.addU64 now ms = .ok leaseUntil) : leaseUntil.toNat < 0x8000000000000000 := by
  have hsum := Outcome.addU64_eq_ok hadd
  unfold Outcome.addU64 at hadd
  split at hadd
  · rename_i hlt
    rw [hsum, UInt64.toNat_add, Nat.mod_eq_of_lt hlt]
    rcases h with hfits | hover
    · exact hfits
    · omega
  · cases hadd

theorem Mirrors.ack (h : Mirrors driver s q) {dispatchId claimToken : String} {now : UInt64}
    (hok : AgreesOn s (.ack dispatchId claimToken now)) :
    Follows driver (InMemoryMailboxStore.ack dispatchId claimToken now s)
      (ack driver dispatchId claimToken now q) := by
  obtain ⟨hnow, hbehind⟩ := hok
  refine h.withClaim hnow (fun _ => claimToken_of_holdsToken) trivial trivial
    (fun a b d q' hq' => epochConflict_same a b d hq')
    (fun d hd ho hlt => absurd hlt (hbehind d hd ho)) fun d hd _ hs _ => ?_
  have hvalid := RunDispatch.writeAcked_valid (h.valid hd).identified now
  have hmark : MailboxState.markAcked now d = (.ok (), d.writeAcked now) :=
    InMemoryMailboxStore.expecting_transition_ok _ _ hs hvalid
  have hbound := h.bounded _ _ hd
  rw [hmark]
  exact h.replaced (sameOutcome_ok _ _) (h.holds.updateById hd _ _ (setAcked_ofDispatch d now) rfl hvalid)
    ⟨hbound.availableAt, hbound.createdAt, hnow, by rintro _ ⟨⟩⟩

theorem Mirrors.recordDispatchStart (h : Mirrors driver s q)
    {dispatchId claimToken dispatchInstanceId : String} {now : UInt64}
    (hok : AgreesOn s (.recordDispatchStart dispatchId claimToken dispatchInstanceId now)) :
    Follows driver
      (InMemoryMailboxStore.recordDispatchStart dispatchId claimToken dispatchInstanceId now s)
      (recordDispatchStart driver dispatchId claimToken dispatchInstanceId now q) := by
  obtain ⟨hnow, halike⟩ := hok
  refine h.withClaim hnow (fun _ => claimToken_of_holdsClaim) trivial trivial
    (fun a b d q' hq' => epochConflict_same a b d hq')
    (fun d hd ho hlt => ⟨rfl, halike d hd ho hlt⟩) fun d hd _ hs _ => ?_
  have hvalid := RunDispatch.writeDispatchStart_valid (h.valid hd) hs dispatchInstanceId now
  have hmark : d.recordDispatchStart dispatchInstanceId now =
      (.ok (), d.writeDispatchStart dispatchInstanceId now) :=
    RunDispatch.transition_ok _ _ hs hvalid
  have hbound := h.bounded _ _ hd
  rw [hmark]
  exact h.replaced (sameOutcome_ok _ _)
    (h.holds.updateById hd _ _ (setDispatchStart_ofDispatch d dispatchInstanceId now) rfl hvalid)
    ⟨hbound.availableAt, hbound.createdAt, hnow, hbound.leaseUntil⟩

theorem Mirrors.recordRunResult (h : Mirrors driver s q) {dispatchId claimToken : String}
    {result : RunDispatchResult} {now : UInt64}
    (hok : AgreesOn s (.recordRunResult dispatchId claimToken result now)) :
    Follows driver (InMemoryMailboxStore.recordRunResult dispatchId claimToken result now s)
      (recordRunResult driver dispatchId claimToken result now q) := by
  obtain ⟨hnow, halike, hrun⟩ := hok
  refine h.withClaim hnow (fun _ => claimToken_of_holdsClaim) trivial trivial
    (fun a b d q' hq' => epochConflict_same a b d hq')
    (fun d hd ho hlt => ⟨rfl, halike d hd ho hlt⟩) fun d hd ho hs hge => ?_
  have hvalid := RunDispatch.writeRunResult_valid (h.valid hd) hs result now
  have hmark : d.recordRunResult result now = (.ok (), d.writeRunResult result now) := by
    rcases RunDispatch.recordRunResult_of_status hs result now with ⟨-, hwrite⟩ | ⟨hne, -⟩
    · rw [hwrite, RunDispatch.validateForPersist_ok.mpr hvalid]
    · exact absurd (hrun d hd ho (UInt64.not_lt.mpr hge)) hne
  have hbound := h.bounded _ _ hd
  rw [hmark]
  exact h.replaced (sameOutcome_ok _ _)
    (h.holds.updateById hd _ _ (setRunResult_ofDispatch d result now) rfl hvalid)
    ⟨hbound.availableAt, hbound.createdAt, hnow, hbound.leaseUntil⟩

theorem Mirrors.deadLetter (h : Mirrors driver s q) {dispatchId claimToken error : String}
    {now : UInt64} (hok : AgreesOn s (.deadLetter dispatchId claimToken error now)) :
    Follows driver (InMemoryMailboxStore.deadLetter dispatchId claimToken error now s)
      (deadLetter driver dispatchId claimToken error now q) := by
  obtain ⟨hnow, halike⟩ := hok
  refine h.withClaim hnow (fun _ => claimToken_of_holdsToken) trivial trivial
    (fun a b d q' hq' => epochConflict_same a b d hq')
    (fun d hd ho hlt => ⟨rfl, halike d hd ho hlt⟩) fun d hd _ hs _ => ?_
  have hvalid := RunDispatch.writeDeadLetter_valid (h.valid hd).identified now error
  have hmark : MailboxState.markDeadLetter now error d = (.ok (), d.writeDeadLetter now error) :=
    InMemoryMailboxStore.expecting_transition_ok _ _ hs hvalid
  have hbound := h.bounded _ _ hd
  rw [hmark]
  exact h.replaced (sameOutcome_ok _ _) (h.holds.updateById hd _ _ (setDeadLetter_ofDispatch d error now) rfl hvalid)
    ⟨hbound.availableAt, hbound.createdAt, hnow, by rintro _ ⟨⟩⟩

theorem Mirrors.extendLease (h : Mirrors driver s q) {dispatchId claimToken : String}
    {extensionMs now : UInt64}
    (hok : AgreesOn s (.extendLease dispatchId claimToken extensionMs now)) :
    Follows driver (InMemoryMailboxStore.extendLease dispatchId claimToken extensionMs now s)
      (extendLease driver dispatchId claimToken extensionMs now q) := by
  obtain ⟨hnow, halike, hfits⟩ := hok
  refine h.withClaim hnow (fun _ => claimToken_of_holdsClaim) trivial trivial
    (fun _ _ _ _ _ => trivial)
    (fun d hd ho hlt => ⟨rfl, halike d hd ho hlt⟩) fun d hd ho hs hge => ?_
  have hbound := h.bounded _ _ hd
  cases hadd : Outcome.addU64 now extensionMs with
  | error f =>
    dsimp only
    rw [AssocMap.modify_get? hd]
    exact h.unchanged (sameOutcome_error f)
  | ok leaseUntil =>
    have hvalid := RunDispatch.writeLeaseExtension_valid (h.valid hd) hs leaseUntil now
    have hmark : d.extendLease leaseUntil now = (.ok (), d.writeLeaseExtension leaseUntil now) :=
      RunDispatch.transition_ok _ _ hs hvalid
    have hcond : ((ofDispatch driver d).status == "Claimed"
        && (ofDispatch driver d).claimToken == some claimToken) = true := by
      simp [ofDispatch, hs, claimToken_of_holdsClaim ho, statusToStr]
    have hlease := (hfits d hd ho (UInt64.not_lt.mpr hge)).bound hadd
    dsimp only
    rw [hmark]
    refine h.replaced (sameOutcome_ok _ _) (h.holds.updateById hd _ _ ?_ rfl hvalid)
      ⟨hbound.availableAt, hbound.createdAt, hnow, fun t ht => by cases ht; exact hlease⟩
    rw [if_pos hcond, setLease_ofDispatch]

/-- Where nacks agree the statement writes what the transition writes. -/
theorem NacksAlike.writeNack {retryAt : UInt64} {d : RunDispatch} (h : NacksAlike retryAt d)
    (now : UInt64) (error : String) :
    d.writeNack now retryAt error =
      if d.maxAttempts ≤ d.attemptCount + 1 then d.sqlNackDeadLetter (d.attemptCount + 1) error now
      else d.sqlNackRequeue (d.attemptCount + 1) error retryAt now := by
  obtain ⟨hsucc, hcan⟩ := RunDispatch.saturatingSucc_of_lt h.1
  rw [RunDispatch.writeNack_eq, hsucc]
  split
  · rw [RunDispatch.writeNackExhausted, hsucc]
    rfl
  · rename_i hleft
    have hcompleted := (h.2 (RunDispatch.not_maxAttempts_le_succ hcan hleft)).1
    rw [RunDispatch.writeNackRequeued, hsucc]
    simp only [RunDispatch.sqlNackRequeue, RunDispatch.clearClaimFields,
      RunDispatch.clearRuntimeProjection, hcompleted]

theorem Mirrors.nack (h : Mirrors driver s q) {dispatchId claimToken : String} {retryAt : UInt64}
    {error : String} {now : UInt64}
    (hok : AgreesOn s (.nack dispatchId claimToken retryAt error now)) :
    Follows driver (InMemoryMailboxStore.nack dispatchId claimToken retryAt error now s)
      (nack driver dispatchId claimToken retryAt error now q) := by
  obtain ⟨hnow, halike, hnacks⟩ := hok
  refine h.withClaim hnow (fun _ => claimToken_of_holdsToken) trivial trivial
    (fun a b d q' hq' => epochConflict_same a b d hq')
    (fun d hd ho hlt => ⟨rfl, halike d hd ho hlt⟩) fun d hd ho hs hge => ?_
  have hnack := hnacks d hd ho (UInt64.not_lt.mpr hge)
  have hbound := h.bounded _ _ hd
  have hvalid := (RunDispatch.writeNack_valid_iff (h.valid hd).identified now retryAt error).mpr
    (.inl hnack.1)
  have hmark : MailboxState.markNackResult now retryAt error d =
      (.ok (), d.writeNack now retryAt error) :=
    InMemoryMailboxStore.expecting_transition_ok _ _ hs hvalid
  have hcan := (RunDispatch.saturatingSucc_of_lt hnack.1).2
  rw [hmark, nextAttempt, if_neg hcan]
  rw [hnack.writeNack now error] at hvalid ⊢
  dsimp only
  split at hvalid
  · rename_i hused
    rw [if_pos hused, if_pos hused]
    exact h.replaced (sameOutcome_ok _ _) (h.holds.updateById hd _ _ (setNackDeadLetter_ofDispatch d _ _ _) rfl
      hvalid) ⟨hbound.availableAt, hbound.createdAt, hnow, by rintro _ ⟨⟩⟩
  · rename_i hleft
    rw [if_neg hleft, if_neg hleft]
    have hretry := (hnack.2 (RunDispatch.not_maxAttempts_le_succ hcan hleft)).2
    exact h.replaced (sameOutcome_ok _ _) (h.holds.updateById hd _ _ (setNackRequeue_ofDispatch d _ _ _ _) rfl
      hvalid) ⟨hretry, hbound.createdAt, hnow, by rintro _ ⟨⟩⟩

theorem Mirrors.cancel (h : Mirrors driver s q) {dispatchId : String} {now : UInt64}
    (hnow : now.toNat < 0x8000000000000000) :
    Follows driver (InMemoryMailboxStore.cancel dispatchId now s)
      (cancel driver dispatchId now q) := by
  unfold InMemoryMailboxStore.cancel InMemoryMailboxStore.withDispatch
  rcases h.holds.cancel_cases dispatchId now with
    ⟨hd, hcall⟩ | ⟨d, hd, ⟨hs, hcall⟩ | ⟨hs, q', hcall, hholds⟩⟩
  all_goals rw [hcall, hd]
  · exact h.unchanged trivial
  · simp only [ne_eq, hs, not_false_eq_true, if_true]
    rw [AssocMap.modify_get? hd]
    exact h.unchanged trivial
  · have hvalid := RunDispatch.writeCancelled_valid (h.valid hd).identified now
    have hmark : MailboxState.markCancelled now d = (.ok (), d.writeCancelled now) :=
      InMemoryMailboxStore.expecting_transition_ok _ _ hs hvalid
    have hbound := h.bounded _ _ hd
    simp only [ne_eq, hs, not_true_eq_false, if_false, Method.bind, hmark]
    exact h.replaced (sameOutcome_ok _ _) hholds ⟨hbound.availableAt, hbound.createdAt, hnow, by rintro _ ⟨⟩⟩

theorem Mirrors.supersedeClaimed (h : Mirrors driver s q) {dispatchId claimToken : String}
    {now : UInt64} {reason : String}
    (hok : AgreesOn s (.supersedeClaimed dispatchId claimToken now reason)) :
    Follows driver (InMemoryMailboxStore.supersedeClaimed dispatchId claimToken now reason s)
      (supersedeClaimed driver dispatchId claimToken now reason q) := by
  obtain ⟨hnow, hprojection⟩ := hok
  unfold InMemoryMailboxStore.supersedeClaimed InMemoryMailboxStore.withDispatch
  rcases h.holds.supersedeClaimed_cases dispatchId claimToken now reason with
    ⟨hd, hcall⟩ | ⟨d, hd, ⟨hs, hcall⟩ | ⟨hs, ht, hcall⟩ | ⟨hs, ht, q', hcall, hholds⟩⟩
  all_goals rw [hcall, hd]
  · exact h.unchanged trivial
  · simp only [ne_eq, hs, not_false_eq_true, if_true]
    rw [AssocMap.modify_get? hd]
    exact h.unchanged trivial
  · simp only [ne_eq, hs, not_true_eq_false, if_false, ht, not_false_eq_true, if_true]
    rw [AssocMap.modify_get? hd]
    exact h.unchanged trivial
  · have hnone := hprojection d hd (by simp [holdsClaim, hs, ht])
    have hmark := InMemoryMailboxStore.markSupersededAtEpoch_ok (h.valid hd).identified
      (by rw [hs]; rfl) now (max d.dispatchEpoch (s.currentEpoch d.threadId)) (some reason)
    have hbound := h.bounded _ _ hd
    simp only [ne_eq, hs, not_true_eq_false, if_false, ht, Method.bind, hmark]
    rw [RunDispatch.sqlSuperseded_eq hnone] at hholds
    exact h.replaced (sameOutcome_ok _ _) hholds ⟨hbound.availableAt, hbound.createdAt, hnow, by rintro _ ⟨⟩⟩

end SqliteMailboxStore

end Remo
