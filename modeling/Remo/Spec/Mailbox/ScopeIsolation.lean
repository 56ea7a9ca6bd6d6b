import Remo.Native.Mailbox.Scoped
import Remo.Spec.Mailbox.Projection
import Remo.Spec.Scope

/-!
# Scope isolation

A scope reaches only records under its own keys, with one exception: the lease
sweep runs over the whole shared store, and its limit and its panics are shared
too. A scope observes what it would observe alone as long as no sweep gets in
its way.
-/

namespace Remo

instance : IsTrans RunDispatch RunDispatch.terminalLe where
  trans a b c hab hbc := by
    simp only [RunDispatch.terminalLe, UInt64.lt_iff_toNat_lt, ← UInt64.toNat_inj] at *
    rcases hab with h | ⟨h, h' | ⟨h', h''⟩⟩ <;> rcases hbc with k | ⟨k, k' | ⟨k', k''⟩⟩
    case inr.inr.inr.inr => exact .inr ⟨by omega, .inr ⟨by omega, le_trans h'' k''⟩⟩
    all_goals omega

instance : Std.Total RunDispatch.terminalLe where
  total a b := by
    simp only [RunDispatch.terminalLe, UInt64.lt_iff_toNat_lt, ← UInt64.toNat_inj]
    rcases Nat.lt_trichotomy a.updatedAt.toNat b.updatedAt.toNat with hu | hu | hu
    · exact .inl (.inl hu)
    · rcases Nat.lt_trichotomy a.createdAt.toNat b.createdAt.toNat with hc | hc | hc
      · exact .inl (.inr ⟨hu, .inl hc⟩)
      · rcases le_total a.dispatchId b.dispatchId with hid | hid
        · exact .inl (.inr ⟨hu, .inr ⟨hc, hid⟩⟩)
        · exact .inr (.inr ⟨hu.symm, .inr ⟨hc.symm, hid⟩⟩)
      · exact .inr (.inr ⟨hu.symm, .inl hc⟩)
    · exact .inr (.inl hu)

namespace ScopedMailboxStore

open InMemoryMailboxStore (OnPart SparesPart Partitioned)

variable {s : InMemoryMailboxStore}

/-- The call of the shared store a scope's call comes down to. A refused call and
    a read come down to a read. -/
def innerOp (self : ScopedMailboxStore) : MailboxOp → MailboxOp
  | .enqueue dispatch => .enqueue (self.encodeDispatch dispatch)
  | .claim threadId consumerId leaseMs now limit token =>
    .claim (self.scopedId threadId) consumerId leaseMs now limit token
  | .claimDispatch dispatchId consumerId leaseMs now token =>
    .claimDispatch (self.scopedId dispatchId) consumerId leaseMs now token
  | .ack dispatchId claimToken now => .ack (self.scopedId dispatchId) claimToken now
  | .recordDispatchStart dispatchId claimToken dispatchInstanceId now =>
    .recordDispatchStart (self.scopedId dispatchId) claimToken dispatchInstanceId now
  | .recordRunResult dispatchId claimToken result now =>
    .recordRunResult (self.scopedId dispatchId) claimToken (self.encodeResult result) now
  | .nack dispatchId claimToken retryAt error now =>
    .nack (self.scopedId dispatchId) claimToken retryAt error now
  | .deadLetter dispatchId claimToken error now =>
    .deadLetter (self.scopedId dispatchId) claimToken error now
  | .cancel dispatchId now => .cancel (self.scopedId dispatchId) now
  | .extendLease dispatchId claimToken extensionMs now =>
    .extendLease (self.scopedId dispatchId) claimToken extensionMs now
  | .interrupt threadId now => .interrupt (self.scopedId threadId) now
  | .interruptDetailed threadId now => .interruptDetailed (self.scopedId threadId) now
  | .supersedeClaimed dispatchId claimToken now reason =>
    .supersedeClaimed (self.scopedId dispatchId) claimToken now reason
  | .reclaimExpiredLeases now limit => .reclaimExpiredLeases now limit
  | .currentDispatchEpoch _ | .loadDispatch _ | .listDispatches .. | .countDispatchesByStatus _
  | .listTerminalDispatches .. | .purgeTerminal _ | .queuedThreadIds => .queuedThreadIds

/-- A scope's call writes what the call it comes down to writes. -/
theorem call_snd (self : ScopedMailboxStore) (op : MailboxOp) (s : InMemoryMailboxStore) :
    (self.call op s).2 = (InMemoryMailboxStore.call (self.innerOp op) s).2 := by
  cases op <;>
    simp only [call, innerOp, InMemoryMailboxStore.call, Method.map_snd, enqueue, claim,
      claimDispatch, ack, recordDispatchStart, recordRunResult, nack, deadLetter, cancel,
      extendLease, interrupt, interruptDetailed, supersedeClaimed, reclaimExpiredLeases,
      purgeTerminal]

theorem innerOp_enqueue {self : ScopedMailboxStore} {op : MailboxOp} {d : RunDispatch}
    (h : self.innerOp op = .enqueue d) : ∃ d₀, d = self.encodeDispatch d₀ := by
  cases op <;> simp only [innerOp, reduceCtorEq, MailboxOp.enqueue.injEq] at h
  exact ⟨_, h.symm⟩

/-- A record of another scope does not decode. -/
theorem decodeDispatch_of_not_owned {self : ScopedMailboxStore} {d : RunDispatch}
    (h : self.scopeId.owns d.dispatchId = false) : self.decodeDispatch d = none := by
  have hnone : self.unscopedId d.dispatchId = none := by
    simpa [ScopeId.owns, unscopedId] using h
  simp [decodeDispatch, hnone]

/-! ## Own calls -/

theorem owns_scopedId (self : ScopedMailboxStore) (id : String) :
    self.scopeId.owns (self.scopedId id) = true := by
  simp [scopedId]

/-- A scope's reads see its own part of the store only. -/
theorem terminalOrder_only (self : ScopedMailboxStore) (h : s.Partitioned self.scopeId.owns) :
    self.terminalOrder (s.only self.scopeId.owns) = self.terminalOrder s := by
  have hnone : ∀ d : RunDispatch, self.scopeId.owns d.dispatchId = false →
      self.decodeDispatch d = none := fun d => decodeDispatch_of_not_owned
  have hpart : (s.only self.scopeId.owns).terminalOrder =
      s.terminalOrder.filter fun d => self.scopeId.owns d.dispatchId := by
    unfold InMemoryMailboxStore.terminalOrder
    rw [List.filter_insertionSort]
    congr 1
    exact InMemoryMailboxStore.only_filter h _
  unfold terminalOrder
  rw [hpart]
  exact List.filterMap_filter_of_none hnone _

theorem queuedThreadIds_only (self : ScopedMailboxStore) (h : s.Partitioned self.scopeId.owns) :
    self.queuedThreadIds (s.only self.scopeId.owns) = self.queuedThreadIds s := by
  have hnone : ∀ id, self.scopeId.owns id = false → self.unscopedId id = none := fun id hid => by
    simpa [ScopeId.owns, unscopedId] using hid
  have hpart : (s.only self.scopeId.owns).queuedThreadIds =
      s.queuedThreadIds.filter self.scopeId.owns := by
    unfold InMemoryMailboxStore.queuedThreadIds
    dsimp only
    rw [List.filter_insertionSort, List.filter_dedup, InMemoryMailboxStore.only_filter h,
      List.filter_map]
    congr 3
    refine List.filter_congr fun d hd => ?_
    obtain ⟨k, hk⟩ := AssocMap.mem_values.mp (List.mem_of_mem_filter hd)
    rw [Function.comp_apply, h.thread k d hk, h.keyed k d hk]
  unfold queuedThreadIds
  rw [hpart]
  exact List.filterMap_filter_of_none hnone _

theorem countDispatchesByStatus_only (self : ScopedMailboxStore)
    (h : s.Partitioned self.scopeId.owns) (status : RunDispatchStatus) :
    self.countDispatchesByStatus (s.only self.scopeId.owns) status =
      self.countDispatchesByStatus s status := by
  unfold countDispatchesByStatus
  simp only [queuedThreadIds_only self h, terminalOrder_only self h,
    InMemoryMailboxStore.only_queueOrder h (owns_scopedId self _)]

/-- A scope's call does to the scope's part what it does to the shared store, and
    answers the same; for a sweep, when the other dispatches do not get in its way. -/
theorem call_onPart (self : ScopedMailboxStore) (hs : s.Ready)
    (h : s.Partitioned self.scopeId.owns) (op : MailboxOp)
    (hsweep : ∀ now limit, op = .reclaimExpiredLeases now limit →
      InMemoryMailboxStore.SweepsPart self.scopeId.owns s now limit ∧
        InMemoryMailboxStore.SweepsQuietly self.scopeId.owns s now limit) :
    OnPart self.scopeId.owns (self.call op) s := by
  have hid := self.owns_scopedId
  cases op with
  | enqueue dispatch =>
    exact (InMemoryMailboxStore.enqueue_onPart (d := self.encodeDispatch dispatch) h
      (hid dispatch.dispatchId) (hid dispatch.threadId)).map _
  | claim threadId consumerId leaseMs now limit token =>
    exact ((InMemoryMailboxStore.claim_onPart h (hid threadId) consumerId leaseMs now limit
      token).map _).map _
  | claimDispatch dispatchId consumerId leaseMs now token =>
    exact ((InMemoryMailboxStore.claimDispatch_onPart h (hid dispatchId) consumerId leaseMs now
      token).map _).map _
  | ack | recordDispatchStart | recordRunResult | nack | deadLetter | extendLease =>
    simp only [call, ack, recordDispatchStart, recordRunResult, nack, deadLetter, extendLease,
      InMemoryMailboxStore.ack, InMemoryMailboxStore.recordDispatchStart,
      InMemoryMailboxStore.recordRunResult, InMemoryMailboxStore.nack,
      InMemoryMailboxStore.deadLetter, InMemoryMailboxStore.extendLease]
    exact (InMemoryMailboxStore.withClaim_onPart h (hid _) _ _ _ _ _ _ _).map _
  | cancel dispatchId now =>
    exact ((InMemoryMailboxStore.withDispatch_onPart (hid dispatchId) fun _ _ => rfl).map _).map _
  | interrupt threadId now =>
    exact (((InMemoryMailboxStore.interruptDetailed_onPart h (hid threadId) now).map _).map _).map _
  | interruptDetailed threadId now =>
    exact ((InMemoryMailboxStore.interruptDetailed_onPart h (hid threadId) now).map _).map _
  | supersedeClaimed dispatchId claimToken now reason =>
    exact ((InMemoryMailboxStore.supersedeClaimed_onPart h (hid dispatchId) claimToken now
      reason).map _).map _
  | reclaimExpiredLeases now limit =>
    obtain ⟨hpart, hquiet⟩ := hsweep now limit rfl
    exact (InMemoryMailboxStore.reclaimExpiredLeases_onPart hs.coherent h hs.identified hpart hquiet
      fun d => decodeDispatch_of_not_owned).map _
  | currentDispatchEpoch threadId =>
    simp only [OnPart, call, currentDispatchEpoch,
      InMemoryMailboxStore.only_currentEpoch (hid threadId)]
  | loadDispatch dispatchId =>
    simp only [OnPart, call, loadDispatch, InMemoryMailboxStore.only_get?_of_pos (hid dispatchId)]
  | listDispatches threadId statusFilter limit offset =>
    simp only [OnPart, call, listDispatches, InMemoryMailboxStore.listDispatches,
      InMemoryMailboxStore.only_queueOrder h (hid threadId)]
  | countDispatchesByStatus status =>
    simp only [OnPart, call, countDispatchesByStatus_only self h]
  | listTerminalDispatches limit offset =>
    simp only [OnPart, call, listTerminalDispatches, terminalOrder_only self h]
  | purgeTerminal olderThan => rfl
  | queuedThreadIds => simp only [OnPart, call, queuedThreadIds_only self h]

/-! ## Calls of another scope -/

/-- A call of another scope leaves the part of a scope alone; a sweep does when it
    takes back none of its dispatches. -/
theorem call_sparesPart (self : ScopedMailboxStore) {scopeId : ScopeId}
    (hne : scopeId ≠ self.scopeId) (h : s.Partitioned scopeId.owns) (op : MailboxOp)
    (hsweep : ∀ now limit, op = .reclaimExpiredLeases now limit →
      ∀ d ∈ (s.expired now).take limit.toNat, scopeId.owns d.dispatchId = false) :
    SparesPart scopeId.owns (self.call op) s := by
  have hid : ∀ id, scopeId.owns (self.scopedId id) = false := fun id => by simp [scopedId, hne]
  cases op with
  | enqueue dispatch =>
    exact (InMemoryMailboxStore.enqueue_sparesPart (d := self.encodeDispatch dispatch)
      (hid dispatch.dispatchId) (hid dispatch.threadId)).map _
  | claim threadId consumerId leaseMs now limit token =>
    exact ((InMemoryMailboxStore.claim_sparesPart h (hid threadId) consumerId leaseMs now limit
      token).map _).map _
  | ack | recordDispatchStart | recordRunResult | nack | deadLetter | extendLease =>
    simp only [call, ack, recordDispatchStart, recordRunResult, nack, deadLetter, extendLease,
      InMemoryMailboxStore.ack, InMemoryMailboxStore.recordDispatchStart,
      InMemoryMailboxStore.recordRunResult, InMemoryMailboxStore.nack,
      InMemoryMailboxStore.deadLetter, InMemoryMailboxStore.extendLease,
      InMemoryMailboxStore.withClaim]
    exact (InMemoryMailboxStore.withDispatch_sparesPart (.inl (hid _))).map _
  | claimDispatch | cancel | supersedeClaimed =>
    simp only [call, claimDispatch, cancel, supersedeClaimed, InMemoryMailboxStore.claimDispatch,
      InMemoryMailboxStore.cancel, InMemoryMailboxStore.supersedeClaimed]
    exact ((InMemoryMailboxStore.withDispatch_sparesPart (.inl (hid _))).map _).map _
  | interrupt threadId now =>
    exact (((InMemoryMailboxStore.interruptDetailed_sparesPart h (hid threadId) now).map _).map
      _).map _
  | interruptDetailed threadId now =>
    exact ((InMemoryMailboxStore.interruptDetailed_sparesPart h (hid threadId) now).map _).map _
  | reclaimExpiredLeases now limit =>
    exact ((InMemoryMailboxStore.reclaimExpiredLeases_sparesPart (hsweep now limit rfl)).map _).map _
  | currentDispatchEpoch | loadDispatch | listDispatches | countDispatchesByStatus
  | listTerminalDispatches | purgeTerminal | queuedThreadIds => rfl

end ScopedMailboxStore

/-! ## Runs of several scopes -/

namespace SharedMailbox

open InMemoryMailboxStore (Partitioned Ready)

variable {s t : InMemoryMailboxStore}

/-- What a scope's run relies on: live records are in order, and the scope's
    dispatches are those of its threads. -/
structure Shared (scopeId : ScopeId) (s : InMemoryMailboxStore) : Prop where
  ready : s.Ready
  partitioned : s.Partitioned scopeId.owns

/-- The sweep, if the event is one, does not get in the way of the scope: a sweep of
    another scope takes back none of its dispatches, and its own sweep leaves none of
    them out because of the others and does not panic at one of the others. -/
def Undisturbed (scopeId : ScopeId) (s : InMemoryMailboxStore) (e : ScopedEvent) : Prop :=
  ∀ now limit, e.op = .reclaimExpiredLeases now limit →
    if e.scopeId = scopeId then
      (s.reorder e.order).SweepsPart scopeId.owns now limit ∧
        (s.reorder e.order).SweepsQuietly scopeId.owns now limit
    else
      ∀ d ∈ ((s.reorder e.order).expired now).take limit.toNat, scopeId.owns d.dispatchId = false

/-- The second store holds the scope's part of the first, in some iteration order. -/
def PartOf (scopeId : ScopeId) (s t : InMemoryMailboxStore) : Prop :=
  t.dispatches.entries.Perm (s.only scopeId.owns).dispatches.entries ∧
    t.state = (s.only scopeId.owns).state

theorem step_eq (s : InMemoryMailboxStore) (e : ScopedEvent) :
    (sharedMailbox.step s e).2 =
      (InMemoryMailboxStore.machine.step s
        ⟨e.order, (ScopedMailboxStore.mk e.scopeId).innerOp e.op⟩).2 :=
  ScopedMailboxStore.call_snd _ _ _

theorem shared_new (scopeId : ScopeId) : Shared scopeId InMemoryMailboxStore.new :=
  ⟨InMemoryMailboxStore.ready_new, fun _ _ h => (nomatch h), fun _ _ h => (nomatch h)⟩

theorem reorder_partitioned {scopeId : ScopeId} (order : String → Nat)
    (h : s.Partitioned scopeId.owns) : (s.reorder order).Partitioned scopeId.owns :=
  ⟨fun k d hd => h.keyed k d (by simpa using hd), fun k d hd => h.thread k d (by simpa using hd)⟩

theorem step_shared {scopeId : ScopeId} (s : InMemoryMailboxStore) (e : ScopedEvent)
    (h : Shared scopeId s) : Shared scopeId (sharedMailbox.step s e).2 := by
  rw [step_eq]
  have hready := InMemoryMailboxStore.step_ready s
    ⟨e.order, (ScopedMailboxStore.mk e.scopeId).innerOp e.op⟩ h.ready
  refine ⟨hready, hready.coherent.keyed, fun k d' hd' => ?_⟩
  have heffect := InMemoryMailboxStore.step_effect h.ready.coherent
    ⟨e.order, (ScopedMailboxStore.mk e.scopeId).innerOp e.op⟩ k
  rw [hd'] at heffect
  generalize hx : s.dispatches.get? k = x at heffect
  generalize hop : (ScopedMailboxStore.mk e.scopeId).innerOp e.op = op at heffect
  cases heffect with
  | kept => exact h.partitioned.thread k d' hx
  | admitted d _ _ _ _ hk =>
    obtain ⟨d₀, rfl⟩ := ScopedMailboxStore.innerOp_enqueue hop
    rw [← hk]
    simp [RunDispatch.prepareForEnqueue, ScopedMailboxStore.encodeDispatch,
      ScopedMailboxStore.scopedId]
  | changed _ d _ hchange =>
    rw [hchange.sameIdentity.threadId, h.partitioned.thread k d hx]

/-- Under one iteration order without ties the two stores agree on the part. -/
theorem PartOf.reorder {scopeId : ScopeId} (h : PartOf scopeId s t) {order : String → Nat}
    (horder : Function.Injective order) :
    t.reorder order = (s.reorder order).only scopeId.owns := by
  have hdispatches : t.dispatches.reorder order =
      ((s.dispatches.reorder order).retain fun k _ => scopeId.owns k) := by
    rw [AssocMap.retain_reorder]
    exact AssocMap.reorder_congr horder h.1
  obtain ⟨dispatches, state⟩ := t
  have hstate := h.2
  simp only [InMemoryMailboxStore.reorder, InMemoryMailboxStore.only] at hdispatches hstate ⊢
  rw [hdispatches, hstate]

/-- An own event gets the same reply on the part, and leaves the part of what it
    leaves. -/
theorem step_own {scopeId : ScopeId} (h : Shared scopeId s) {e : ScopedEvent}
    (hok : Undisturbed scopeId s e) (hown : e.scopeId = scopeId) (hpart : PartOf scopeId s t) :
    (sharedMailbox.step t e).1 = (sharedMailbox.step s e).1 ∧
      PartOf scopeId (sharedMailbox.step s e).2 (sharedMailbox.step t e).2 := by
  subst hown
  have hcall := ScopedMailboxStore.call_onPart ⟨e.scopeId⟩
    (InMemoryMailboxStore.reorder_ready e.order h.ready)
    (reorder_partitioned e.order h.partitioned) e.op fun now limit hop => by
      have hsweep := hok now limit hop
      rwa [if_pos rfl] at hsweep
  rw [InMemoryMailboxStore.OnPart, ← hpart.reorder e.injective] at hcall
  simp only [sharedMailbox, hcall]
  exact ⟨trivial, List.Perm.refl _, rfl⟩

/-- An event of another scope does not show in the part. -/
theorem step_other {scopeId : ScopeId} (h : Shared scopeId s) {e : ScopedEvent}
    (hok : Undisturbed scopeId s e) (hne : e.scopeId ≠ scopeId) :
    (sharedMailbox.step s e).2.only scopeId.owns = (s.reorder e.order).only scopeId.owns :=
  ScopedMailboxStore.call_sparesPart ⟨e.scopeId⟩ (Ne.symm hne)
    (reorder_partitioned e.order h.partitioned) e.op fun now limit hop => by
      have hsweep := hok now limit hop
      rwa [if_neg hne] at hsweep

theorem PartOf.step_other {scopeId : ScopeId} (h : Shared scopeId s) {e : ScopedEvent}
    (hok : Undisturbed scopeId s e) (hne : e.scopeId ≠ scopeId) (hpart : PartOf scopeId s t) :
    PartOf scopeId (sharedMailbox.step s e).2 t := by
  unfold PartOf
  rw [SharedMailbox.step_other h hok hne]
  refine ⟨hpart.1.trans ?_, hpart.2⟩
  exact ((List.perm_insertionSort _ _).filter _).symm

/-- In a run whose sweeps do not get in the way of a scope, the scope gets the
    replies it would get alone, and no call of another scope changes one of its
    dispatches. -/
theorem run_isolated (scopeId : ScopeId) (es : List ScopedEvent)
    (hok : sharedMailbox.Along (Undisturbed scopeId) InMemoryMailboxStore.new es) :
    sharedMailbox.replies InMemoryMailboxStore.new
        (es.filter fun e => decide (e.scopeId = scopeId)) =
      ((sharedMailbox.trace InMemoryMailboxStore.new es).filter fun x =>
        decide (x.event.scopeId = scopeId)).map Machine.Step.reply ∧
    ∀ x ∈ sharedMailbox.trace InMemoryMailboxStore.new es, x.event.scopeId ≠ scopeId →
      ∀ id, x.after.dispatches.get? (scopedKey scopeId id) =
        x.before.dispatches.get? (scopedKey scopeId id) := by
  constructor
  · refine sharedMailbox.replies_filter (fun e => decide (e.scopeId = scopeId)) (Shared scopeId)
      (PartOf scopeId) (Undisturbed scopeId) (fun s e => step_shared s e)
      (fun s t e h hok hown hpart => step_own h hok (of_decide_eq_true hown) hpart)
      (fun s t e h hok hother hpart => hpart.step_other h hok (of_decide_eq_false hother))
      (shared_new scopeId) ⟨List.Perm.refl _, rfl⟩ es hok
  · refine sharedMailbox.trace_forall (Shared scopeId) (Undisturbed scopeId) _
      (fun s e h _ => step_shared s e h) (fun s e h hok hne id => ?_) (shared_new scopeId) es hok
    have hkey : scopeId.owns (scopedKey scopeId id) = true := by simp
    have hsame := step_other h hok hne
    have hafter := InMemoryMailboxStore.only_get?_of_pos
      (s := (sharedMailbox.step s e).2) (p := scopeId.owns) hkey
    rw [hsame, InMemoryMailboxStore.only_get?_of_pos hkey] at hafter
    simpa using hafter.symm

/-! ## Two scopes -/

def scopeA : ScopeId := ⟨"a", by decide, by decide, by decide⟩

def scopeB : ScopeId := ⟨"b", by decide, by decide, by decide⟩

/-- Both scopes hold a claimed dispatch whose lease has run out, and scope `a` sweeps. -/
def ownSweepRun : List ScopedEvent :=
  [.inTextOrder scopeB (.enqueue (RunDispatch.queued "d-1" "t" "r-1" 0)),
    .inTextOrder scopeB (.claimDispatch "d-1" "c" 100 0 .token),
    .inTextOrder scopeA (.enqueue (RunDispatch.queued "d-1" "t" "r-1" 0)),
    .inTextOrder scopeA (.claimDispatch "d-1" "c" 100 0 .token),
    .inTextOrder scopeA (.reclaimExpiredLeases 1000 10)]

theorem ownSweepRun_isolated :
    sharedMailbox.replies InMemoryMailboxStore.new
        (ownSweepRun.filter fun e => decide (e.scopeId = scopeA)) =
      ((sharedMailbox.trace InMemoryMailboxStore.new ownSweepRun).filter fun x =>
        decide (x.event.scopeId = scopeA)).map Machine.Step.reply := by
  have hok : sharedMailbox.Along (Undisturbed scopeA) InMemoryMailboxStore.new ownSweepRun := by
    refine ⟨by rintro _ _ ⟨⟩, by rintro _ _ ⟨⟩, by rintro _ _ ⟨⟩, by rintro _ _ ⟨⟩, ?_, trivial⟩
    rintro now limit ⟨⟩
    have hown : (ScopedEvent.inTextOrder scopeA (.reclaimExpiredLeases 1000 10)).scopeId = scopeA :=
      rfl
    rw [if_pos hown]
    refine ⟨.inr ?_, ?_⟩
    · decide
    · unfold InMemoryMailboxStore.SweepsQuietly
      decide
  exact (run_isolated scopeA ownSweepRun hok).1

/-- Scope `a` claims a dispatch, scope `b` sweeps after its lease ran out, and scope
    `a` looks at it. -/
def sweptRun : List ScopedEvent :=
  [.inTextOrder scopeA (.enqueue (RunDispatch.queued "d-1" "t" "r-1" 0)),
    .inTextOrder scopeA (.claimDispatch "d-1" "c" 100 0 .token),
    .inTextOrder scopeB (.reclaimExpiredLeases 1000 10),
    .inTextOrder scopeA (.loadDispatch "d-1")]

/-- The sweep of one scope takes back a claimed dispatch of another. -/
theorem sweep_crosses_scopes :
    ¬∀ scopeId es, sharedMailbox.replies InMemoryMailboxStore.new
        (es.filter fun e : ScopedEvent => decide (e.scopeId = scopeId)) =
      ((sharedMailbox.trace InMemoryMailboxStore.new es).filter fun x =>
        decide (x.event.scopeId = scopeId)).map Machine.Step.reply := by
  intro h
  have hsame := h scopeA sweptRun
  revert hsame
  decide

end SharedMailbox

end Remo
