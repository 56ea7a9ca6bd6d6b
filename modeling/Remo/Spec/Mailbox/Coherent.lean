import Remo.Spec.Mailbox.DispatchChange

/-!
# Coherence of reachable stores

Every call keeps the in-memory store coherent: records stand under their own
ids, only claimed records hold a token, and no record is ahead of the epoch of
its thread. The last part survives `purgeTerminal`, which forgets the epochs of
threads without dispatches.
-/

namespace Remo

/-- The thread whose epoch a call bumps. -/
def MailboxOp.interrupted : MailboxOp → Option String
  | .interrupt threadId _ => some threadId
  | .interruptDetailed threadId _ => some threadId
  | _ => none

namespace InMemoryMailboxStore

variable {s : InMemoryMailboxStore}

/-! ## What a change keeps -/

/-- The fields no call rewrites. -/
structure SameIdentity (d d' : RunDispatch) : Prop where
  dispatchId : d'.dispatchId = d.dispatchId
  threadId : d'.threadId = d.threadId
  runId : d'.runId = d.runId
  priority : d'.priority = d.priority
  dedupeKey : d'.dedupeKey = d.dedupeKey
  maxAttempts : d'.maxAttempts = d.maxAttempts
  createdAt : d'.createdAt = d.createdAt

theorem Change.sameIdentity {op : MailboxOp} {d d' : RunDispatch} (h : Change s d op d') :
    SameIdentity d d' := by
  cases h <;> exact ⟨rfl, rfl, rfl, rfl, rfl, rfl, rfl⟩

/-- A change counts at most one attempt. -/
theorem Change.attemptCount {op : MailboxOp} {d d' : RunDispatch} (h : Change s d op d') :
    d'.attemptCount = d.attemptCount ∨
      d'.attemptCount = RunDispatch.saturatingSucc d.attemptCount := by
  cases h with
  | nackRequeued | nackExhausted | leaseRequeued | leaseExhausted => exact .inr rfl
  | _ => exact .inl rfl

/-- A record with room for one more attempt stays within its retry budget. -/
theorem Change.identified {op : MailboxOp} {d d' : RunDispatch} (h : Change s d op d')
    (hid : d.Identified) (hleft : d.HasAttemptLeft) : d'.Identified := by
  have hsame := h.sameIdentity
  rcases h.attemptCount with hcount | hcount
  · exact hid.congr hsame.dispatchId hsame.threadId hsame.runId hsame.maxAttempts hcount
  · exact (RunDispatch.identified_counted_iff hid hsame.dispatchId hsame.threadId hsame.runId
      hsame.maxAttempts hcount).mpr hleft

/-- Only live records change. -/
theorem Change.live {op : MailboxOp} {d d' : RunDispatch} (h : Change s d op d') :
    d.status.isTerminal = false := by
  cases h with
  | superseded _ _ _ hlive => exact hlive
  | claim _ _ _ _ _ hs => rw [hs]; rfl
  | claimDispatch _ _ _ _ hs => rw [hs]; rfl
  | ack _ _ hs => rw [hs]; rfl
  | recordDispatchStart _ _ _ hs => rw [hs]; rfl
  | recordRunResult _ _ _ hs => rw [hs]; rfl
  | nackRequeued _ _ _ _ hs => rw [hs]; rfl
  | nackExhausted _ _ _ _ hs => rw [hs]; rfl
  | deadLetter _ _ _ hs => rw [hs]; rfl
  | extendLease _ _ _ hs => rw [hs]; rfl
  | cancel _ hs => rw [hs]; rfl
  | interrupted _ _ _ hs => rw [hs]; rfl
  | supersedeClaimed _ _ _ hs => rw [hs]; rfl
  | leaseRequeued _ _ _ hs => rw [hs]; rfl
  | leaseExhausted _ _ _ hs => rw [hs]; rfl

/-- A call that presents a token changes only the record that holds it. -/
theorem Change.entitled {op : MailboxOp} {d d' : RunDispatch} (h : Change s d op d') :
    op.Entitled d := by
  intro dispatchId claimToken hpresented
  cases h with
  | superseded _ _ _ _ _ hent => exact hent dispatchId claimToken hpresented
  | claim | claimDispatch | cancel | leaseRequeued | leaseExhausted => cases hpresented
  | interrupted _ _ _ _ _ hop => rcases hop with rfl | rfl <;> cases hpresented
  | ack _ _ _ htoken => cases hpresented; exact ⟨rfl, htoken⟩
  | recordDispatchStart _ _ _ _ htoken => cases hpresented; exact ⟨rfl, htoken⟩
  | recordRunResult _ _ _ _ htoken => cases hpresented; exact ⟨rfl, htoken⟩
  | nackRequeued _ _ _ _ _ htoken => cases hpresented; exact ⟨rfl, htoken⟩
  | nackExhausted _ _ _ _ _ htoken => cases hpresented; exact ⟨rfl, htoken⟩
  | deadLetter _ _ _ _ htoken => cases hpresented; exact ⟨rfl, htoken⟩
  | extendLease _ _ _ _ htoken => cases hpresented; exact ⟨rfl, htoken⟩
  | supersedeClaimed _ _ _ _ htoken => cases hpresented; exact ⟨rfl, htoken⟩

/-- A change keeps the token, drops it, or sets the one the call generated. -/
theorem Change.claimToken {op : MailboxOp} {d d' : RunDispatch} (h : Change s d op d') :
    d'.claimToken = d.claimToken ∨ d'.claimToken = none ∨
      ∃ token, op.generated = some token ∧ d'.claimToken = some token.text := by
  cases h with
  | claim _ _ _ _ token => exact .inr (.inr ⟨token, rfl, rfl⟩)
  | claimDispatch _ _ _ token => exact .inr (.inr ⟨token, rfl, rfl⟩)
  | recordDispatchStart | recordRunResult | extendLease => exact .inl rfl
  | _ => exact .inr (.inl rfl)

/-- A record that holds a token after a change is claimed. -/
theorem Change.token {op : MailboxOp} {d d' : RunDispatch} (h : Change s d op d')
    (htoken : d'.claimToken ≠ none) : d'.status = .claimed := by
  cases h with
  | claim | claimDispatch => rfl
  | recordDispatchStart _ _ _ hclaimed => exact hclaimed
  | recordRunResult _ _ _ hclaimed => exact hclaimed
  | extendLease _ _ _ hclaimed => exact hclaimed
  | _ => exact absurd rfl htoken

/-- A change moves the epoch of a record at most to the epoch of its thread. -/
theorem Change.epoch {op : MailboxOp} {d d' : RunDispatch} (h : Change s d op d') :
    d'.dispatchEpoch = d.dispatchEpoch ∨ d'.dispatchEpoch = s.currentEpoch d.threadId := by
  cases h with
  | superseded => exact .inr rfl
  | supersedeClaimed =>
    have hmax : max d.dispatchEpoch (s.currentEpoch d.threadId) =
        if d.dispatchEpoch ≤ s.currentEpoch d.threadId then s.currentEpoch d.threadId
        else d.dispatchEpoch := rfl
    change max d.dispatchEpoch (s.currentEpoch d.threadId) = _ ∨
      max d.dispatchEpoch (s.currentEpoch d.threadId) = _
    rw [hmax]
    split
    · exact .inr rfl
    · exact .inl rfl
  | _ => exact .inl rfl

/-! ## Epochs -/

/-- The epoch lookups depend on the epoch map only. -/
theorem currentEpoch_congr {s s' : InMemoryMailboxStore} (h : s'.state = s.state)
    (threadId : String) : s'.currentEpoch threadId = s.currentEpoch threadId := by
  rw [currentEpoch, currentEpoch, h]

/-- An interrupt bumps the epoch of its own thread, unless that is at its end. -/
theorem interruptDetailed_currentEpoch (s : InMemoryMailboxStore) (threadId : String) (now : UInt64)
    (threadId' : String) :
    (interruptDetailed threadId now s).2.currentEpoch threadId' =
      match Outcome.addU64 (s.currentEpoch threadId) 1 with
      | .error _ => s.currentEpoch threadId'
      | .ok newDispatchEpoch =>
        if threadId' = threadId then newDispatchEpoch else s.currentEpoch threadId' := by
  unfold interruptDetailed
  simp only [currentEpoch_orInsert]
  cases Outcome.addU64 (s.currentEpoch threadId) 1 with
  | error f => exact currentEpoch_orInsert s threadId threadId'
  | ok newDispatchEpoch =>
    simp only [Method.map_snd, interruptVisits]
    rw [currentEpoch_congr (forEach_withDispatch_state _ _)]
    simp only [currentEpoch, AssocMap.get?_modify, AssocMap.get?_orInsert]
    split <;> rfl

/-- A purge keeps the epoch of a thread that keeps a dispatch. -/
theorem purgeTerminal_currentEpoch {s : InMemoryMailboxStore} {olderThan : UInt64} {k : String}
    {d : RunDispatch} (hd : (purgeTerminal olderThan s).2.dispatches.get? k = some d) :
    (purgeTerminal olderThan s).2.currentEpoch d.threadId = s.currentEpoch d.threadId := by
  have hlive : d.threadId ∈ (purgeTerminal olderThan s).2.dispatches.values.map
      RunDispatch.threadId := List.mem_map_of_mem (AssocMap.mem_values.mpr ⟨k, hd⟩)
  have hcontains := List.contains_iff_mem.mpr hlive
  simp only [purgeTerminal] at hcontains
  simp only [currentEpoch, purgeTerminal, AssocMap.get?_retain, hcontains]
  cases s.state.get? d.threadId <;> rfl

/-- A claim leaves the epochs alone. -/
theorem claim_state (threadId consumerId : String) (leaseMs now limit : UInt64) (token : Uuid)
    (s : InMemoryMailboxStore) :
    (claim threadId consumerId leaseMs now limit token s).2.state = s.state := by
  have hfirst := supersedeStaleQueued_state threadId now (s.currentEpoch threadId) s
  refine Method.bind_snd (fun s' => s'.state = s.state) _ _ s hfirst fun bs s₁ hr => ?_
  have hs₁ : s₁.state = s.state := by simpa [hr] using hfirst
  split
  · exact hs₁
  · exact (forEach_withDispatch_state _ _).trans hs₁

/-- An enqueue leaves the epochs alone: it may create an entry at epoch 0. -/
theorem enqueue_currentEpoch (dispatch : RunDispatch) (s : InMemoryMailboxStore)
    (threadId : String) :
    (enqueue dispatch s).2.currentEpoch threadId = s.currentEpoch threadId := by
  have hentry := currentEpoch_orInsert s dispatch.threadId threadId
  unfold enqueue
  cases dispatch.validateForEnqueue with
  | error e => rfl
  | ok _ =>
    simp only []
    split
    · rfl
    · split
      · exact hentry
      · exact hentry

/-- No call but an interrupt or a purge moves an epoch. -/
theorem call_currentEpoch_of_ne (s : InMemoryMailboxStore) {op : MailboxOp} {threadId : String}
    (hinterrupt : op.interrupted ≠ some threadId)
    (hpurge : ∀ olderThan, op ≠ .purgeTerminal olderThan) :
    (call op s).2.currentEpoch threadId = s.currentEpoch threadId := by
  cases op with
  | enqueue dispatch =>
    simpa only [call, Method.map_snd] using enqueue_currentEpoch dispatch s threadId
  | claim threadId' consumerId leaseMs now limit token =>
    exact currentEpoch_congr (claim_state threadId' consumerId leaseMs now limit token s) threadId
  | interrupt threadId' now | interruptDetailed threadId' now =>
    have hne : threadId ≠ threadId' := fun h => hinterrupt (by rw [h]; rfl)
    have hepoch := interruptDetailed_currentEpoch s threadId' now threadId
    simp only [hne, if_false] at hepoch
    refine Eq.trans hepoch ?_
    split <;> rfl
  | reclaimExpiredLeases now limit =>
    exact currentEpoch_congr (forEach_withDispatch_state _ _) threadId
  | purgeTerminal olderThan => exact absurd rfl (hpurge olderThan)
  | claimDispatch | ack | recordDispatchStart | recordRunResult | nack | deadLetter | cancel
  | extendLease | supersedeClaimed => exact currentEpoch_congr (withDispatch_state _ _ _ _) threadId
  | currentDispatchEpoch | loadDispatch | listDispatches | countDispatchesByStatus
  | listTerminalDispatches | queuedThreadIds => rfl

/-- The epoch of a thread that keeps a dispatch never goes back. -/
theorem call_currentEpoch_mono {s : InMemoryMailboxStore} {op : MailboxOp} {k : String}
    {d : RunDispatch} (hd : (call op s).2.dispatches.get? k = some d) :
    s.currentEpoch d.threadId ≤ (call op s).2.currentEpoch d.threadId := by
  by_cases hinterrupt : op.interrupted = some d.threadId
  · have hmono : ∀ now, s.currentEpoch d.threadId ≤
        (interruptDetailed d.threadId now s).2.currentEpoch d.threadId := by
      intro now
      rw [interruptDetailed_currentEpoch]
      cases hadd : Outcome.addU64 (s.currentEpoch d.threadId) 1 with
      | error f => exact UInt64.le_refl _
      | ok newDispatchEpoch =>
        have hlt := Outcome.lt_of_addU64_one hadd
        simpa using UInt64.le_of_lt hlt
    cases op <;> simp only [MailboxOp.interrupted, reduceCtorEq, Option.some.injEq] at hinterrupt
    all_goals
      subst hinterrupt
      exact hmono _
  · by_cases hpurge : ∃ olderThan, op = .purgeTerminal olderThan
    · obtain ⟨olderThan, rfl⟩ := hpurge
      exact (purgeTerminal_currentEpoch hd).symm ▸ UInt64.le_refl _
    · rw [call_currentEpoch_of_ne s hinterrupt (fun o h => hpurge ⟨o, h⟩)]
      exact UInt64.le_refl _

/-! ## Every call keeps the store coherent -/

theorem coherent_new : new.Coherent := by
  refine ⟨?_, ?_, ?_⟩
  all_goals
    intro k d h
    cases h

theorem call_coherent (hs : s.Coherent) (op : MailboxOp) : (call op s).2.Coherent := by
  refine ⟨fun k d' hd' => ?_, fun k d' hd' htoken => ?_, fun k d' hd' => ?_⟩
  all_goals
    have hmono := call_currentEpoch_mono hd'
    have heffect := call_effect hs k op
    rw [hd'] at heffect
    generalize hx : s.dispatches.get? k = x at heffect
  · cases heffect with
    | kept => exact hs.keyed k d' hx
    | admitted d _ _ _ _ hk => exact hk
    | changed _ d _ hchange => exact hchange.sameIdentity.dispatchId.trans (hs.keyed k d hx)
  · cases heffect with
    | kept => exact hs.token k d' hx htoken
    | admitted d => exact absurd rfl htoken
    | changed _ d _ hchange => exact hchange.token htoken
  · cases heffect with
    | kept => exact UInt64.le_trans (hs.epoch k d' hx) hmono
    | admitted d => exact hmono
    | changed _ d _ hchange =>
      have hthread := hchange.sameIdentity.threadId
      refine UInt64.le_trans ?_ hmono
      rw [hthread]
      rcases hchange.epoch with he | he <;> rw [he]
      · exact hs.epoch k d hx
      · exact UInt64.le_refl _

/-! ## Runs -/

/-- The iteration order does not show in lookups. -/
@[simp] theorem reorder_get? (s : InMemoryMailboxStore) (order : String → Nat) (k : String) :
    (s.reorder order).dispatches.get? k = s.dispatches.get? k :=
  AssocMap.get?_reorder _ _ _

@[simp] theorem reorder_currentEpoch (s : InMemoryMailboxStore) (order : String → Nat)
    (threadId : String) : (s.reorder order).currentEpoch threadId = s.currentEpoch threadId := rfl

theorem reorder_coherent (order : String → Nat) (hs : s.Coherent) : (s.reorder order).Coherent :=
  ⟨fun k d hd => hs.keyed k d (by simpa using hd), fun k d hd => hs.token k d (by simpa using hd),
    fun k d hd => hs.epoch k d (by simpa using hd)⟩

theorem step_coherent (s : InMemoryMailboxStore) (e : MailboxEvent) (hs : s.Coherent) :
    (machine.step s e).2.Coherent :=
  call_coherent (reorder_coherent e.order hs) e.op

/-- Every reachable store is coherent. -/
theorem run_coherent (es : List MailboxEvent) : (machine.run new es).Coherent :=
  machine.run_invariant Coherent step_coherent coherent_new es

theorem idle_reorder (order : String → Nat) (threadId : String) :
    (s.reorder order).Idle threadId ↔ s.Idle threadId := by
  simp only [Idle, reorder_get?]

theorem hasDuplicate_reorder (s : InMemoryMailboxStore) (order : String → Nat) (d : RunDispatch) :
    (s.reorder order).hasDuplicate d = s.hasDuplicate d := by
  unfold hasDuplicate
  split
  · rfl
  · rw [Bool.eq_iff_iff, AssocMap.any_values, AssocMap.any_values]
    simp only [reorder_get?]

/-- The iteration order does not show in what a call can do to one record. -/
theorem Change.of_reorder {order : String → Nat} {op : MailboxOp} {d d' : RunDispatch}
    (h : Change (s.reorder order) d op d') : Change s d op d' := by
  cases h with
  | claim consumerId leaseMs now limit token hqueued he havail hidle =>
    exact .claim consumerId leaseMs now limit token hqueued he havail ((idle_reorder _ _).mp hidle)
  | claimDispatch consumerId leaseMs now token hqueued he hidle =>
    exact .claimDispatch consumerId leaseMs now token hqueued he ((idle_reorder _ _).mp hidle)
  | superseded op now reason hlive hstale hent => exact .superseded op now reason hlive hstale hent
  | ack token now hclaimed ht he => exact .ack token now hclaimed ht he
  | recordDispatchStart token inst now hclaimed ht he =>
    exact .recordDispatchStart token inst now hclaimed ht he
  | recordRunResult token result now hclaimed ht he hrun =>
    exact .recordRunResult token result now hclaimed ht he hrun
  | nackRequeued token retryAt error now hclaimed ht he hleft =>
    exact .nackRequeued token retryAt error now hclaimed ht he hleft
  | nackExhausted token retryAt error now hclaimed ht he hused =>
    exact .nackExhausted token retryAt error now hclaimed ht he hused
  | deadLetter token error now hclaimed ht he => exact .deadLetter token error now hclaimed ht he
  | extendLease token ext now hclaimed ht he => exact .extendLease token ext now hclaimed ht he
  | cancel now hqueued => exact .cancel now hqueued
  | interrupted op now reason hqueued he hop => exact .interrupted op now reason hqueued he hop
  | supersedeClaimed token now reason hclaimed ht =>
    exact .supersedeClaimed token now reason hclaimed ht
  | leaseRequeued now limit leaseUntil hclaimed hl hlt he hleft =>
    exact .leaseRequeued now limit leaseUntil hclaimed hl hlt he hleft
  | leaseExhausted now limit leaseUntil hclaimed hl hlt he hused =>
    exact .leaseExhausted now limit leaseUntil hclaimed hl hlt he hused

/-- One step of a run has an effect on the record under every id. -/
theorem step_effect (hs : s.Coherent) (e : MailboxEvent) (k : String) :
    Effect s k e.op (s.dispatches.get? k) ((machine.step s e).2.dispatches.get? k) := by
  have heffect := call_effect (reorder_coherent e.order hs) k e.op
  rw [reorder_get?] at heffect
  change Effect (s.reorder e.order) k e.op _ ((machine.step s e).2.dispatches.get? k) at heffect
  generalize s.dispatches.get? k = x at heffect ⊢
  generalize (machine.step s e).2.dispatches.get? k = y at heffect ⊢
  obtain ⟨order, op⟩ := e
  cases heffect with
  | kept => exact .kept _ _
  | admitted d _ hvalid hqueued hdup hk =>
    exact .admitted d _ hvalid hqueued (hasDuplicate_reorder s order d ▸ hdup) hk
  | purged d olderThan hterm hold => exact .purged d olderThan hterm hold
  | changed _ d d' hchange => exact .changed _ d d' hchange.of_reorder

/-- The epoch of a thread that keeps a dispatch never goes back. -/
theorem step_currentEpoch_mono (s : InMemoryMailboxStore) (e : MailboxEvent) {k : String}
    {d : RunDispatch} (hd : (machine.step s e).2.dispatches.get? k = some d) :
    s.currentEpoch d.threadId ≤ (machine.step s e).2.currentEpoch d.threadId :=
  call_currentEpoch_mono (s := s.reorder e.order) hd

end InMemoryMailboxStore

end Remo

/-! ## Dedupe keys

An enqueue is refused while a live dispatch of the thread has its dedupe key, and
no call revives a terminal dispatch. Hence a key of a thread never belongs to two
live dispatches.
-/

namespace Remo.InMemoryMailboxStore

variable {s : InMemoryMailboxStore}

/-- The dispatch is live and carries the dedupe key for the thread. -/
structure Holds (d : RunDispatch) (threadId key : String) : Prop where
  threadId : d.threadId = threadId
  dedupeKey : d.dedupeKey = some key
  live : d.status.isTerminal = false

/-- Every dedupe key of every thread belongs to at most one live dispatch. -/
def Deduped (s : InMemoryMailboxStore) : Prop :=
  ∀ threadId key k₁ k₂ d₁ d₂, s.dispatches.get? k₁ = some d₁ → s.dispatches.get? k₂ = some d₂ →
    Holds d₁ threadId key → Holds d₂ threadId key → k₁ = k₂

/-- An admitted dispatch brings a key no live dispatch of the thread has. -/
theorem not_holds_of_hasDuplicate {d : RunDispatch} (h : s.hasDuplicate d = false) {key : String}
    (hkey : d.dedupeKey = some key) {k : String} {d' : RunDispatch}
    (hd' : s.dispatches.get? k = some d') : ¬Holds d' d.threadId key := by
  intro hholds
  rw [hasDuplicate, hkey, ← Bool.not_eq_true, AssocMap.any_values] at h
  exact h ⟨k, d', hd', by simp [hholds.threadId, hholds.dedupeKey, hholds.live]⟩

/-- After an effect, a record that holds a key held it before, or the call
    admitted it because no record held the key. -/
theorem Effect.holds {k : String} {op : MailboxOp} {x : Option RunDispatch} {d' : RunDispatch}
    (h : Effect s k op x (some d')) {threadId key : String} (hholds : Holds d' threadId key) :
    (∃ d, x = some d ∧ Holds d threadId key) ∨
      ∃ d, op = .enqueue d ∧ d.dispatchId = k ∧
        ∀ k' d₀, s.dispatches.get? k' = some d₀ → ¬Holds d₀ threadId key := by
  cases h with
  | kept => exact .inl ⟨d', rfl, hholds⟩
  | admitted d _ _ _ hdup hk =>
    obtain ⟨rfl, hkey, -⟩ := hholds
    exact .inr ⟨d, rfl, hk, fun k' d₀ => not_holds_of_hasDuplicate hdup hkey⟩
  | changed _ d _ hchange =>
    have hsame := hchange.sameIdentity
    exact .inl ⟨d, rfl, hsame.threadId ▸ hholds.threadId, hsame.dedupeKey ▸ hholds.dedupeKey,
      hchange.live⟩

theorem step_deduped (e : MailboxEvent) (hs : s.Coherent) (h : s.Deduped) :
    (machine.step s e).2.Deduped := by
  intro threadId key k₁ k₂ d₁ d₂ hd₁ hd₂ hholds₁ hholds₂
  have heffect₁ := step_effect hs e k₁
  have heffect₂ := step_effect hs e k₂
  rw [hd₁] at heffect₁
  rw [hd₂] at heffect₂
  rcases heffect₁.holds hholds₁ with ⟨c₁, hc₁, hbefore₁⟩ | ⟨a₁, hop₁, hk₁, hnone₁⟩
  · rcases heffect₂.holds hholds₂ with ⟨c₂, hc₂, hbefore₂⟩ | ⟨a₂, -, -, hnone₂⟩
    · exact h threadId key k₁ k₂ c₁ c₂ hc₁ hc₂ hbefore₁ hbefore₂
    · exact absurd hbefore₁ (hnone₂ k₁ c₁ hc₁)
  · rcases heffect₂.holds hholds₂ with ⟨c₂, hc₂, hbefore₂⟩ | ⟨a₂, hop₂, hk₂, -⟩
    · exact absurd hbefore₂ (hnone₁ k₂ c₂ hc₂)
    · -- one call admits one dispatch
      rw [hop₁] at hop₂
      cases hop₂
      exact hk₁.symm.trans hk₂

/-- In every reachable store each dedupe key of a thread belongs to at most one
    live dispatch, and no dispatch is ahead of the epoch of its thread. -/
theorem run_deduped_and_epoch (es : List MailboxEvent) :
    (∀ k₁ k₂ d₁ d₂ key, (machine.run new es).dispatches.get? k₁ = some d₁ →
      (machine.run new es).dispatches.get? k₂ = some d₂ → d₁.threadId = d₂.threadId →
      d₁.dedupeKey = some key → d₂.dedupeKey = some key → d₁.status.isTerminal = false →
      d₂.status.isTerminal = false → k₁ = k₂) ∧
    ∀ k d, (machine.run new es).dispatches.get? k = some d →
      d.dispatchEpoch ≤ (machine.run new es).currentEpoch d.threadId := by
  have hinv : (machine.run new es).Coherent ∧ (machine.run new es).Deduped := by
    refine machine.run_invariant (fun s => s.Coherent ∧ s.Deduped) (fun s e h => ?_)
      ⟨coherent_new, fun _ _ _ _ _ _ h => nomatch h⟩ es
    exact ⟨step_coherent s e h.1, step_deduped e h.1 h.2⟩
  refine ⟨fun k₁ k₂ d₁ d₂ key hd₁ hd₂ hthread hkey₁ hkey₂ hlive₁ hlive₂ => ?_, hinv.1.epoch⟩
  exact hinv.2 d₂.threadId key k₁ k₂ d₁ d₂ hd₁ hd₂ ⟨hthread, hkey₁, hlive₁⟩ ⟨rfl, hkey₂, hlive₂⟩

end Remo.InMemoryMailboxStore

/-! ## Live records are in order

Whatever the callers pass, a dispatch that is not terminal stays within its retry
budget and a queued one stays valid. Only a claim for a blank consumer or a call
that exhausts a spent budget leaves an invalid record, and that record is claimed
or terminal.
-/

namespace Remo.InMemoryMailboxStore

variable {s : InMemoryMailboxStore}

/-- The store is coherent, and its live records are in order: they are within
    their retry budget, and the queued ones are valid. -/
structure Ready (s : InMemoryMailboxStore) : Prop where
  coherent : s.Coherent
  identified : ∀ k d, s.dispatches.get? k = some d → d.status.isTerminal = false → d.Identified
  queued : ∀ k d, s.dispatches.get? k = some d → d.status = .queued → d.Valid

theorem Change.identified_of_live {op : MailboxOp} {d d' : RunDispatch} (h : Change s d op d')
    (hid : d.Identified) (hlive : d'.status.isTerminal = false) : d'.Identified := by
  cases h with
  | nackRequeued _ _ _ _ _ _ _ hlt =>
    exact ⟨hid.dispatchId, hid.threadId, hid.runId, hid.budget, UInt32.le_of_lt hlt⟩
  | leaseRequeued _ _ _ _ _ _ _ hlt =>
    exact ⟨hid.dispatchId, hid.threadId, hid.runId, hid.budget, UInt32.le_of_lt hlt⟩
  | nackExhausted | leaseExhausted => cases hlive
  | _ => exact hid.congr rfl rfl rfl rfl rfl

theorem Change.valid_of_queued {op : MailboxOp} {d d' : RunDispatch} (h : Change s d op d')
    (hid : d.Identified) (hqueued : d'.status = .queued) : d'.Valid := by
  have hid' := h.identified_of_live hid (by rw [hqueued]; rfl)
  cases h with
  | nackRequeued => exact hid'.valid_queued rfl ⟨rfl, rfl, rfl⟩ rfl ⟨rfl, rfl, rfl, rfl, rfl⟩
  | leaseRequeued => exact hid'.valid_queued rfl ⟨rfl, rfl, rfl⟩ rfl ⟨rfl, rfl, rfl, rfl, rfl⟩
  | recordDispatchStart _ _ _ hclaimed => cases hclaimed.symm.trans hqueued
  | recordRunResult _ _ _ hclaimed => cases hclaimed.symm.trans hqueued
  | extendLease _ _ _ hclaimed => cases hclaimed.symm.trans hqueued
  | _ => cases hqueued

theorem step_ready (s : InMemoryMailboxStore) (e : MailboxEvent) (h : s.Ready) :
    (machine.step s e).2.Ready := by
  refine ⟨step_coherent s e h.coherent, fun k d' hd' hlive => ?_, fun k d' hd' hqueued => ?_⟩
  all_goals
    have heffect := step_effect h.coherent e k
    rw [hd'] at heffect
    generalize hx : s.dispatches.get? k = x at heffect
    obtain ⟨order, op⟩ := e
  · cases heffect with
    | kept => exact h.identified k d' hx hlive
    | admitted d _ hvalid => exact (RunDispatch.prepareForEnqueue_valid hvalid _).identified
    | changed _ d _ hchange =>
      exact hchange.identified_of_live (h.identified k d hx hchange.live) hlive
  · cases heffect with
    | kept => exact h.queued k d' hx hqueued
    | admitted d _ hvalid => exact RunDispatch.prepareForEnqueue_valid hvalid _
    | changed _ d _ hchange =>
      exact hchange.valid_of_queued (h.identified k d hx hchange.live) hqueued

theorem ready_new : new.Ready :=
  ⟨coherent_new, fun _ _ h => (nomatch h), fun _ _ h => (nomatch h)⟩

theorem reorder_ready (order : String → Nat) (h : s.Ready) : (s.reorder order).Ready :=
  ⟨reorder_coherent order h.coherent, fun k d hd => h.identified k d (by simpa using hd),
    fun k d hd => h.queued k d (by simpa using hd)⟩

end Remo.InMemoryMailboxStore

/-! ## Runtime projection of dead letters

A lease expiry drops the runtime projection before it dead-letters a dispatch. A
`deadLetter` and a `nack` that uses up the attempts do not, so they leave
`run_status = Running` on a dead letter when the run was last recorded as
running. This is the only way such a dead letter comes about.
-/

namespace Remo.InMemoryMailboxStore

variable {s : InMemoryMailboxStore}

/-- A dead letter that still projects its abandoned attempt as running. -/
def RunningDeadLetter (d : RunDispatch) : Prop :=
  d.status = .deadLetter ∧ d.runStatus = some .running

/-- No dead letter is projected as running. -/
def DeadLettersSettled (s : InMemoryMailboxStore) : Prop :=
  ∀ k d, s.dispatches.get? k = some d → ¬RunningDeadLetter d

/-- The call is a `deadLetter`, or a `nack` that uses up the attempts, by the
    holder of the claim on `d`. -/
def GivesUp (op : MailboxOp) (d : RunDispatch) : Prop :=
  ∃ claimToken, d.claimToken = some claimToken ∧
    ((∃ error now, op = .deadLetter d.dispatchId claimToken error now) ∨
      (∃ retryAt error now, op = .nack d.dispatchId claimToken retryAt error now ∧
        d.maxAttempts ≤ RunDispatch.saturatingSucc d.attemptCount))

/-- The call gives up a dispatch whose run is recorded as running, and the claim
    is not stale. -/
def AbandonsRunning (s : InMemoryMailboxStore) (op : MailboxOp) : Prop :=
  ∃ k d, s.dispatches.get? k = some d ∧ d.runStatus = some .running ∧
    s.currentEpoch d.threadId ≤ d.dispatchEpoch ∧ GivesUp op d

/-- Only giving up a running dispatch makes a running dead letter of a record that
    was none. -/
theorem Change.of_runningDeadLetter {op : MailboxOp} {d d' : RunDispatch} (h : Change s d op d')
    (hbad : RunningDeadLetter d') :
    d.runStatus = some .running ∧ s.currentEpoch d.threadId ≤ d.dispatchEpoch ∧ GivesUp op d := by
  obtain ⟨hstatus, hrun⟩ := hbad
  cases h with
  | deadLetter token error now _ htoken he =>
    exact ⟨hrun, he, token, htoken, .inl ⟨error, now, rfl⟩⟩
  | nackExhausted token retryAt error now _ htoken he hused =>
    exact ⟨hrun, he, token, htoken, .inr ⟨retryAt, error, now, rfl, hused⟩⟩
  | leaseExhausted => cases hrun
  | recordDispatchStart _ _ _ hclaimed => cases hclaimed.symm.trans hstatus
  | recordRunResult _ _ _ hclaimed => cases hclaimed.symm.trans hstatus
  | extendLease _ _ _ hclaimed => cases hclaimed.symm.trans hstatus
  | _ => cases hstatus

/-- From a store without running dead letters, exactly the calls that give up a
    running dispatch lead to one. -/
theorem step_deadLettersSettled (hs : s.Coherent) (h : s.DeadLettersSettled) (e : MailboxEvent) :
    ¬s.AbandonsRunning e.op ↔ (machine.step s e).2.DeadLettersSettled := by
  constructor
  · intro hok k d' hd' hbad
    have heffect := step_effect hs e k
    rw [hd'] at heffect
    generalize hx : s.dispatches.get? k = x at heffect
    obtain ⟨order, op⟩ := e
    cases heffect with
    | kept => exact h k d' hx hbad
    | admitted d => cases hbad.1
    | changed _ d _ hchange =>
      obtain ⟨hrun, he, hgives⟩ := hchange.of_runningDeadLetter hbad
      exact hok ⟨k, d, hx, hrun, he, hgives⟩
  · rintro hsettled ⟨k, d, hd, hrun, he, token, htoken, hgives⟩
    have hid := hs.keyed k d hd
    have hclaimed : d.status = .claimed := hs.token k d hd (by simp [htoken])
    have howned : holdsToken token d = true := by rw [holdsToken, htoken]; exact beq_self_eq_true _
    have hd' : (s.reorder e.order).dispatches.get? d.dispatchId = some d := by
      rw [reorder_get?, hid, hd]
    obtain ⟨order, op⟩ := e
    rcases hgives with ⟨error, now, rfl⟩ | ⟨retryAt, error, now, rfl, hused⟩
    · have hat : (deadLetter d.dispatchId token error now (s.reorder order)).2.dispatches.get?
          d.dispatchId = some _ := withClaim_get?_of_fresh hd' howned he
      rw [MailboxState.markDeadLetter, expecting_snd, RunDispatch.markDeadLetter,
        RunDispatch.transition_snd _ _ hclaimed] at hat
      exact hsettled d.dispatchId _ hat ⟨rfl, hrun⟩
    · have hat : (nack d.dispatchId token retryAt error now (s.reorder order)).2.dispatches.get?
          d.dispatchId = some _ := withClaim_get?_of_fresh hd' howned he
      rw [MailboxState.markNackResult, expecting_snd, RunDispatch.markNackResult,
        RunDispatch.transition_snd _ _ hclaimed, RunDispatch.writeNack_eq, if_pos hused] at hat
      exact hsettled d.dispatchId _ hat ⟨rfl, hrun⟩

/-- Exactly the runs in which no call gives up a running dispatch stay free of
    dead letters that are projected as running. -/
theorem run_deadLettersSettled (es : List MailboxEvent) :
    machine.Along (fun s e => ¬s.AbandonsRunning e.op) new es ↔
      ∀ pre, pre <+: es → ∀ k d, (machine.run new pre).dispatches.get? k = some d →
        d.status = .deadLetter → d.runStatus ≠ some .running := by
  have hnew : new.DeadLettersSettled := fun _ _ h => nomatch h
  rw [machine.along_iff Coherent DeadLettersSettled _ step_coherent
    (fun s e hs h => step_deadLettersSettled hs h e) coherent_new hnew]
  constructor
  · intro h pre hpre k d hd hstatus hrun
    exact h pre hpre k d hd ⟨hstatus, hrun⟩
  · intro h pre hpre k d hd hbad
    exact h pre hpre k d hd hbad.1 hbad.2

/-- A dispatch that was started and then dead-lettered is still projected as running. -/
theorem deadLetter_keeps_running :
    ¬∀ es k d, (machine.run new es).dispatches.get? k = some d →
      d.status = .deadLetter → d.runStatus ≠ some .running := by
  intro h
  refine h [.inOrder (.enqueue (.queued "d-1" "t" "r-1" 0)),
    .inOrder (.claimDispatch "d-1" "c" 100 0 .token),
    .inOrder (.recordDispatchStart "d-1" "token" "instance-1" 1),
    .inOrder (.deadLetter "d-1" "token" "failed" 2)] "d-1"
    ((((RunDispatch.queued "d-1" "t" "r-1" 0).writeClaimed "c" "token" 100 0).writeDispatchStart
      "instance-1" 1).writeDeadLetter 2 "failed") ?_ ?_ ?_ <;> decide

end Remo.InMemoryMailboxStore
