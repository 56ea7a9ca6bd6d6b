import Remo.Spec.Mailbox.Replies

/-!
# Transitions the store expects to succeed

The in-memory store panics when a transition it relies on leaves an invalid
record. Admission accepts a dispatch whose attempt count has already reached
`max_attempts`; counting one more attempt for it leaves the budget, and the next
nack or lease expiry panics. When every admitted dispatch has an attempt left,
every stored record stays valid and no such transition fails.
-/

namespace Remo.InMemoryMailboxStore

open Method (Avoids)

variable {s : InMemoryMailboxStore}

/-- The store is coherent, its records are valid, and every live record has an
    attempt left. -/
structure Sound (s : InMemoryMailboxStore) : Prop where
  coherent : s.Coherent
  valid : ∀ k d, s.dispatches.get? k = some d → d.Valid
  budget : ∀ k d, s.dispatches.get? k = some d → d.status.isTerminal = false → d.HasAttemptLeft

/-- The call claims for a consumer with a name. -/
def NamesConsumer (op : MailboxOp) : Prop :=
  ∀ consumerId, op.consumer = some consumerId → Str.isBlank consumerId = false

/-- The call admits no dispatch that has used up its attempts. -/
def AdmitsWithAttemptLeft (op : MailboxOp) : Prop :=
  ∀ d, op = .enqueue d → d.validateForEnqueue = .ok () → d.HasAttemptLeft

/-! ## Soundness is kept -/

theorem Change.valid {op : MailboxOp} {d d' : RunDispatch} (h : Change s d op d')
    (hd : d.Valid) (hleft : d.HasAttemptLeft) (hop : NamesConsumer op) : d'.Valid := by
  cases h with
  | claim consumerId _ _ _ token =>
    exact RunDispatch.writeClaimed_valid hd (hop consumerId rfl) token.notBlank _ _
  | claimDispatch consumerId _ _ token =>
    exact RunDispatch.writeClaimed_valid hd (hop consumerId rfl) token.notBlank _ _
  | superseded => exact RunDispatch.writeSupersededAtEpoch_valid hd.identified _ _ _
  | ack => exact RunDispatch.writeAcked_valid hd.identified _
  | recordDispatchStart _ _ _ hclaimed => exact RunDispatch.writeDispatchStart_valid hd hclaimed _ _
  | recordRunResult _ _ _ hclaimed => exact RunDispatch.writeRunResult_valid hd hclaimed _ _
  | nackRequeued _ retryAt error now _ _ _ hlt =>
    have hvalid := (RunDispatch.writeNack_valid_iff hd.identified now retryAt error).mpr hleft
    rwa [RunDispatch.writeNack_eq, if_neg (UInt32.not_le.mpr hlt)] at hvalid
  | nackExhausted _ retryAt error now _ _ _ hused =>
    have hvalid := (RunDispatch.writeNack_valid_iff hd.identified now retryAt error).mpr hleft
    rwa [RunDispatch.writeNack_eq, if_pos hused] at hvalid
  | deadLetter => exact RunDispatch.writeDeadLetter_valid hd.identified _ _
  | extendLease _ _ _ hclaimed => exact RunDispatch.writeLeaseExtension_valid hd hclaimed _ _
  | cancel => exact RunDispatch.writeCancelled_valid hd.identified _
  | interrupted => exact RunDispatch.writeSuperseded_valid hd.identified _ _
  | supersedeClaimed => exact RunDispatch.writeSupersededAtEpoch_valid hd.identified _ _ _
  | leaseRequeued now _ _ _ _ _ _ hlt =>
    have hvalid := (RunDispatch.writeExpiredLease_valid_iff hd.identified now
      MailboxState.reasonLeaseExpiredMaxAttempts).mpr hleft
    rwa [RunDispatch.writeExpiredLease_eq, if_neg (UInt32.not_le.mpr hlt)] at hvalid
  | leaseExhausted now _ _ _ _ _ _ hused =>
    have hvalid := (RunDispatch.writeExpiredLease_valid_iff hd.identified now
      MailboxState.reasonLeaseExpiredMaxAttempts).mpr hleft
    rwa [RunDispatch.writeExpiredLease_eq, if_pos hused] at hvalid

theorem Change.hasAttemptLeft {op : MailboxOp} {d d' : RunDispatch} (h : Change s d op d')
    (hleft : d.HasAttemptLeft) (hlive : d'.status.isTerminal = false) : d'.HasAttemptLeft := by
  cases h with
  | nackRequeued _ _ _ _ _ _ _ hlt => exact .inl hlt
  | leaseRequeued _ _ _ _ _ _ _ hlt => exact .inl hlt
  | nackExhausted | leaseExhausted => cases hlive
  | _ => exact hleft

theorem step_sound {e : MailboxEvent} (h : s.Sound) (hconsumer : NamesConsumer e.op)
    (hadmits : AdmitsWithAttemptLeft e.op) : (machine.step s e).2.Sound := by
  refine ⟨step_coherent s e h.coherent, fun k d' hd' => ?_, fun k d' hd' hlive => ?_⟩
  all_goals
    have heffect := step_effect h.coherent e k
    rw [hd'] at heffect
    generalize hx : s.dispatches.get? k = x at heffect
    obtain ⟨order, op⟩ := e
  · cases heffect with
    | kept => exact h.valid k d' hx
    | admitted d _ hvalid => exact RunDispatch.prepareForEnqueue_valid hvalid _
    | changed _ d _ hchange =>
      exact hchange.valid (h.valid k d hx) (h.budget k d hx hchange.live) hconsumer
  · cases heffect with
    | kept => exact h.budget k d' hx hlive
    | admitted d _ hvalid hqueued =>
      exact hadmits d rfl (RunDispatch.validateForEnqueue_ok.mpr ⟨hvalid, hqueued⟩)
    | changed _ d _ hchange => exact hchange.hasAttemptLeft (h.budget k d hx hchange.live) hlive

theorem sound_new : new.Sound :=
  ⟨coherent_new, fun _ _ h => (nomatch h), fun _ _ h => (nomatch h)⟩

theorem reorder_sound (order : String → Nat) (h : s.Sound) : (s.reorder order).Sound :=
  ⟨reorder_coherent order h.coherent, fun k d hd => h.valid k d (by simpa using hd),
    fun k d hd => h.budget k d (by simpa using hd)⟩

/-! ## No transition fails -/

/-- The call did not panic in an `expect`. -/
abbrev NoExpectFailure {α : Type} (r : Outcome α) : Prop :=
  Avoids (fun f => f.isExpectFailure = true) r

theorem NoExpectFailure.expectFailed {α : Type} {r : Outcome α} (h : NoExpectFailure r) :
    r.expectFailed = false := by
  cases r with
  | ok a => rfl
  | error f => simpa [Outcome.expectFailed] using h f rfl

theorem noExpectFailure_fail {α : Type} (e : StorageError) :
    NoExpectFailure (Outcome.fail e : Outcome α) :=
  Method.avoids_error nofun

theorem noExpectFailure_ofResult {α : Type} (r : Except StorageError α) :
    NoExpectFailure (Outcome.ofResult r) := by
  cases r with
  | error e => exact Method.avoids_error (by simp [Fault.isExpectFailure])
  | ok a => exact Method.avoids_ok _ a

theorem noExpectFailure_addU64 (a b : UInt64) : NoExpectFailure (Outcome.addU64 a b) := by
  unfold Outcome.addU64
  split
  · exact Method.avoids_ok _ _
  · exact Method.avoids_error (by simp [Fault.isExpectFailure])

/-- A transition expected to succeed succeeds when the record it writes is valid. -/
theorem noExpectFailure_transition {expected : RunDispatchStatus} (message name : String)
    {write : RunDispatch → RunDispatch} {d : RunDispatch} (h : d.status = expected)
    (hv : (write d).Valid) :
    NoExpectFailure
      (MailboxState.expecting message (RunDispatch.transition expected name write) d).1 := by
  rw [expecting_transition_ok message name h hv]
  exact Method.avoids_ok _ _

theorem noExpectFailure_markSupersededAtEpoch {d : RunDispatch} (hd : d.Identified)
    (hlive : d.status.isTerminal = false) (now epoch : UInt64) (reason : Option String) :
    NoExpectFailure (MailboxState.markSupersededAtEpoch now epoch reason d).1 := by
  rw [markSupersededAtEpoch_ok hd hlive]
  exact Method.avoids_ok _ _

/-- A call on one dispatch does not panic when its method does not. -/
theorem noExpectFailure_withDispatch {α : Type} {dispatchId : String} {missing : Outcome α}
    {f : InMemoryMailboxStore → Method Fault RunDispatch α} (hmissing : NoExpectFailure missing)
    (hf : ∀ d, s.dispatches.get? dispatchId = some d → NoExpectFailure (f s d).1) :
    NoExpectFailure (withDispatch dispatchId missing f s).1 := by
  cases hd : s.dispatches.get? dispatchId with
  | none => simpa [withDispatch, hd] using hmissing
  | some d => simpa [withDispatch, hd] using hf d hd

/-- A claim holder's call does not panic when its transition does not. -/
theorem noExpectFailure_withClaim {α : Type} {dispatchId claimToken : String}
    {missing rejected : Outcome α} {stale : UInt64 → UInt64 → Outcome α}
    {owns : RunDispatch → Bool} {now : UInt64} {reason : String}
    {transition : Method Fault RunDispatch α} (h : s.Sound)
    (howns : ∀ d, owns d = true → d.claimToken = some claimToken)
    (hmissing : NoExpectFailure missing) (hrejected : NoExpectFailure rejected)
    (hstale : ∀ e e', NoExpectFailure (stale e e'))
    (htrans : ∀ d, d.Valid → d.HasAttemptLeft → d.status = .claimed →
      NoExpectFailure (transition d).1) :
    NoExpectFailure
      (withClaim dispatchId missing rejected stale owns now reason transition s).1 := by
  refine noExpectFailure_withDispatch hmissing fun d hd => ?_
  by_cases howned : owns d = true
  · have hclaimed : d.status = .claimed := h.coherent.token _ d hd (by simp [howns d howned])
    have hlive : d.status.isTerminal = false := by rw [hclaimed]; rfl
    have hvalid := h.valid _ d hd
    simp only [howned, Bool.not_true, Bool.false_eq_true, if_false]
    split
    · exact Method.avoids_bind
        (noExpectFailure_markSupersededAtEpoch hvalid.identified hlive _ _ _)
        fun _ _ _ => hstale _ _
    · exact htrans d hvalid (h.budget _ d hd hlive) hclaimed
  · simpa [howned] using hrejected

theorem noExpectFailure_claimRecord (consumerId : String) (leaseMs now : UInt64) (token : Uuid)
    (d : RunDispatch) : NoExpectFailure (claimRecord consumerId leaseMs now token d).1 := by
  unfold claimRecord
  have hadd := noExpectFailure_addU64 now leaseMs
  cases hr : Outcome.addU64 now leaseMs with
  | error f => exact Method.avoids_error (hadd f hr)
  | ok leaseUntil =>
    exact Method.avoids_map (f := fun _ => (d.claim consumerId token.text leaseUntil now).2)
      (x := fun _ : Unit => (Outcome.ofResult (d.claim consumerId token.text leaseUntil now).1, ()))
      (s := ()) (noExpectFailure_ofResult _)

theorem noExpectFailure_claim (h : s.Sound) (threadId consumerId : String)
    (leaseMs now limit : UInt64) (token : Uuid) :
    NoExpectFailure (claim threadId consumerId leaseMs now limit token s).1 := by
  refine Method.avoids_bind ?_ fun bs s₁ hr => ?_
  · refine forEach_withDispatch_avoids _ (f := fun _ _ => supersedeIfStale threadId now _)
      s.dispatches.nodup_keys (fun _ _ _ => Method.avoids_ok _ _) fun k _ _ d hd => ?_
    unfold supersedeIfStale
    split
    · rename_i hcond
      simp only [Bool.and_eq_true, beq_iff_eq, decide_eq_true_eq] at hcond
      have hlive : d.status.isTerminal = false := by rw [hcond.1.2]; rfl
      exact noExpectFailure_markSupersededAtEpoch (h.valid k d hd).identified hlive _ _ _
    · exact Method.avoids_ok _ _
  · split
    · exact Method.avoids_ok _ _
    · exact forEach_withDispatch_avoids _
        (f := fun _ _ => claimRecord consumerId leaseMs now token)
        (nodup_eligibleIds _ _ _ _) (fun _ _ _ => noExpectFailure_fail _)
        fun _ _ _ d _ => noExpectFailure_claimRecord _ _ _ _ d

theorem noExpectFailure_claimDispatch (h : s.Sound) (dispatchId consumerId : String)
    (leaseMs now : UInt64) (token : Uuid) :
    NoExpectFailure (claimDispatch dispatchId consumerId leaseMs now token s).1 := by
  refine noExpectFailure_withDispatch (Method.avoids_ok _ _) fun d hd => ?_
  by_cases hqueued : d.status = .queued
  · have hlive : d.status.isTerminal = false := by rw [hqueued]; rfl
    simp only [hqueued, ne_eq, not_true_eq_false, if_false]
    split
    · exact Method.avoids_map
        (noExpectFailure_markSupersededAtEpoch (h.valid _ d hd).identified hlive _ _ _)
    · split
      · exact Method.avoids_ok _ _
      · exact Method.avoids_map (noExpectFailure_claimRecord _ _ _ _ d)
  · simp only [hqueued, ne_eq, not_false_eq_true, if_true]
    exact Method.avoids_ok _ _

theorem noExpectFailure_interruptDetailed (h : s.Sound) (threadId : String) (now : UInt64) :
    NoExpectFailure (interruptDetailed threadId now s).1 := by
  unfold interruptDetailed
  simp only [currentEpoch_orInsert]
  have hadd := noExpectFailure_addU64 (s.currentEpoch threadId) 1
  cases hr : Outcome.addU64 (s.currentEpoch threadId) 1 with
  | error f => exact Method.avoids_error (hadd f hr)
  | ok newDispatchEpoch =>
    refine Method.avoids_map (forEach_withDispatch_avoids _
      (f := fun _ _ => interruptVisit threadId now (s.currentEpoch threadId))
      s.dispatches.nodup_keys (fun _ _ _ => Method.avoids_ok _ _) fun k _ _ d hd => ?_)
    unfold interruptVisit
    split
    · exact Method.avoids_ok _ _
    · split
      · rename_i hqueued
        have hvalid := RunDispatch.writeSuperseded_valid (h.valid k d hd).identified now
          (some MailboxState.reasonQueuedSupersededByInterrupt)
        exact Method.avoids_bind (noExpectFailure_transition _ "supersede" hqueued.1 hvalid)
          fun _ _ _ => Method.avoids_ok _ _
      · split <;> exact Method.avoids_ok _ _

theorem noExpectFailure_reclaimExpiredLeases (h : s.Sound) (now limit : UInt64) :
    NoExpectFailure (reclaimExpiredLeases now limit s).1 := by
  refine Method.avoids_map (forEach_withDispatch_avoids _
    (f := fun _ s d => reclaimRecord now (s.currentEpoch d.threadId) d)
    (nodup_expiredIds h.coherent _ _) (fun _ _ _ => noExpectFailure_fail _)
    fun k hk s₁ d hd => ?_)
  obtain ⟨d', _, hd', hclaimed, -, -⟩ := mem_expiredIds h.coherent hk
  cases Option.some.inj (hd.symm.trans hd')
  have hlive : d.status.isTerminal = false := by rw [hclaimed]; rfl
  have hid := (h.valid k d hd).identified
  unfold reclaimRecord
  split
  · exact Method.avoids_map (noExpectFailure_markSupersededAtEpoch hid hlive _ _ _)
  · have hvalid := (RunDispatch.writeExpiredLease_valid_iff hid now
      MailboxState.reasonLeaseExpiredMaxAttempts).mpr (h.budget k d hd hlive)
    exact Method.avoids_bind (noExpectFailure_transition _ "lease expiration" hclaimed hvalid)
      fun _ _ _ => Method.avoids_ok _ _

/-- No call on a sound store panics in an `expect`. -/
theorem call_noExpectFailure (h : s.Sound) (op : MailboxOp) : NoExpectFailure (call op s).1 := by
  cases op with
  | enqueue dispatch =>
    refine Method.avoids_map ?_
    unfold enqueue
    split
    · exact noExpectFailure_fail _
    · split
      · exact noExpectFailure_fail _
      · dsimp only
        split
        · exact noExpectFailure_fail _
        · exact Method.avoids_ok _ _
  | claim threadId consumerId leaseMs now limit token =>
    exact Method.avoids_map (noExpectFailure_claim h threadId consumerId leaseMs now limit token)
  | claimDispatch dispatchId consumerId leaseMs now token =>
    exact Method.avoids_map
      (noExpectFailure_claimDispatch h dispatchId consumerId leaseMs now token)
  | ack dispatchId claimToken now =>
    exact Method.avoids_map (noExpectFailure_withClaim h (fun d => claimToken_of_holdsToken)
      (noExpectFailure_fail _) (noExpectFailure_fail _) (fun _ _ => noExpectFailure_fail _)
      fun d hv _ hclaimed => noExpectFailure_transition _ "ack" hclaimed
        (RunDispatch.writeAcked_valid hv.identified now))
  | recordDispatchStart dispatchId claimToken dispatchInstanceId now =>
    exact Method.avoids_map (noExpectFailure_withClaim h (fun d => claimToken_of_holdsClaim)
      (noExpectFailure_fail _) (noExpectFailure_fail _) (fun _ _ => noExpectFailure_fail _)
      fun d _ _ _ => noExpectFailure_ofResult _)
  | recordRunResult dispatchId claimToken result now =>
    exact Method.avoids_map (noExpectFailure_withClaim h (fun d => claimToken_of_holdsClaim)
      (noExpectFailure_fail _) (noExpectFailure_fail _) (fun _ _ => noExpectFailure_fail _)
      fun d _ _ _ => noExpectFailure_ofResult _)
  | nack dispatchId claimToken retryAt error now =>
    exact Method.avoids_map (noExpectFailure_withClaim h (fun d => claimToken_of_holdsToken)
      (noExpectFailure_fail _) (noExpectFailure_fail _) (fun _ _ => noExpectFailure_fail _)
      fun d hv hleft hclaimed => noExpectFailure_transition _ "nack" hclaimed
        ((RunDispatch.writeNack_valid_iff hv.identified now retryAt error).mpr hleft))
  | deadLetter dispatchId claimToken error now =>
    exact Method.avoids_map (noExpectFailure_withClaim h (fun d => claimToken_of_holdsToken)
      (noExpectFailure_fail _) (noExpectFailure_fail _) (fun _ _ => noExpectFailure_fail _)
      fun d hv _ hclaimed => noExpectFailure_transition _ "dead letter" hclaimed
        (RunDispatch.writeDeadLetter_valid hv.identified now error))
  | cancel dispatchId now =>
    refine Method.avoids_map (noExpectFailure_withDispatch (Method.avoids_ok _ _) fun d hd => ?_)
    split
    · exact Method.avoids_ok _ _
    · rename_i hqueued
      exact Method.avoids_bind (noExpectFailure_transition _ "cancel" (not_not.mp hqueued)
        (RunDispatch.writeCancelled_valid (h.valid _ d hd).identified now))
        fun _ _ _ => Method.avoids_ok _ _
  | extendLease dispatchId claimToken extensionMs now =>
    refine Method.avoids_map (noExpectFailure_withClaim h (fun d => claimToken_of_holdsClaim)
      (Method.avoids_ok _ _) (Method.avoids_ok _ _) (fun _ _ => Method.avoids_ok _ _)
      fun d _ _ _ => ?_)
    have hadd := noExpectFailure_addU64 now extensionMs
    cases hr : Outcome.addU64 now extensionMs with
    | error f => exact Method.avoids_error (hadd f hr)
    | ok leaseUntil =>
      exact Method.avoids_map (f := fun _ => true)
        (x := fun _ : Unit => (Outcome.ofResult (d.extendLease leaseUntil now).1, ())) (s := ())
        (noExpectFailure_ofResult _)
  | interrupt threadId now =>
    exact Method.avoids_map (Method.avoids_map (noExpectFailure_interruptDetailed h threadId now))
  | interruptDetailed threadId now =>
    exact Method.avoids_map (noExpectFailure_interruptDetailed h threadId now)
  | supersedeClaimed dispatchId claimToken now reason =>
    refine Method.avoids_map (noExpectFailure_withDispatch (Method.avoids_ok _ _) fun d hd => ?_)
    split
    · exact Method.avoids_ok _ _
    · rename_i hclaimed
      split
      · exact noExpectFailure_fail _
      · have hlive : d.status.isTerminal = false := by rw [not_not.mp hclaimed]; rfl
        exact Method.avoids_bind
          (noExpectFailure_markSupersededAtEpoch (h.valid _ d hd).identified hlive _ _ _)
          fun _ _ _ => Method.avoids_ok _ _
  | reclaimExpiredLeases now limit =>
    exact Method.avoids_map (noExpectFailure_reclaimExpiredLeases h now limit)
  | purgeTerminal | currentDispatchEpoch | loadDispatch | listDispatches
  | countDispatchesByStatus | listTerminalDispatches | queuedThreadIds => exact Method.avoids_ok _ _

/-! ## Which dispatches are safe to admit -/

/-- In a run that claims for named consumers and admits no dispatch without an
    attempt left, no `expect` fails and every stored record passes its check. -/
theorem run_expect_safe (es : List MailboxEvent) (hconsumer : ∀ e ∈ es, NamesConsumer e.op)
    (hadmits : ∀ e ∈ es, AdmitsWithAttemptLeft e.op) :
    (∀ t ∈ machine.trace new es, t.reply.expectFailed = false) ∧
      ∀ k d, (machine.run new es).dispatches.get? k = some d → d.validateForPersist = .ok () := by
  have hok : machine.Along (fun _ e => NamesConsumer e.op ∧ AdmitsWithAttemptLeft e.op) new es :=
    machine.along_of_forall new fun e he => ⟨hconsumer e he, hadmits e he⟩
  constructor
  · exact machine.trace_forall Sound _ (fun t => t.reply.expectFailed = false)
      (fun s e h hop => step_sound h hop.1 hop.2)
      (fun s e h _ => (call_noExpectFailure (reorder_sound e.order h) e.op).expectFailed)
      sound_new es hok
  · have hsound := machine.run_invariant_along Sound _
      (fun s e h hop => step_sound h hop.1 hop.2) sound_new es hok
    exact fun k d hd => RunDispatch.validateForPersist_ok.mpr (hsound.valid k d hd)

/-- The run that exhausts a dispatch: enqueue it, claim it, nack it. -/
def exhaustingRun (d : RunDispatch) : List MailboxEvent :=
  [.inOrder (.enqueue d), .inOrder (.claimDispatch d.dispatchId "c" 0 0 .token),
    .inOrder (.nack d.dispatchId "token" 0 "failed" 0)]

/-- An admitted dispatch can be claimed from a store that holds nothing else. -/
theorem claimDispatch_get?_of_alone {dispatchId : String} {d : RunDispatch}
    (hd : s.dispatches.get? dispatchId = some d)
    (halone : ∀ k d', s.dispatches.get? k = some d' → d'.status = .queued)
    (hepoch : s.currentEpoch d.threadId ≤ d.dispatchEpoch) (consumerId : String) (token : Uuid) :
    (claimDispatch dispatchId consumerId 0 0 token s).2.dispatches.get? dispatchId =
      some (d.writeClaimed consumerId token.text 0 0) := by
  have hqueued := halone _ d hd
  have hother : s.hasOtherClaimed d.threadId dispatchId = false := by
    rw [hasOtherClaimed, ← Bool.not_eq_true, AssocMap.any_values]
    rintro ⟨k, d', hd', hcond⟩
    simp [halone k d' hd'] at hcond
  have hadd : Outcome.addU64 0 0 = .ok 0 := rfl
  rw [claimDispatch, withDispatch_get?, if_pos rfl, hd, Option.map_some]
  simp only [hqueued, ne_eq, not_true_eq_false, if_false, UInt64.not_lt.mpr hepoch, hother,
    Bool.false_eq_true, Method.map_snd, claimRecord, hadd, RunDispatch.claim,
    RunDispatch.transition_snd _ _ hqueued]

/-- What the enqueue of a run's first dispatch leaves. -/
theorem enqueue_new {d : RunDispatch} (hok : d.validateForEnqueue = .ok ()) :
    (machine.step new (.inOrder (.enqueue d))).2.dispatches.get? d.dispatchId =
        some (d.prepareForEnqueue 0) ∧
      (machine.step new (.inOrder (.enqueue d))).2.currentEpoch d.threadId = 0 ∧
      ∀ k d', (machine.step new (.inOrder (.enqueue d))).2.dispatches.get? k = some d' →
        d'.status = .queued := by
  have hvalid := (RunDispatch.validateForEnqueue_ok.mp hok).1
  have hstep : (machine.step new (.inOrder (.enqueue d))).2 =
      (enqueue d (new.reorder fun _ => 0)).2 := by
    simp only [machine, call, Method.map_snd, MailboxEvent.inOrder]
  have haccepted : (enqueue d (new.reorder fun _ => 0)).1 = .ok () := by
    have hdup : (new.reorder fun _ => 0).hasDuplicate d = false := by
      unfold hasDuplicate
      split <;> rfl
    unfold enqueue
    simp only [hok, hdup, Bool.false_eq_true, if_false, currentEpoch_orInsert,
      RunDispatch.validateForPersist_ok.mpr (RunDispatch.prepareForEnqueue_valid hvalid _)]
  refine ⟨?_, ?_, fun k d' hd' => ?_⟩
  · rw [hstep]
    exact (enqueue_ok haccepted).2
  · rw [hstep, enqueue_currentEpoch]
    rfl
  · have heffect := step_effect coherent_new (.inOrder (.enqueue d)) k
    have hnone : new.dispatches.get? k = none := rfl
    rw [hd', hnone] at heffect
    cases heffect with
    | admitted => rfl

/-- A dispatch that is admitted without an attempt left is stored invalid by the
    run that exhausts it. -/
theorem exhaustingRun_invalid {d : RunDispatch} (hok : d.validateForEnqueue = .ok ())
    (hleft : ¬d.HasAttemptLeft) :
    ∃ d', (machine.run new (exhaustingRun d)).dispatches.get? d.dispatchId = some d' ∧
      ¬d'.Valid := by
  have hvalid := (RunDispatch.validateForEnqueue_ok.mp hok).1
  obtain ⟨hget₁, hepoch₁, hqueued₁⟩ := enqueue_new hok
  simp only [exhaustingRun, Machine.run]
  generalize (machine.step new (.inOrder (.enqueue d))).2 = s₁ at hget₁ hepoch₁ hqueued₁ ⊢
  -- the claim
  have hget₂ := claimDispatch_get?_of_alone (s := s₁.reorder fun _ => 0)
    (d := d.prepareForEnqueue 0) (by simpa using hget₁)
    (fun k d' hd' => hqueued₁ k d' (by simpa using hd')) (UInt64.le_of_eq hepoch₁) "c"
    .token
  have hepoch₂ : (claimDispatch d.dispatchId "c" 0 0 .token
      (s₁.reorder fun _ => 0)).2.currentEpoch d.threadId = 0 :=
    (currentEpoch_congr (withDispatch_state _ _ _ _) d.threadId).trans hepoch₁
  simp only [machine, call, Method.map_snd, MailboxEvent.inOrder]
  generalize (claimDispatch d.dispatchId "c" 0 0 .token
    (s₁.reorder fun _ => 0)).2 = s₂ at hget₂ hepoch₂ ⊢
  -- the nack counts an attempt the budget does not have
  have hheld : (s₂.reorder fun _ => 0).dispatches.get? d.dispatchId =
      some ((d.prepareForEnqueue 0).writeClaimed "c" "token" 0 0) := (reorder_get? _ _ _).trans hget₂
  have hget₃ : (nack d.dispatchId "token" 0 "failed" 0
      (s₂.reorder fun _ => 0)).2.dispatches.get? d.dispatchId = some (MailboxState.markNackResult
        0 0 "failed" ((d.prepareForEnqueue 0).writeClaimed "c" "token" 0 0)).2 :=
    withClaim_get?_of_fresh hheld rfl (UInt64.le_of_eq hepoch₂)
  refine ⟨_, hget₃, ?_⟩
  have hclaimed : ((d.prepareForEnqueue 0).writeClaimed "c" "token" 0 0).status = .claimed := rfl
  rw [MailboxState.markNackResult, expecting_snd, RunDispatch.markNackResult,
    RunDispatch.transition_snd _ _ hclaimed]
  have hid : ((d.prepareForEnqueue 0).writeClaimed "c" "token" 0 0).Identified :=
    hvalid.identified.congr rfl rfl rfl rfl rfl
  exact fun h => hleft ((RunDispatch.writeNack_valid_iff hid 0 0 "failed").mp h)

/-- Admitting dispatches of a kind is safe exactly when every accepted one of them
    has an attempt left: then, and only then, no run that claims for named
    consumers fails an `expect` or stores a record that fails its check. -/
theorem expect_safe_iff (admitted : RunDispatch → Prop) :
    (∀ es, (∀ e ∈ es, NamesConsumer e.op) → (∀ e ∈ es, ∀ d, e.op = .enqueue d → admitted d) →
      (∀ t ∈ machine.trace new es, t.reply.expectFailed = false) ∧
        ∀ k d, (machine.run new es).dispatches.get? k = some d → d.validateForPersist = .ok ()) ↔
    ∀ d, admitted d → d.validateForEnqueue = .ok () → d.HasAttemptLeft := by
  constructor
  · intro hsafe d hadmitted hok
    by_contra hleft
    obtain ⟨d', hd', hinvalid⟩ := exhaustingRun_invalid hok hleft
    have hconsumer : ∀ e ∈ exhaustingRun d, NamesConsumer e.op := by
      simp only [exhaustingRun, List.mem_cons, List.not_mem_nil, or_false, MailboxEvent.inOrder]
      rintro e (rfl | rfl | rfl) consumerId hc
      · cases hc
      · cases hc; decide
      · cases hc
    have honly : ∀ e ∈ exhaustingRun d, ∀ d₁, e.op = .enqueue d₁ → admitted d₁ := by
      simp only [exhaustingRun, List.mem_cons, List.not_mem_nil, or_false, MailboxEvent.inOrder]
      rintro e (rfl | rfl | rfl) d₁ hop
      · cases hop; exact hadmitted
      · cases hop
      · cases hop
    have hvalid := (hsafe (exhaustingRun d) hconsumer honly).2 d.dispatchId d' hd'
    exact hinvalid (RunDispatch.validateForPersist_ok.mp hvalid)
  · intro hleft es hconsumer honly
    exact run_expect_safe es hconsumer fun e he d hop hok => hleft d (honly e he d hop) hok

/-- A dispatch that is admitted with its attempts used up makes a nack panic. -/
theorem nack_panics_at_attempt_limit :
    ¬∀ es, (∀ e ∈ es, NamesConsumer e.op) →
      ∀ t ∈ machine.trace new es, t.reply.expectFailed = false := by
  intro h
  have hreply := h (exhaustingRun { RunDispatch.queued "d-1" "t" "r-1" 0 with attemptCount := 5 })
    (by
      simp only [exhaustingRun, List.mem_cons, List.not_mem_nil, or_false, MailboxEvent.inOrder]
      rintro e (rfl | rfl | rfl) consumerId hc
      · cases hc
      · cases hc; decide
      · cases hc) _ (List.mem_cons_of_mem _ (List.mem_cons_of_mem _ List.mem_cons_self))
  revert hreply
  decide

end Remo.InMemoryMailboxStore
