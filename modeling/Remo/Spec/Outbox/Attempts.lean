import Remo.Spec.Outbox.Fencing

/-!
# The attempts of an outbox message

A claim counts an attempt. The limit is looked at when a delivery is given back, so it bounds the
attempts as long as no claim finds a message with no attempts left whose lease is over.

## Key results

- `call_attempts`: one call counts the attempts it hands out, and keeps them within the limit
- `attemptsBounded_iff`: the runs that stay within the limits
-/

namespace Remo

/-- The message has no attempts left. -/
def OutboxMessage.Spent (message : OutboxMessage) : Prop :=
  message.maxAttempts ≤ message.attemptCount

namespace InMemoryOutboxStore

/-- How many times the steps hand out the message. -/
def handOuts (id : String) (steps : List OutboxStep) : Nat :=
  (steps.flatMap fun t => handedOut t.reply).countP fun message => message.outboxId == id

/-- The steps of a run stay within the limits of the messages. -/
structure AttemptsBounded (steps : List OutboxStep) : Prop where
  handedOut : ∀ t ∈ steps, ∀ id message, t.after.messages.get? id = some message →
    handOuts id steps ≤ message.maxAttempts.toNat
  counted : ∀ t ∈ steps, ∀ id message, t.after.messages.get? id = some message →
    message.attemptCount ≤ message.maxAttempts
  /-- A message without attempts left is not claimable at any claim. -/
  notClaimable : ∀ t ∈ steps, ∀ id message, t.before.messages.get? id = some message →
    message.Spent → ∀ lane target limit leaseMs consumerId now tokens,
      t.event = .claimOutbox lane target limit leaseMs consumerId now tokens →
        isClaimable message lane target now = false
  /-- The last claim of a message ends with its delivery or in the dead letters. -/
  deadLettered : ∀ t ∈ steps, ∀ id message message', t.before.messages.get? id = some message →
    message.Spent → t.after.messages.get? id = some message' →
      message' = message ∨ message'.Terminal

/-- When a claim comes for its lane and target, the lease of a message without attempts left is
    not over. -/
def SpentLeasesHold (s : InMemoryOutboxStore) (op : OutboxOp) : Prop :=
  ∀ id message, s.messages.get? id = some message → message.Spent → message.status = .claimed →
    ∀ limit leaseMs consumerId now tokens,
      op = .claimOutbox message.lane message.target limit leaseMs consumerId now tokens →
        message.availableAt ≤ now → ∀ lease, message.leaseExpiresAt = some lease → now < lease

/-- Messages are within their limits, and a waiting one has an attempt left. -/
def WithinLimits (s : InMemoryOutboxStore) : Prop :=
  ∀ id message, s.messages.get? id = some message →
    message.attemptCount ≤ message.maxAttempts ∧ (message.Spent → message.status ≠ .pending)

/-- The attempts that are counted for the id. -/
def attempts (s : InMemoryOutboxStore) (id : String) : Nat :=
  (s.messages.get? id).elim 0 fun message => message.attemptCount.toNat

/-! ## One call -/

theorem withinLimits_new : new.WithinLimits := by
  intro id message hget
  simp [new] at hget

/-- A new message has an attempt left. -/
theorem fromEnqueue_attempts {id : String} {draft : OutboxMessageDraft} {now : UInt64}
    {message : OutboxMessage} (h : OutboxMessage.fromEnqueue id draft now = .ok message) :
    message.attemptCount = 0 ∧ message.maxAttempts ≠ 0 := by
  simp only [OutboxMessage.fromEnqueue, bind, Except.bind, pure, Except.pure] at h
  cases hvalid : draft.validate with
  | error error => simp [hvalid] at h
  | ok _ =>
    have hmax : draft.maxAttempts ≠ 0 := by
      intro hzero
      have hdraft := hvalid
      simp only [OutboxMessageDraft.validate, bind, Except.bind, pure, Except.pure, hzero,
        if_true, throw, throwThe, MonadExceptOf.throw] at hdraft
      repeat' split at hdraft
      all_goals cases hdraft
    simp only [hvalid] at h
    split at h
    · cases h
    · cases h
      exact ⟨rfl, hmax⟩

/-- A message with an attempt left does not reach the largest count. -/
theorem nextAttempt_toNat {message : OutboxMessage} (h : ¬ message.Spent) :
    (nextAttempt message.attemptCount).toNat = message.attemptCount.toNat + 1 := by
  have hlt : message.attemptCount.toNat < message.maxAttempts.toNat :=
    UInt32.lt_iff_toNat_lt.mp (UInt32.not_le.mp h)
  have hmax := message.maxAttempts.toNat_lt
  have hroom : message.attemptCount.toNat + 1 < 0x100000000 := by omega
  unfold nextAttempt
  rw [if_pos hroom, UInt32.toNat_add]
  show (message.attemptCount.toNat + 1) % 0x100000000 = message.attemptCount.toNat + 1
  omega

/-- A message that is handed out had an attempt left, unless its lease was over. -/
theorem SpentLeasesHold.not_spent {s : InMemoryOutboxStore}
    (hlimits : s.WithinLimits) {lane target : String} {limit leaseMs : UInt64}
    {consumerId : String} {now : UInt64} {tokens : Nat → Uuid}
    (h : s.SpentLeasesHold (.claimOutbox lane target limit leaseMs consumerId now tokens))
    {id : String} {message : OutboxMessage} (hget : s.messages.get? id = some message)
    (hclaimable : isClaimable message lane target now = true) : ¬ message.Spent := by
  intro hspent
  simp only [isClaimable, Bool.and_eq_true, Bool.or_eq_true, beq_iff_eq, decide_eq_true_eq]
    at hclaimable
  obtain ⟨⟨⟨⟨hlane, htarget⟩, hstatus⟩, havailable⟩, hdue⟩ := hclaimable
  have hpending := (hlimits id message hget).2 hspent
  have hclaimed : message.status = .claimed := hstatus.resolve_left hpending
  have hlease := hdue.resolve_left hpending
  cases hl : message.leaseExpiresAt with
  | none => simp [hl] at hlease
  | some lease =>
    have hle : lease ≤ now := by simpa [hl] using hlease
    have hlt := h id message hget hspent hclaimed limit leaseMs consumerId now tokens
      (by rw [hlane, htarget]) havailable lease hl
    exact absurd hlt (UInt64.not_lt.mpr hle)

/-- What a call does to the counted attempts of a message, when no spent lease is over. -/
theorem withinLimits_call {s : InMemoryOutboxStore} (hs : s.WellFormed)
    (hlimits : s.WithinLimits) {op : OutboxOp} (h : s.SpentLeasesHold op) :
    (call op s).2.WithinLimits := by
  intro id message' hget'
  have hchange := messageChange hs op id
  rw [hget'] at hchange
  generalize hget : s.messages.get? id = before at hchange
  cases hchange with
  | kept => exact hlimits id message' hget
  | enqueued draft now _ hmessage =>
    obtain ⟨hzero, hmax⟩ := fromEnqueue_attempts hmessage
    have hpos : 0 < message'.maxAttempts := UInt32.pos_iff_ne_zero.mpr hmax
    constructor
    · rw [hzero]
      exact UInt32.le_of_lt hpos
    · intro hspent
      unfold OutboxMessage.Spent at hspent
      rw [hzero] at hspent
      exact absurd hpos (UInt32.not_lt.mpr hspent)
  | claimed lane target limit leaseMs consumerId now tokens message token messages hclaimable =>
    have hleft := h.not_spent hlimits hget hclaimable
    have hnext := nextAttempt_toNat hleft
    have hlt : message.attemptCount.toNat < message.maxAttempts.toNat :=
      UInt32.lt_iff_toNat_lt.mp (UInt32.not_le.mp hleft)
    constructor
    · show nextAttempt message.attemptCount ≤ message.maxAttempts
      rw [UInt32.le_iff_toNat_le, hnext]
      omega
    · intro _ hpending
      cases hpending
  | acked token now message hclaim =>
    constructor
    · exact (hlimits id message hget).1
    · intro _ hpending
      cases hpending
  | nacked token error retryAt now message hclaim =>
    unfold nackMessage
    dsimp only
    split
    · constructor
      · exact (hlimits id message hget).1
      · intro _ hpending
        cases hpending
    · rename_i hleft
      constructor
      · exact (hlimits id message hget).1
      · intro hspent
        exact absurd hspent hleft

/-- How often a call hands out the message. -/
def handOutsOf (id : String) (reply : Except OutboxFault OutboxReply) : Nat :=
  (handedOut reply).countP fun message => message.outboxId == id

theorem handOutsOf_le_one {s : InMemoryOutboxStore} (hs : s.WellFormed) (op : OutboxOp)
    (id : String) : handOutsOf id (call op s).1 ≤ 1 := by
  have hcount := List.nodup_iff_count_le_one.mp (handedOut_nodup hs op) id
  rw [List.count, List.countP_map] at hcount
  exact hcount

theorem handOutsOf_eq_one {s : InMemoryOutboxStore} (hs : s.WellFormed) {op : OutboxOp}
    {id : String} {message : OutboxMessage} (hmem : message ∈ handedOut (call op s).1)
    (hid : message.outboxId = id) : handOutsOf id (call op s).1 = 1 := by
  have hle := handOutsOf_le_one hs op id
  have hpos : 0 < handOutsOf id (call op s).1 :=
    List.countP_pos_iff.mpr ⟨message, hmem, by simp [hid]⟩
  omega

/-- A claim counts the attempts it hands out. -/
theorem claim_attempts {s : InMemoryOutboxStore} (hs : s.WellFormed) (hlimits : s.WithinLimits)
    {lane target : String} {limit leaseMs : UInt64} {consumerId : String} {now : UInt64}
    {tokens : Nat → Uuid}
    (h : s.SpentLeasesHold (.claimOutbox lane target limit leaseMs consumerId now tokens))
    (id : String) :
    (call (.claimOutbox lane target limit leaseMs consumerId now tokens) s).2.attempts id =
      s.attempts id +
        handOutsOf id (call (.claimOutbox lane target limit leaseMs consumerId now tokens) s).1 := by
  cases claimOutbox_cases lane target limit leaseMs consumerId now tokens s with
  | inl hfailed =>
    obtain ⟨_, hcall⟩ := hfailed
    simp [call, Method.map, hcall, handOutsOf, handedOut, fail, Except.map]
  | inr hok =>
    obtain ⟨claimed, messages, hcall, hclaimed⟩ := hok
    have hreply : handedOut
        (call (.claimOutbox lane target limit leaseMs consumerId now tokens) s).1 = claimed := by
      simp [call, Method.map, hcall, handedOut, Except.map]
    have hafter : (call (.claimOutbox lane target limit leaseMs consumerId now tokens) s).2 =
        { s with messages := messages } := by
      simp [call, Method.map, hcall]
    cases hclaimed.each id with
    | inr hchange =>
      obtain ⟨message', hmem, -, ⟨message, token, hget, hclaimable, heq⟩, hget'⟩ := hchange
      have hid : message'.outboxId = id := by
        rw [heq]
        exact (hs.numbered id message hget).1
      have hone := handOutsOf_eq_one hs (by rw [hreply]; exact hmem) hid
      have hnext := nextAttempt_toNat (h.not_spent hlimits hget hclaimable)
      have hbefore : s.attempts id = message.attemptCount.toNat := by simp [attempts, hget]
      rw [hone, hafter, hbefore, ← hnext]
      show (messages.get? id).elim 0 _ = _
      rw [hget', heq]
      rfl
    | inl hsame =>
      -- a claimed message would have one attempt more than it has
      have hnone : handOutsOf id
          (call (.claimOutbox lane target limit leaseMs consumerId now tokens) s).1 = 0 := by
        rw [handOutsOf, hreply, List.countP_eq_zero]
        intro message' hmem hid
        obtain ⟨k, -, ⟨message, token, hget, hclaimable, heq⟩, hget'⟩ :=
          hclaimed.all message' hmem
        have hk : k = id := by
          rw [← (hs.numbered k message hget).1, ← beq_iff_eq.mp hid, heq]
          rfl
        rw [hk] at hget hget'
        rw [hget', hget] at hsame
        have hnext := nextAttempt_toNat (h.not_spent hlimits hget hclaimable)
        have hcount := congrArg (fun m => m.attemptCount.toNat) (Option.some.inj hsame)
        rw [heq] at hcount
        have hcount' : (nextAttempt message.attemptCount).toNat = message.attemptCount.toNat :=
          hcount
        omega
      rw [hnone, hafter]
      show (messages.get? id).elim 0 _ = _
      rw [hsame]
      rfl

/-- One call counts the attempts it hands out. -/
theorem call_attempts {s : InMemoryOutboxStore} (hs : s.WellFormed) (hlimits : s.WithinLimits)
    {op : OutboxOp} (h : s.SpentLeasesHold op) (id : String) :
    (call op s).2.attempts id = s.attempts id + handOutsOf id (call op s).1 := by
  by_cases hclaim : op.claimedAt = none
  · have hchange := messageChange hs op id
    rw [handOutsOf, handedOut_eq_nil s hclaim]
    unfold attempts
    generalize s.messages.get? id = before at hchange
    generalize (call op s).2.messages.get? id = after at hchange
    cases hchange with
    | kept => rfl
    | enqueued draft now message hmessage =>
      show message.attemptCount.toNat = 0
      rw [(fromEnqueue_attempts hmessage).1]
      rfl
    | claimed => cases hclaim
    | acked => rfl
    | nacked token error retryAt now message =>
      unfold nackMessage
      dsimp only
      split <;> rfl
  · cases op with
    | claimOutbox => exact claim_attempts hs hlimits h id
    | enqueueOutbox => exact absurd rfl hclaim
    | ackOutbox => exact absurd rfl hclaim
    | nackOutbox => exact absurd rfl hclaim
    | listOutbox => exact absurd rfl hclaim

/-! ## Runs -/

/-- The attempts of a run are counted, and the limits kept, when no spent lease is over at a
    claim. -/
theorem run_attempts {s : InMemoryOutboxStore} (hs : s.WellFormed) (hlimits : s.WithinLimits)
    (ops : List OutboxOp) (h : machine.Along SpentLeasesHold s ops) :
    (∀ t ∈ machine.trace s ops, t.before.WithinLimits ∧ t.after.WithinLimits) ∧
      ∀ id, (machine.run s ops).attempts id =
        s.attempts id + handOuts id (machine.trace s ops) := by
  induction ops generalizing s with
  | nil =>
    constructor
    · intro t ht
      exact absurd ht List.not_mem_nil
    · intro id
      rfl
  | cons op ops ih =>
    have hnext := withinLimits_call hs hlimits h.1
    obtain ⟨hsteps, hcount⟩ := ih (hs.call op) hnext h.2
    constructor
    · intro t ht
      cases List.mem_cons.mp ht with
      | inl heq =>
        rw [heq]
        exact ⟨hlimits, hnext⟩
      | inr hmem => exact hsteps t hmem
    · intro id
      have hone := call_attempts hs hlimits h.1 id
      show (machine.run (call op s).2 ops).attempts id = _
      have hsplit : handOuts id (machine.trace s (op :: ops)) =
          handOutsOf id (call op s).1 + handOuts id (machine.trace (call op s).2 ops) := by
        show ((handedOut (call op s).1 ++ _).countP _) = _
        rw [List.countP_append]
        rfl
      have hrest := hcount id
      omega

/-- The limit of a message does not change. -/
theorem maxAttempts_run {s : InMemoryOutboxStore} (hs : s.WellFormed) (ops : List OutboxOp)
    {id : String} {message : OutboxMessage} (hget : s.messages.get? id = some message) :
    ∃ message', (machine.run s ops).messages.get? id = some message' ∧
      message'.maxAttempts = message.maxAttempts := by
  induction ops generalizing s message with
  | nil => exact ⟨message, hget, rfl⟩
  | cons op ops ih =>
    have hchange := messageChange hs op id
    rw [hget] at hchange
    have hone : ∃ next, (call op s).2.messages.get? id = some next ∧
        next.maxAttempts = message.maxAttempts := by
      generalize (call op s).2.messages.get? id = after at hchange
      cases hchange with
      | kept => exact ⟨message, rfl, rfl⟩
      | claimed => exact ⟨_, rfl, rfl⟩
      | acked => exact ⟨_, rfl, rfl⟩
      | nacked token error retryAt now =>
        refine ⟨_, rfl, ?_⟩
        unfold nackMessage
        dsimp only
        split <;> rfl
    obtain ⟨next, hnext, hsame⟩ := hone
    obtain ⟨message', hget', hmax⟩ := ih (hs.call op) hnext
    exact ⟨message', hget', hmax.trans hsame⟩

/-- What a call leaves of a message without attempts. -/
theorem spent_call {s : InMemoryOutboxStore} (hs : s.WellFormed) (hlimits : s.WithinLimits)
    {op : OutboxOp} (h : s.SpentLeasesHold op) {id : String} {message message' : OutboxMessage}
    (hget : s.messages.get? id = some message) (hspent : message.Spent)
    (hget' : (call op s).2.messages.get? id = some message') :
    message' = message ∨ message'.Terminal := by
  have hchange := messageChange hs op id
  rw [hget, hget'] at hchange
  cases hchange with
  | kept => exact .inl rfl
  | claimed lane target limit leaseMs consumerId now tokens _ token messages hclaimable =>
    exact absurd hspent (h.not_spent hlimits hget hclaimable)
  | acked => exact .inr (.inl rfl)
  | nacked token error retryAt now =>
    right
    right
    unfold nackMessage
    dsimp only
    split
    · rfl
    · rename_i hleft
      exact absurd hspent hleft

/-- The attempts of a run are bounded when, and only when, no claim comes for the lane and target
    of a message that has used all its attempts and whose lease is over. -/
theorem attemptsBounded_iff (ops : List OutboxOp) :
    AttemptsBounded (machine.trace new ops) ↔ machine.Along SpentLeasesHold new ops := by
  constructor
  · intro hbounded
    rw [machine.along_iff_trace]
    intro t ht id message hget hspent hclaimed limit leaseMs consumerId now tokens hevent
      havailable lease hlease
    have hnot := hbounded.notClaimable t ht id message hget hspent _ _ _ _ _ _ _ hevent
    apply UInt64.not_le.mp
    intro hle
    simp [isClaimable, hclaimed, havailable, hlease, hle] at hnot
  · intro hhold
    obtain ⟨hsteps, hcount⟩ := run_attempts wellFormed_new withinLimits_new ops hhold
    obtain ⟨hruns, -⟩ := trace_later wellFormed_new ops
    have hholds := (machine.along_iff_trace SpentLeasesHold new ops).mp hhold
    constructor
    · intro t ht id message hget
      -- the limit is the one that the message has at the end
      obtain ⟨pre, post, hops, hbefore, -, hafter⟩ := machine.mem_trace ht
      have hwell := (hruns t ht).1.call t.event
      rw [← (hruns t ht).2.2] at hwell
      obtain ⟨last, hlast, hmax⟩ := maxAttempts_run hwell post hget
      have hend : machine.run new ops = machine.run t.after post := by
        rw [hops, machine.run_append, ← hbefore, hafter]
        rfl
      have htotal := hcount id
      rw [hend, attempts, hlast] at htotal
      have hlimits := machine.run_invariant_along
        (fun s => s.WellFormed ∧ s.WithinLimits) SpentLeasesHold
        (fun s op hs hop => ⟨hs.1.call op, withinLimits_call hs.1 hs.2 hop⟩)
        ⟨wellFormed_new, withinLimits_new⟩ ops hhold
      rw [hend] at hlimits
      have hfinal := (hlimits.2 id last hlast).1
      rw [hmax, UInt32.le_iff_toNat_le] at hfinal
      have hzero : new.attempts id = 0 := rfl
      simp only [Option.elim_some] at htotal
      omega
    · intro t ht id message hget
      exact ((hsteps t ht).2 id message hget).1
    · intro t ht id message hget hspent lane target limit leaseMs consumerId now tokens hevent
      have hhold := hholds t ht
      rw [hevent] at hhold
      rw [Bool.eq_false_iff]
      intro hclaimable
      exact hhold.not_spent (hsteps t ht).1 hget hclaimable hspent
    · intro t ht id message message' hget hspent hget'
      rw [(hruns t ht).2.2] at hget'
      exact spent_call (hruns t ht).1 (hsteps t ht).1 (hholds t ht) hget hspent hget'

/-- The only attempt of a message is used by a consumer that crashes. -/
def crashedConsumer : List OutboxOp :=
  [.enqueueOutbox ⟨"canonical", "projector", ⟨"1"⟩, none, 0, 1⟩ 0,
    .claimOutbox "canonical" "projector" 1 10 "relay-a" 0 fun _ => .firstToken,
    .claimOutbox "canonical" "projector" 1 10 "relay-b" 20 fun _ => .secondToken]

/-- The message is handed out again when the lease is over, past its limit. -/
theorem crashedConsumer_exceedsLimit : ¬ AttemptsBounded (machine.trace new crashedConsumer) := by
  intro hbounded
  have htwice : handOuts "out_mem_1" (machine.trace new crashedConsumer) = 2 := by decide +kernel
  have honce : ((machine.run new crashedConsumer).messages.get? "out_mem_1").map
      OutboxMessage.maxAttempts = some 1 := by decide +kernel
  obtain ⟨message, hget, hmax⟩ := Option.map_eq_some_iff.mp honce
  have hlast := machine.last_mem_trace new (crashedConsumer.take 2)
    (.claimOutbox "canonical" "projector" 1 10 "relay-b" 20 fun _ => .secondToken)
  have hle := hbounded.handedOut _ hlast "out_mem_1" message hget
  rw [htwice, hmax] at hle
  exact absurd hle (by decide)

end InMemoryOutboxStore

end Remo
