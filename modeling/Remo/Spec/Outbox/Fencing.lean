import Remo.Spec.Outbox.OutboxSteps

/-!
# Fencing of outbox claims

A message is claimed under one token at a time. A consumer that lost its claim can neither
acknowledge the message nor give it back, whenever its call arrives.

## Key results

- `held_along`: a claimed message stays as it was handed out until its holder presents the token
  or the lease expires.
- `fenced_run`: every run of the store is fenced.
- `handedOut_claim`: the ids a claim hands out, in order
- `handedOut_nodup`: no call hands out a message twice
-/

namespace Remo

/-- The message and the token that an ack or a nack presents. -/
def OutboxOp.presented : OutboxOp → Option (String × String)
  | .ackOutbox outboxId claimToken _ => some (outboxId, claimToken)
  | .nackOutbox outboxId claimToken _ _ _ => some (outboxId, claimToken)
  | _ => none

/-- The call gives the message back under the token. -/
def OutboxOp.GivesBack (outboxId : String) (token : Option String) (op : OutboxOp) : Prop :=
  ∃ claimToken error retryAt now,
    op = .nackOutbox outboxId claimToken error retryAt now ∧ token = some claimToken

/-- The time of a claim. -/
def OutboxOp.claimedAt : OutboxOp → Option UInt64
  | .claimOutbox _ _ _ _ _ now _ => some now
  | _ => none

namespace InMemoryOutboxStore

/-- The messages that a reply hands out. -/
def handedOut : Except OutboxFault OutboxReply → List OutboxMessage
  | .ok (.claimed messages) => messages
  | _ => []

/-- The tokens that a reply hands out. -/
def handedTokens (reply : Except OutboxFault OutboxReply) : List String :=
  (handedOut reply).filterMap OutboxMessage.claimToken

/-- An ack or a nack of the message under the token is accepted. -/
def Valid (s : InMemoryOutboxStore) (id token : String) : Prop :=
  (∃ now, (ackOutbox id token now s).1 = .ok true) ∨
    ∃ error retryAt now, (nackOutbox id token error retryAt now s).1 ≠ .ok .lostClaim

/-- A step of a run of the store. -/
abbrev OutboxStep := Machine.Step InMemoryOutboxStore OutboxOp (Except OutboxFault OutboxReply)

/-- The lease of the message is over at the call. -/
def LeaseOver (message : OutboxMessage) (op : OutboxOp) : Prop :=
  ∃ lease now, message.leaseExpiresAt = some lease ∧ op.claimedAt = some now ∧ lease ≤ now

/-- The steps of a run are fenced. -/
structure Fenced (steps : List OutboxStep) : Prop where
  oneToken : ∀ t ∈ steps, ∀ id token token',
    t.after.Valid id token → t.after.Valid id token' → token = token'
  /-- A token that is no longer valid does not become valid again. -/
  notRevived : steps.Pairwise fun t u => ∀ id, ∀ token ∈ handedTokens t.reply,
    u.after.Valid id token → u.before.Valid id token
  /-- A message is handed out again when its lease is over, or when its holder gave it back. -/
  leased : ∀ before t between u after, steps = before ++ t :: (between ++ u :: after) →
    ∀ message ∈ handedOut t.reply, ∀ message' ∈ handedOut u.reply,
      message'.outboxId = message.outboxId → LeaseOver message u.event ∨
        ∃ v ∈ between, v.event.GivesBack message.outboxId message.claimToken
  ackedOnce : steps.Pairwise fun t u => ∀ id token now token' now',
    t.event = .ackOutbox id token now → t.reply = .ok (.acked true) →
      u.event = .ackOutbox id token' now' → u.reply ≠ .ok (.acked true)
  stale : ∀ t ∈ steps, ∀ id token, t.event.presented = some (id, token) →
    (∀ message, t.before.messages.get? id = some message → message.claimToken ≠ some token) →
      t.after = t.before ∧ (t.reply = .ok (.acked false) ∨ t.reply = .ok (.nacked .lostClaim))
  absorbing : ∀ t ∈ steps, ∀ id message, t.before.messages.get? id = some message →
    message.Terminal → t.after.messages.get? id = some message
  claimFields : ∀ t ∈ steps, ∀ id message, t.after.messages.get? id = some message →
    message.ClaimFields
  oneMessage : ∀ t ∈ steps, ∀ id message id' message' key,
    t.after.messages.get? id = some message → t.after.messages.get? id' = some message' →
      message.identity = some key → message'.identity = some key → id = id'
  /-- Two enqueues with one dedupe key return one message. -/
  deduped : steps.Pairwise fun t u => ∀ draft now draft' now' message message' key,
    t.event = .enqueueOutbox draft now → t.reply = .ok (.enqueued message) →
      u.event = .enqueueOutbox draft' now' → u.reply = .ok (.enqueued message') →
        draft.identity = some key → draft'.identity = some key →
          message'.outboxId = message.outboxId

/-! ## One call -/

theorem valid_iff {s : InMemoryOutboxStore} {id token : String} :
    s.Valid id token ↔
      ∃ message, s.messages.get? id = some message ∧ holdsClaim token message = true := by
  unfold Valid ackOutbox nackOutbox
  cases s.messages.get? id with
  | none => simp
  | some message =>
    cases hclaim : holdsClaim token message with
    | false => simp [hclaim]
    | true =>
      simp only [hclaim, if_true, exists_const, Option.some.injEq, true_or, exists_eq_left']

/-- An ack or a nack under a token that is not valid changes nothing. -/
theorem call_stale {s : InMemoryOutboxStore} {op : OutboxOp} {id token : String}
    (hpresented : op.presented = some (id, token))
    (hstale : ∀ message, s.messages.get? id = some message → message.claimToken ≠ some token) :
    (call op s).2 = s ∧
      ((call op s).1 = .ok (.acked false) ∨ (call op s).1 = .ok (.nacked .lostClaim)) := by
  have hnot : ∀ message, s.messages.get? id = some message →
      holdsClaim token message = false := by
    intro message hget
    rw [Bool.eq_false_iff]
    intro hclaim
    exact hstale message hget (holdsClaim_iff.mp hclaim).2
  cases op with
  | ackOutbox outboxId claimToken now =>
    cases hpresented
    simp only [call, Method.map, ackOutbox]
    cases hget : s.messages.get? id with
    | none => exact ⟨rfl, .inl rfl⟩
    | some message =>
      dsimp only
      rw [hnot message hget]
      exact ⟨rfl, .inl rfl⟩
  | nackOutbox outboxId claimToken error retryAt now =>
    cases hpresented
    simp only [call, Method.map, nackOutbox]
    cases hget : s.messages.get? id with
    | none => exact ⟨rfl, .inr rfl⟩
    | some message =>
      dsimp only
      rw [hnot message hget]
      exact ⟨rfl, .inr rfl⟩
  | enqueueOutbox => cases hpresented
  | claimOutbox => cases hpresented
  | listOutbox => cases hpresented

/-- A message that is done with is not changed. -/
theorem MessageChange.of_terminal {id : String} {reply : Except OutboxFault OutboxReply}
    {op : OutboxOp} {message : OutboxMessage} {after : Option OutboxMessage}
    (h : MessageChange id reply op (some message) after) (hterminal : message.Terminal) :
    after = some message := by
  have hunclaimed : ∀ token, holdsClaim token message = false := by
    intro token
    cases hterminal with
    | inl hdelivered => simp [holdsClaim, hdelivered]
    | inr hdead => simp [holdsClaim, hdead]
  cases h with
  | kept => rfl
  | claimed lane target limit leaseMs consumerId now tokens _ token messages hclaimable =>
    cases hterminal with
    | inl hdelivered => simp [isClaimable, hdelivered] at hclaimable
    | inr hdead => simp [isClaimable, hdead] at hclaimable
  | acked token now _ hclaim => cases (hunclaimed token).symm.trans hclaim
  | nacked token error retryAt now _ hclaim => cases (hunclaimed token).symm.trans hclaim

/-- A token that becomes valid is handed out by the call. -/
theorem mem_handedTokens_of_valid {s : InMemoryOutboxStore} (hs : s.WellFormed) (op : OutboxOp)
    {id token : String} (hafter : (call op s).2.Valid id token) (hbefore : ¬ s.Valid id token) :
    token ∈ handedTokens (call op s).1 := by
  obtain ⟨message', hget', hclaim'⟩ := valid_iff.mp hafter
  have hchange := messageChange hs op id
  rw [hget'] at hchange
  generalize hget : s.messages.get? id = message? at hchange
  cases hchange with
  | kept => exact absurd (valid_iff.mpr ⟨message', hget, hclaim'⟩) hbefore
  | enqueued draft now _ hmessage =>
    have hpending := (OutboxMessage.fromEnqueue_eq_ok hmessage).2.2.1
    simp [holdsClaim, hpending] at hclaim'
  | claimed lane target limit leaseMs consumerId now tokens message claimToken messages _ hreply
      hmem =>
    rw [hreply]
    exact List.mem_filterMap.mpr ⟨_, hmem, (holdsClaim_iff.mp hclaim').2⟩
  | acked claimToken now message => cases (holdsClaim_iff.mp hclaim').1
  | nacked claimToken error retryAt now message =>
    have hreleased := (nackMessage_released message error retryAt now).1
    cases hreleased.symm.trans (holdsClaim_iff.mp hclaim').2

/-- A message that is handed out was claimable, and is stored as it is handed out. -/
theorem of_mem_handedOut {s : InMemoryOutboxStore} {op : OutboxOp} (hs : s.WellFormed)
    {message' : OutboxMessage} (h : message' ∈ handedOut (call op s).1) :
    ∃ message now, op.claimedAt = some now ∧
      s.messages.get? message'.outboxId = some message ∧
      (call op s).2.messages.get? message'.outboxId = some message' ∧
      message'.status = .claimed ∧ (message.status = .pending ∨
        message.status = .claimed ∧ ∃ lease, message.leaseExpiresAt = some lease ∧ lease ≤ now) := by
  cases op with
  | claimOutbox lane target limit leaseMs consumerId now tokens =>
    rcases claimOutbox_cases lane target limit leaseMs consumerId now tokens s with
      ⟨_, hcall⟩ | ⟨claimed, messages, hcall, hclaimed⟩
    · simp [call, Method.map, hcall, handedOut, fail, Except.map] at h
    · simp only [call, Method.map, hcall, handedOut, Except.map] at h ⊢
      obtain ⟨id, -, ⟨message, token, hget, hclaimable, heq⟩, hafter⟩ := hclaimed.all message' h
      have hid : message'.outboxId = id := by
        rw [heq]
        exact (hs.numbered id message hget).1
      rw [hid]
      refine ⟨message, now, rfl, hget, hafter, by rw [heq]; rfl, ?_⟩
      simp only [isClaimable, Bool.and_eq_true, Bool.or_eq_true, beq_iff_eq] at hclaimable
      obtain ⟨⟨⟨-, hstatus⟩, -⟩, hdue⟩ := hclaimable
      cases hdue with
      | inl hpending => exact .inl hpending
      | inr hlease =>
        cases hl : message.leaseExpiresAt with
        | none => simp [hl] at hlease
        | some lease =>
          have hle : lease ≤ now := by simpa [hl] using hlease
          cases hstatus with
          | inl hpending => exact .inl hpending
          | inr hclaimedStatus => exact .inr ⟨hclaimedStatus, lease, rfl, hle⟩
  | enqueueOutbox draft now =>
    simp only [call, Method.map, handedOut] at h
    cases hr : (enqueueOutbox draft now s).1 <;> simp [hr, Except.map] at h
  | ackOutbox outboxId token now =>
    simp only [call, Method.map, handedOut] at h
    cases hr : (ackOutbox outboxId token now s).1 <;> simp [hr, Except.map] at h
  | nackOutbox outboxId token error retryAt now =>
    simp only [call, Method.map, handedOut] at h
    cases hr : (nackOutbox outboxId token error retryAt now s).1 <;> simp [hr, Except.map] at h
  | listOutbox status limit => simp [call, handedOut] at h

/-- An ack that returns true leaves the message delivered, and found it claimed. -/
theorem ack_true {s : InMemoryOutboxStore} {id token : String} {now : UInt64}
    (h : (call (.ackOutbox id token now) s).1 = .ok (.acked true)) :
    ∃ message message', s.messages.get? id = some message ∧ message.status = .claimed ∧
      (call (.ackOutbox id token now) s).2.messages.get? id = some message' ∧
      message'.status = .delivered := by
  simp only [call, Method.map, ackOutbox] at h ⊢
  cases hget : s.messages.get? id with
  | none => simp [hget, Except.map] at h
  | some message =>
    simp only [hget] at h ⊢
    split at h
    · rename_i hclaim
      rw [if_pos hclaim]
      exact ⟨message, { releaseClaim message now with status := .delivered }, rfl,
        (holdsClaim_iff.mp hclaim).1, by simp [hget], rfl⟩
    · simp [Except.map] at h

/-- An enqueue returns a stored message with the dedupe key of its draft. -/
theorem enqueue_ok {s : InMemoryOutboxStore} (hs : s.WellFormed) {draft : OutboxMessageDraft}
    {now : UInt64} {message : OutboxMessage}
    (h : (call (.enqueueOutbox draft now) s).1 = .ok (.enqueued message)) :
    (call (.enqueueOutbox draft now) s).2.messages.get? message.outboxId = some message ∧
      message.identity = draft.identity := by
  simp only [call, Method.map] at h ⊢
  rcases enqueueOutbox_cases hs draft now with ⟨_, hcall⟩ | ⟨message', hcall, hget, hidentity⟩ |
    ⟨message', after, hcall, hstores, -⟩
  · simp [hcall, Except.map] at h
  · rw [hcall] at h ⊢
    cases h
    exact ⟨hget, hidentity⟩
  · rw [hcall] at h ⊢
    cases h
    obtain ⟨hid, hidentity, -⟩ := OutboxMessage.fromEnqueue_eq_ok hstores.isMessage
    refine ⟨?_, hidentity⟩
    rw [hstores.messages_eq, hid]
    exact AssocMap.get?_insert_self _ _ _

/-- One message has the dedupe key. -/
theorem WellFormed.identity_inj {s : InMemoryOutboxStore} (hs : s.WellFormed) {id id' : String}
    {message message' : OutboxMessage} {key : String × String × String}
    (hget : s.messages.get? id = some message) (hget' : s.messages.get? id' = some message')
    (hkey : message.identity = some key) (hkey' : message'.identity = some key) : id = id' := by
  obtain ⟨record, hrecord, hid⟩ := hs.indexed id message hget key hkey
  obtain ⟨record', hrecord', hid'⟩ := hs.indexed id' message' hget' key hkey'
  rw [hrecord] at hrecord'
  cases hrecord'
  exact hid.symm.trans hid'

/-! ## Runs -/

/-- The second store is a later one: messages stay, and those done with do not change. -/
def Later (s u : InMemoryOutboxStore) : Prop :=
  ∀ id message, s.messages.get? id = some message → ∃ message',
    u.messages.get? id = some message' ∧ message'.identity = message.identity ∧
      (message.Terminal → message' = message)

theorem Later.refl (s : InMemoryOutboxStore) : Later s s :=
  fun _ message h => ⟨message, h, rfl, fun _ => rfl⟩

theorem Later.trans {s u v : InMemoryOutboxStore} (h : Later s u) (h' : Later u v) :
    Later s v := by
  intro id message hget
  obtain ⟨message', hget', hidentity, hterminal⟩ := h id message hget
  obtain ⟨message'', hget'', hidentity', hterminal'⟩ := h' id message' hget'
  refine ⟨message'', hget'', hidentity'.trans hidentity, ?_⟩
  intro hdone
  have hsame := hterminal hdone
  rw [hsame] at hterminal'
  exact hterminal' hdone

theorem later_call {s : InMemoryOutboxStore} (hs : s.WellFormed) (op : OutboxOp) :
    Later s (call op s).2 := by
  intro id message hget
  obtain ⟨message', hget', -, hidentity, -⟩ := get?_call hs op hget
  refine ⟨message', hget', hidentity, ?_⟩
  intro hterminal
  have hchange := messageChange hs op id
  rw [hget] at hchange
  exact Option.some.inj (hget'.symm.trans (hchange.of_terminal hterminal))

theorem later_run {s : InMemoryOutboxStore} (hs : s.WellFormed) (ops : List OutboxOp) :
    Later s (machine.run s ops) := by
  induction ops generalizing s with
  | nil => exact Later.refl s
  | cons op ops ih => exact (later_call hs op).trans (ih (hs.call op))

theorem wellFormed_run {s : InMemoryOutboxStore} (hs : s.WellFormed) (ops : List OutboxOp) :
    (machine.run s ops).WellFormed :=
  machine.run_invariant WellFormed (fun _ op hs => hs.call op) hs ops

/-- A claimed message stays as it is until it is done with, its holder gives it back, or a claim
    comes after its lease. -/
theorem held_along {s : InMemoryOutboxStore} (hs : s.WellFormed) {id : String}
    {message : OutboxMessage} (hget : s.messages.get? id = some message)
    (hclaimed : message.status = .claimed) (ops : List OutboxOp) :
    (machine.run s ops).messages.get? id = some message ∨
      (∃ message', (machine.run s ops).messages.get? id = some message' ∧ message'.Terminal) ∨
      (∃ op ∈ ops, op.GivesBack id message.claimToken) ∨ ∃ op ∈ ops, LeaseOver message op := by
  induction ops generalizing s with
  | nil => exact .inl hget
  | cons op ops ih =>
    show (machine.run (call op s).2 ops).messages.get? id = some message ∨
      (∃ message', (machine.run (call op s).2 ops).messages.get? id = some message' ∧
        message'.Terminal) ∨ _
    have hchange := messageChange hs op id
    rw [hget] at hchange
    generalize hafter : (call op s).2.messages.get? id = after at hchange
    cases hchange with
    | kept =>
      rcases ih (hs.call op) hafter with hsame | hdone | ⟨op', hmem, hback⟩ | ⟨op', hmem, hover⟩
      · exact .inl hsame
      · exact .inr (.inl hdone)
      · exact .inr (.inr (.inl ⟨op', List.mem_cons_of_mem _ hmem, hback⟩))
      · exact .inr (.inr (.inr ⟨op', List.mem_cons_of_mem _ hmem, hover⟩))
    | claimed lane target limit leaseMs consumerId now tokens _ token messages hclaimable =>
      simp only [isClaimable, hclaimed, Bool.and_eq_true, Bool.or_eq_true, beq_iff_eq,
        reduceCtorEq, false_or] at hclaimable
      cases hl : message.leaseExpiresAt with
      | none => simp [hl] at hclaimable
      | some lease =>
        have hle : lease ≤ now := by simpa [hl] using hclaimable.2
        exact .inr (.inr (.inr ⟨_, List.mem_cons_self, lease, now, hl, rfl, hle⟩))
    | acked token now _ hclaim =>
      obtain ⟨message', hget', -, hterminal⟩ := later_run (hs.call _) ops id _ hafter
      have hdone : OutboxMessage.Terminal { releaseClaim message now with status := .delivered } :=
        .inl rfl
      exact .inr (.inl ⟨message', hget', by rw [hterminal hdone]; exact hdone⟩)
    | nacked token error retryAt now _ hclaim =>
      exact .inr (.inr (.inl ⟨_, List.mem_cons_self, token, error, retryAt, now, rfl,
        (holdsClaim_iff.mp hclaim).2⟩))

/-- Steps that run on a well-formed store, one after the other. -/
theorem trace_later {s : InMemoryOutboxStore} (hs : s.WellFormed) (ops : List OutboxOp) :
    (∀ t ∈ machine.trace s ops, t.before.WellFormed ∧ t.reply = (call t.event t.before).1 ∧
        t.after = (call t.event t.before).2) ∧
      (machine.trace s ops).Pairwise fun t u => Later t.after u.before := by
  induction ops generalizing s with
  | nil => exact ⟨fun _ h => absurd h List.not_mem_nil, List.Pairwise.nil⟩
  | cons op ops ih =>
    obtain ⟨hsteps, hpairs⟩ := ih (hs.call op)
    constructor
    · intro t ht
      cases List.mem_cons.mp ht with
      | inl heq =>
        rw [heq]
        exact ⟨hs, rfl, rfl⟩
      | inr hmem => exact hsteps t hmem
    · refine List.pairwise_cons.mpr ⟨?_, hpairs⟩
      intro u hu
      obtain ⟨before, after, -, hbefore, -⟩ := machine.mem_trace hu
      rw [hbefore]
      exact later_run (hs.call op) before

/-- A message is handed out again when its lease is over, or when its holder gave it back. -/
theorem handed_again (ops : List OutboxOp)
    (hclock : (ops.filterMap OutboxOp.claimedAt).Pairwise (· ≤ ·))
    {before between after : List OutboxStep} {t u : OutboxStep}
    (h : machine.trace new ops = before ++ t :: (between ++ u :: after)) :
    ∀ message ∈ handedOut t.reply, ∀ message' ∈ handedOut u.reply,
      message'.outboxId = message.outboxId → LeaseOver message u.event ∨
        ∃ v ∈ between, v.event.GivesBack message.outboxId message.claimToken := by
  -- the two steps, with the calls before, between and after them
  obtain ⟨fs, gs₁, rfl, -, hfirst⟩ := machine.trace_eq_append h
  obtain ⟨op, gs₂, rfl, rfl, hrest⟩ := machine.trace_eq_cons hfirst.symm
  obtain ⟨mid, gs₃, rfl, rfl, hsecond⟩ := machine.trace_eq_append hrest.symm
  obtain ⟨op', gs₄, rfl, rfl, -⟩ := machine.trace_eq_cons hsecond.symm
  intro message hmessage message' hmessage' hid
  have hs := wellFormed_run wellFormed_new fs
  obtain ⟨-, -, -, -, hget, hclaimed, -⟩ := of_mem_handedOut hs hmessage
  obtain ⟨found, now, hnow, hfound, -, -, hdue⟩ :=
    of_mem_handedOut (wellFormed_run (hs.call op) mid) hmessage'
  rw [hid] at hfound
  rcases held_along (hs.call op) hget hclaimed mid with hsame | ⟨done, hdone, hterminal⟩ |
    ⟨v, hv, hback⟩ | ⟨v, hv, lease, now', hlease, hnow', hle⟩
  · rw [hfound] at hsame
    cases hsame
    rcases hdue with hpending | ⟨-, lease, hlease, hle⟩
    · cases hpending.symm.trans hclaimed
    · exact .inl ⟨lease, now, hlease, hnow, hle⟩
  · rw [hfound] at hdone
    cases hdone
    rcases hterminal with hd | hd <;> rw [hd] at hdue <;> simp at hdue
  · obtain ⟨step, hstep, hevent⟩ := machine.exists_mem_trace (call op (machine.run new fs)).2 hv
    exact .inr ⟨step, hstep, by rw [hevent]; exact hback⟩
  · -- the lease was over at an earlier claim
    refine .inl ⟨lease, now, hlease, hnow, UInt64.le_trans hle ?_⟩
    have hpairs := (List.pairwise_append.mp (List.pairwise_filterMap.mp hclock)).2.1
    have hrest := (List.pairwise_append.mp (List.pairwise_cons.mp hpairs).2).2.2
    exact hrest v hv op' List.mem_cons_self now' hnow' now hnow

/-- Every run of the store is fenced, when the time of claims does not run backwards and no token
    is handed out twice. -/
theorem fenced_run (ops : List OutboxOp)
    (hclock : (ops.filterMap OutboxOp.claimedAt).Pairwise (· ≤ ·))
    (hfresh : ((machine.trace new ops).flatMap fun t => handedTokens t.reply).Nodup) :
    Fenced (machine.trace new ops) := by
  obtain ⟨hsteps, hpairs⟩ := trace_later wellFormed_new ops
  have hafter : ∀ t ∈ machine.trace new ops, t.after.WellFormed := by
    intro t ht
    obtain ⟨hs, -, hafter⟩ := hsteps t ht
    rw [hafter]
    exact hs.call t.event
  constructor
  case oneToken =>
    intro t _ id token token' h h'
    obtain ⟨message, hget, hclaim⟩ := valid_iff.mp h
    obtain ⟨message', hget', hclaim'⟩ := valid_iff.mp h'
    rw [hget] at hget'
    cases hget'
    exact Option.some.inj ((holdsClaim_iff.mp hclaim).2.symm.trans (holdsClaim_iff.mp hclaim').2)
  case notRevived =>
    refine (List.nodup_flatMap.mp hfresh).2.imp_of_mem ?_
    intro t u _ hu hdisjoint id token htoken hvalid
    obtain ⟨hs, hreply, heq⟩ := hsteps u hu
    by_contra hnot
    rw [heq] at hvalid
    have hhanded := mem_handedTokens_of_valid hs u.event hvalid hnot
    rw [← hreply] at hhanded
    exact hdisjoint htoken hhanded
  case leased => exact fun _ _ _ _ _ h => handed_again ops hclock h
  case ackedOnce =>
    refine hpairs.imp_of_mem ?_
    intro t u ht hu hlater id token now token' now' hevent hreply hevent' hreply'
    obtain ⟨_, hr, ha⟩ := hsteps t ht
    obtain ⟨_, hr', _⟩ := hsteps u hu
    rw [hr, hevent] at hreply
    rw [hr', hevent'] at hreply'
    obtain ⟨_, message, -, -, hget, hdelivered⟩ := ack_true hreply
    obtain ⟨message', _, hget', hclaimed, -⟩ := ack_true hreply'
    rw [ha, hevent] at hlater
    obtain ⟨_, hget'', -, hsame⟩ := hlater id message hget
    rw [hget'] at hget''
    cases hget''
    rw [hsame (.inl hdelivered), hdelivered] at hclaimed
    cases hclaimed
  case stale =>
    intro t ht id token hpresented hstale
    obtain ⟨_, hr, ha⟩ := hsteps t ht
    rw [hr, ha]
    exact call_stale hpresented hstale
  case absorbing =>
    intro t ht id message hget hterminal
    obtain ⟨hs, _, ha⟩ := hsteps t ht
    obtain ⟨message', hget', -, hsame⟩ := later_call hs t.event id message hget
    rw [ha, hget', hsame hterminal]
  case claimFields => exact fun t ht => (hafter t ht).claimFields
  case oneMessage =>
    intro t ht id message id' message' key hget hget' hkey hkey'
    exact (hafter t ht).identity_inj hget hget' hkey hkey'
  case deduped =>
    refine hpairs.imp_of_mem ?_
    intro t u ht hu hlater draft now draft' now' message message' key hevent hreply hevent' hreply'
      hkey hkey'
    obtain ⟨hs, hr, ha⟩ := hsteps t ht
    obtain ⟨hs', hr', ha'⟩ := hsteps u hu
    rw [hr, hevent] at hreply
    rw [hr', hevent'] at hreply'
    obtain ⟨hget, hidentity⟩ := enqueue_ok hs hreply
    obtain ⟨hget', hidentity'⟩ := enqueue_ok hs' hreply'
    rw [ha, hevent] at hlater
    -- the first message is still there, with its identity, when the second enqueue returns
    obtain ⟨first, hfirst, hsame, -⟩ := hlater.trans (later_call hs' u.event) _ message hget
    rw [hevent'] at hfirst
    have hwell := hs'.call (.enqueueOutbox draft' now')
    exact hwell.identity_inj hget' hfirst (hidentity'.trans hkey')
      (hsame.trans (hidentity.trans hkey))

/-- A message handed to a second consumer when the lease of the first is over. The first
    acknowledges it late, and then the second does. -/
def lateAck : List OutboxOp :=
  [.enqueueOutbox ⟨"canonical", "projector", ⟨"1"⟩, some "key", 0, 5⟩ 0,
    .claimOutbox "canonical" "projector" 1 10 "relay-a" 0 fun _ => .firstToken,
    .claimOutbox "canonical" "projector" 1 30 "relay-b" 25 fun _ => .secondToken,
    .ackOutbox "out_mem_1" "claim_token-1_1" 26, .ackOutbox "out_mem_1" "claim_token-2_2" 27]

theorem fenced_run_lateAck : Fenced (machine.trace new lateAck) :=
  fenced_run lateAck (by decide) (by decide +kernel)

example : ((machine.replies new lateAck).drop 3) =
    [.ok (.acked false), .ok (.acked true)] := by decide +kernel

end InMemoryOutboxStore

end Remo

/-! ## What a claim hands out

A claim walks over the ids in the order of claims and hands out the first claimable messages, as
many as its limit allows.
-/

namespace Remo.InMemoryOutboxStore

/-- The message under the id is claimable. -/
def ClaimableAt (s : InMemoryOutboxStore) (lane target : String) (now : UInt64) (id : String) :
    Bool :=
  (s.messages.get? id).any fun message => isClaimable message lane target now

section

variable {lane target : String} {limit leaseMs : UInt64} {consumerId : String} {now : UInt64}
  {tokens : Nat → Uuid}

/-- The loop hands out the claimable messages in order, up to the limit. -/
theorem claimLoop_ids {ids : List String} (hids : ids.Nodup) (claimed : List OutboxMessage)
    (s : InMemoryOutboxStore)
    (hkeyed : ∀ id message, s.messages.get? id = some message → message.outboxId = id) :
    (claimLoop lane target limit leaseMs consumerId now tokens claimed ids s).1.map
        OutboxMessage.outboxId =
      claimed.map OutboxMessage.outboxId ++
        (ids.filter (s.ClaimableAt lane target now)).take (limit.toNat - claimed.length) := by
  induction ids generalizing claimed s with
  | nil => simp [claimLoop]
  | cons id ids ih =>
    obtain ⟨hid, hids⟩ := List.nodup_cons.mp hids
    rw [claimLoop]
    split
    · rename_i hfull
      have hnone : limit.toNat - claimed.length = 0 := by omega
      simp [hnone]
    · rename_i hroom
      cases hget : s.messages.get? id with
      | none =>
        have hskip : s.ClaimableAt lane target now id = false := by simp [ClaimableAt, hget]
        dsimp only
        rw [ih hids claimed s hkeyed, List.filter_cons_of_neg (by simp [hskip])]
      | some message =>
        dsimp only
        split
        · rename_i hclaimable
          have htake : s.ClaimableAt lane target now id = true := by
            simp [ClaimableAt, hget, hclaimable]
          -- the message that is claimed is under none of the ids that come later
          have hrest : ∀ k ∈ ids, ClaimableAt
              { s with messages := s.messages.modify id fun _ =>
                  claimMessage message leaseMs consumerId now (tokens claimed.length) }
              lane target now k = s.ClaimableAt lane target now k := by
            intro k hk
            have hne : k ≠ id := by
              intro heq
              exact hid (heq ▸ hk)
            show Option.any _ (AssocMap.get? (AssocMap.modify _ _ _) k) = _
            rw [AssocMap.get?_modify_of_ne _ _ hne]
            rfl
          rw [ih hids, List.filter_congr hrest, List.filter_cons_of_pos htake]
          · have hleft : limit.toNat - claimed.length =
                (limit.toNat - (claimed.length + 1)) + 1 := by omega
            simp [hleft, hkeyed id message hget]
          · intro k other hother
            by_cases heq : k = id
            · subst heq
              simp only [AssocMap.get?_modify_self, hget, Option.map_some] at hother
              cases hother
              exact hkeyed _ message hget
            · rw [AssocMap.get?_modify_of_ne _ _ heq] at hother
              exact hkeyed k other hother
        · rename_i hnot
          have hskip : s.ClaimableAt lane target now id = false := by
            simp only [ClaimableAt, hget, Option.any_some]
            exact Bool.eq_false_iff.mpr hnot
          rw [ih hids claimed s hkeyed, List.filter_cons_of_neg (by simp [hskip])]

/-- A claim hands out the first claimable messages, or nothing. -/
theorem handedOut_claim {s : InMemoryOutboxStore} (hs : s.WellFormed) :
    (handedOut (call (.claimOutbox lane target limit leaseMs consumerId now tokens) s).1).map
        OutboxMessage.outboxId =
      (s.claimOrder.filter (s.ClaimableAt lane target now)).take limit.toNat ∨
    handedOut (call (.claimOutbox lane target limit leaseMs consumerId now tokens) s).1 = [] := by
  have hloop := @claimLoop_ids lane target limit leaseMs consumerId now tokens _
    s.nodup_claimOrder [] s fun id message hget => (hs.numbered id message hget).1
  simp only [call, Method.map, claimOutbox]
  split
  · exact .inr rfl
  · split
    · exact .inr rfl
    · split
      · exact .inr rfl
      · left
        simpa [handedOut, Except.map] using hloop

end

/-- Only a claim hands out messages. -/
theorem handedOut_eq_nil {op : OutboxOp} (s : InMemoryOutboxStore) (h : op.claimedAt = none) :
    handedOut (call op s).1 = [] := by
  cases op with
  | claimOutbox => cases h
  | enqueueOutbox draft now =>
    simp only [call, Method.map, handedOut]
    cases (enqueueOutbox draft now s).1 <;> rfl
  | ackOutbox outboxId token now =>
    simp only [call, Method.map, handedOut]
    cases (ackOutbox outboxId token now s).1 <;> rfl
  | nackOutbox outboxId token error retryAt now =>
    simp only [call, Method.map, handedOut]
    cases (nackOutbox outboxId token error retryAt now s).1 <;> rfl
  | listOutbox status limit => rfl

/-- No call hands out a message twice. -/
theorem handedOut_nodup {s : InMemoryOutboxStore} (hs : s.WellFormed) (op : OutboxOp) :
    ((handedOut (call op s).1).map OutboxMessage.outboxId).Nodup := by
  cases op with
  | claimOutbox lane target limit leaseMs consumerId now tokens =>
    cases @handedOut_claim lane target limit leaseMs consumerId now tokens s hs with
    | inl hids =>
      rw [hids]
      exact (s.nodup_claimOrder.filter _).sublist (List.take_sublist _ _)
    | inr hnone => simp [hnone]
  | enqueueOutbox draft now => simp [@handedOut_eq_nil (.enqueueOutbox draft now) s rfl]
  | ackOutbox outboxId token now => simp [@handedOut_eq_nil (.ackOutbox outboxId token now) s rfl]
  | nackOutbox outboxId token error retryAt now =>
    simp [@handedOut_eq_nil (.nackOutbox outboxId token error retryAt now) s rfl]
  | listOutbox status limit => simp [@handedOut_eq_nil (.listOutbox status limit) s rfl]

end Remo.InMemoryOutboxStore
