import Remo.Native.Outbox.Memory
import Remo.Spec.Scope

/-!
# Steps of the outbox store

`MessageChange` says what one call can do to the message under an id, and `messageChange` that a
call does nothing else. `WellFormed` is what every call keeps.
-/

namespace Remo

/-- What a dedupe key is unique for. -/
def OutboxMessage.identity (message : OutboxMessage) : Option (String × String × String) :=
  message.dedupeKey.map fun dedupeKey => (message.lane, message.target, dedupeKey)

def OutboxMessageDraft.identity (draft : OutboxMessageDraft) :
    Option (String × String × String) :=
  draft.dedupeKey.map fun dedupeKey => (draft.lane, draft.target, dedupeKey)

/-- The three fields of a claim are set exactly when the message is claimed. -/
def OutboxMessage.ClaimFields (message : OutboxMessage) : Prop :=
  (message.claimedBy.isSome ↔ message.status = .claimed) ∧
    (message.claimToken.isSome ↔ message.status = .claimed) ∧
    (message.leaseExpiresAt.isSome ↔ message.status = .claimed)

/-- The message is done with. -/
def OutboxMessage.Terminal (message : OutboxMessage) : Prop :=
  message.status = .delivered ∨ message.status = .deadLetter

theorem OutboxMessage.fromEnqueue_eq_ok {id : String} {draft : OutboxMessageDraft} {now : UInt64}
    {message : OutboxMessage} (h : fromEnqueue id draft now = .ok message) :
    message.outboxId = id ∧ message.identity = draft.identity ∧ message.status = .pending ∧
      message.ClaimFields := by
  simp only [fromEnqueue, bind, Except.bind, pure, Except.pure] at h
  split at h
  · cases h
  · split at h
    · cases h
    · cases h
      simp [ClaimFields, identity, OutboxMessageDraft.identity]

namespace InMemoryOutboxStore

/-- What one call with its reply does to the message under an id. -/
inductive MessageChange (id : String) (reply : Except OutboxFault OutboxReply) :
    OutboxOp → Option OutboxMessage → Option OutboxMessage → Prop
  | kept (op : OutboxOp) (message : Option OutboxMessage) :
      MessageChange id reply op message message
  | enqueued (draft : OutboxMessageDraft) (now : UInt64) (message : OutboxMessage)
      (hmessage : OutboxMessage.fromEnqueue id draft now = .ok message) :
      MessageChange id reply (.enqueueOutbox draft now) none (some message)
  | claimed (lane target : String) (limit leaseMs : UInt64) (consumerId : String) (now : UInt64)
      (tokens : Nat → Uuid) (message : OutboxMessage) (token : Uuid)
      (messages : List OutboxMessage) (hclaimable : isClaimable message lane target now = true)
      (hreply : reply = .ok (.claimed messages))
      (hmem : claimMessage message leaseMs consumerId now token ∈ messages) :
      MessageChange id reply (.claimOutbox lane target limit leaseMs consumerId now tokens)
        (some message) (some (claimMessage message leaseMs consumerId now token))
  | acked (token : String) (now : UInt64) (message : OutboxMessage)
      (hclaim : holdsClaim token message = true) (hreply : reply = .ok (.acked true)) :
      MessageChange id reply (.ackOutbox id token now) (some message)
        (some { releaseClaim message now with status := .delivered })
  | nacked (token error : String) (retryAt now : UInt64) (message : OutboxMessage)
      (hclaim : holdsClaim token message = true) :
      MessageChange id reply (.nackOutbox id token error retryAt now) (some message)
        (some (nackMessage message error retryAt now).2)

/-- What every call keeps: messages are stored under the ids the counter gave out, and a dedupe
    key leads to the message that has it. -/
structure WellFormed (s : InMemoryOutboxStore) : Prop where
  numbered : ∀ id message, s.messages.get? id = some message →
    message.outboxId = id ∧ ∃ n : UInt64, n ≤ s.nextId ∧ id = messageId n
  claimFields : ∀ id message, s.messages.get? id = some message → message.ClaimFields
  indexed : ∀ id message, s.messages.get? id = some message → ∀ key, message.identity = some key →
    ∃ record, s.dedupe.get? key = some record ∧ record.outboxId = id
  recorded : ∀ key record, s.dedupe.get? key = some record →
    ∃ message, s.messages.get? record.outboxId = some message ∧ message.identity = some key ∧
      record.digest.identity = some key

theorem wellFormed_new : new.WellFormed where
  numbered := by simp [new]
  claimFields := by simp [new]
  indexed := by simp [new]
  recorded := by simp [new]

/-! ## The parts of a message a change keeps -/

@[simp] theorem claimMessage_outboxId (message : OutboxMessage) (leaseMs : UInt64)
    (consumerId : String) (now : UInt64) (token : Uuid) :
    (claimMessage message leaseMs consumerId now token).outboxId = message.outboxId := rfl

@[simp] theorem nackMessage_outboxId (message : OutboxMessage) (error : String)
    (retryAt now : UInt64) :
    (nackMessage message error retryAt now).2.outboxId = message.outboxId := by
  unfold nackMessage
  dsimp only
  split <;> rfl

@[simp] theorem nackMessage_identity (message : OutboxMessage) (error : String)
    (retryAt now : UInt64) :
    (nackMessage message error retryAt now).2.identity = message.identity := by
  unfold nackMessage
  dsimp only
  split <;> rfl

/-- A message given back is unclaimed. -/
theorem nackMessage_released (message : OutboxMessage) (error : String) (retryAt now : UInt64) :
    (nackMessage message error retryAt now).2.claimToken = none ∧
      (nackMessage message error retryAt now).2.ClaimFields := by
  unfold nackMessage
  dsimp only
  split <;> simp [OutboxMessage.ClaimFields, releaseClaim]

theorem holdsClaim_iff {token : String} {message : OutboxMessage} :
    holdsClaim token message = true ↔
      message.status = .claimed ∧ message.claimToken = some token := by
  simp [holdsClaim]

/-- A change keeps the id, the identity and the agreement of the claim fields. -/
theorem MessageChange.keeps {id : String} {reply : Except OutboxFault OutboxReply} {op : OutboxOp}
    {message : OutboxMessage} {after : Option OutboxMessage}
    (h : MessageChange id reply op (some message) after) :
    ∃ message', after = some message' ∧ message'.outboxId = message.outboxId ∧
      message'.identity = message.identity ∧ (message.ClaimFields → message'.ClaimFields) := by
  cases h with
  | kept => exact ⟨message, rfl, rfl, rfl, fun h => h⟩
  | claimed =>
    refine ⟨_, rfl, rfl, rfl, ?_⟩
    intro _
    simp [OutboxMessage.ClaimFields, claimMessage]
  | acked =>
    refine ⟨_, rfl, rfl, rfl, ?_⟩
    intro _
    simp [OutboxMessage.ClaimFields, releaseClaim]
  | nacked token error retryAt now _ hclaim =>
    refine ⟨_, rfl, by simp, by simp, ?_⟩
    intro _
    exact (nackMessage_released message error retryAt now).2

/-! ## Claiming -/

theorem nodup_claimOrder (s : InMemoryOutboxStore) : s.claimOrder.Nodup := by
  unfold claimOrder
  exact ((List.perm_insertionSort _ s.messages.entries).map Prod.fst).nodup_iff.mpr
    s.messages.nodup

section Claim

variable (lane target : String) (limit leaseMs : UInt64) (consumerId : String) (now : UInt64)
  (tokens : Nat → Uuid)

/-- A claim by these parameters turns the message under the id into `message'`. -/
def Claims (s : InMemoryOutboxStore) (id : String) (message' : OutboxMessage) : Prop :=
  ∃ message token, s.messages.get? id = some message ∧
    isClaimable message lane target now = true ∧
    message' = claimMessage message leaseMs consumerId now token

/-- Of the messages under `ids`, those in `claimed` are claimed, and no other is changed. -/
structure ClaimedAmong (s : InMemoryOutboxStore) (ids : List String)
    (claimed : List OutboxMessage) (messages : AssocMap String OutboxMessage) : Prop where
  each : ∀ id, messages.get? id = s.messages.get? id ∨ ∃ message' ∈ claimed, id ∈ ids ∧
    Claims lane target leaseMs consumerId now s id message' ∧ messages.get? id = some message'
  all : ∀ message' ∈ claimed, ∃ id ∈ ids,
    Claims lane target leaseMs consumerId now s id message' ∧ messages.get? id = some message'

variable {lane target leaseMs consumerId now} in
theorem ClaimedAmong.cons {s : InMemoryOutboxStore} {ids : List String}
    {claimed : List OutboxMessage} {messages : AssocMap String OutboxMessage}
    (h : ClaimedAmong lane target leaseMs consumerId now s ids claimed messages) (id : String) :
    ClaimedAmong lane target leaseMs consumerId now s (id :: ids) claimed messages where
  each := by
    intro k
    cases h.each k with
    | inl hsame => exact .inl hsame
    | inr hchange =>
      obtain ⟨message', hmem, hk, hrest⟩ := hchange
      exact .inr ⟨message', hmem, List.mem_cons_of_mem _ hk, hrest⟩
  all := by
    intro message' hmem
    obtain ⟨k, hk, hrest⟩ := h.all message' hmem
    exact ⟨k, List.mem_cons_of_mem _ hk, hrest⟩

variable {lane target leaseMs consumerId now} in
/-- Claiming one message first, and then others. -/
theorem ClaimedAmong.claim {s : InMemoryOutboxStore} {id : String} {ids : List String}
    (hid : id ∉ ids) {claimed : List OutboxMessage} {messages : AssocMap String OutboxMessage}
    {message' : OutboxMessage} (hclaims : Claims lane target leaseMs consumerId now s id message')
    (h : ClaimedAmong lane target leaseMs consumerId now
      { s with messages := s.messages.modify id fun _ => message' } ids claimed messages) :
    ClaimedAmong lane target leaseMs consumerId now s (id :: ids) (message' :: claimed)
      messages := by
  have hother : ∀ k, k ≠ id → (s.messages.modify id fun _ => message').get? k =
      s.messages.get? k := fun k hk => AssocMap.get?_modify_of_ne _ _ hk
  -- the claims after the first are of other ids
  have hkept : messages.get? id = some message' := by
    cases h.each id with
    | inl hsame =>
      obtain ⟨message, _, hget, _⟩ := hclaims
      rw [hsame]
      simp [hget]
    | inr hchange =>
      obtain ⟨_, _, hk, _⟩ := hchange
      exact absurd hk hid
  have hclaims' : ∀ k m, k ∈ ids → Claims lane target leaseMs consumerId now
      { s with messages := s.messages.modify id fun _ => message' } k m →
      Claims lane target leaseMs consumerId now s k m := by
    intro k m hk hm
    obtain ⟨message, token, hget, hrest⟩ := hm
    have hne : k ≠ id := by
      intro heq
      exact hid (heq ▸ hk)
    exact ⟨message, token, (hother k hne).symm.trans hget, hrest⟩
  constructor
  · intro k
    by_cases hk : k = id
    · rw [hk]
      exact .inr ⟨message', List.mem_cons_self, List.mem_cons_self, hclaims, hkept⟩
    · cases h.each k with
      | inl hsame => exact .inl (hsame.trans (hother k hk))
      | inr hchange =>
        obtain ⟨m, hmem, hin, hm, hget⟩ := hchange
        exact .inr ⟨m, List.mem_cons_of_mem _ hmem, List.mem_cons_of_mem _ hin,
          hclaims' k m hin hm, hget⟩
  · intro m hm
    cases List.mem_cons.mp hm with
    | inl heq =>
      rw [heq]
      exact ⟨id, List.mem_cons_self, hclaims, hkept⟩
    | inr hmem =>
      obtain ⟨k, hin, hm', hget⟩ := h.all m hmem
      exact ⟨k, List.mem_cons_of_mem _ hin, hclaims' k m hin hm', hget⟩

/-- The loop of `claim_outbox` claims messages it finds claimable, each once, and returns them as
    it leaves them. -/
theorem claimLoop_spec {ids : List String} (hids : ids.Nodup) (claimed : List OutboxMessage)
    (s : InMemoryOutboxStore) :
    ∃ more messages, claimLoop lane target limit leaseMs consumerId now tokens claimed ids s =
        (claimed ++ more, { s with messages := messages }) ∧
      ClaimedAmong lane target leaseMs consumerId now s ids more messages := by
  induction ids generalizing claimed s with
  | nil => exact ⟨[], s.messages, by simp [claimLoop], ⟨fun _ => .inl rfl, by simp⟩⟩
  | cons id ids ih =>
    obtain ⟨hid, hids⟩ := List.nodup_cons.mp hids
    have hskip : ∃ more messages,
        claimLoop lane target limit leaseMs consumerId now tokens claimed ids s =
          (claimed ++ more, { s with messages := messages }) ∧
        ClaimedAmong lane target leaseMs consumerId now s (id :: ids) more messages := by
      obtain ⟨more, messages, hloop, hmore⟩ := ih hids claimed s
      exact ⟨more, messages, hloop, hmore.cons id⟩
    rw [claimLoop]
    split
    · exact ⟨[], s.messages, by simp, ⟨fun _ => .inl rfl, by simp⟩⟩
    · cases hget : s.messages.get? id with
      | none => exact hskip
      | some message =>
        dsimp only
        split
        · rename_i hclaimable
          obtain ⟨more, messages, hloop, hmore⟩ := ih hids
            (claimed ++ [claimMessage message leaseMs consumerId now (tokens claimed.length)])
            { s with messages := s.messages.modify id fun _ =>
                claimMessage message leaseMs consumerId now (tokens claimed.length) }
          refine ⟨_ :: more, messages, ?_,
            hmore.claim hid ⟨message, _, hget, hclaimable, rfl⟩⟩
          rw [hloop]
          simp
        · exact hskip

/-- A claim fails and changes nothing, or claims the messages it returns. -/
theorem claimOutbox_cases (s : InMemoryOutboxStore) :
    (∃ error, claimOutbox lane target limit leaseMs consumerId now tokens s = (fail error, s)) ∨
      ∃ claimed messages, claimOutbox lane target limit leaseMs consumerId now tokens s =
          (.ok claimed, { s with messages := messages }) ∧
        ClaimedAmong lane target leaseMs consumerId now s s.claimOrder claimed messages := by
  unfold claimOutbox
  split
  · exact .inl ⟨_, rfl⟩
  · split
    · exact .inl ⟨_, rfl⟩
    · split
      · exact .inl ⟨_, rfl⟩
      · obtain ⟨more, messages, hloop, hmore⟩ := claimLoop_spec lane target limit leaseMs
          consumerId now tokens s.nodup_claimOrder [] s
        refine .inr ⟨more, messages, ?_, hmore⟩
        rw [hloop]
        rfl

end Claim

/-! ## Enqueueing -/

theorem messageId_inj {m n : UInt64} (h : messageId m = messageId n) : m = n := by
  unfold messageId at h
  have hlist := congrArg String.toList h
  simp only [String.toList_append, toString] at hlist
  exact UInt64.toNat_inj.mp (toString_nat_inj (List.append_cancel_left hlist))

theorem isBlank_messageId (n : UInt64) : Str.isBlank (messageId n) = false := by
  apply Str.isBlank_eq_false (c := 'o') _ (by decide)
  show 'o' ∈ ("out_mem_" ++ toString n.toNat).toList
  rw [String.toList_append, List.mem_append]
  exact .inl (by decide)

/-- A valid draft gets its message. -/
theorem fromEnqueue_messageId (n now : UInt64) {draft : OutboxMessageDraft}
    (hvalid : draft.validate = .ok ()) :
    ∃ message, OutboxMessage.fromEnqueue (messageId n) draft now = .ok message := by
  have hblank : OutboxError.rejectBlank "outbox_id" (messageId n) = .ok () := by
    unfold OutboxError.rejectBlank
    simp [isBlank_messageId]
  unfold OutboxMessage.fromEnqueue
  rw [hvalid, hblank]
  exact ⟨_, rfl⟩

/-- The store after the message of a draft went under the next id and its dedupe key was
    recorded. -/
structure Stores (s : InMemoryOutboxStore) (draft : OutboxMessageDraft) (now : UInt64)
    (message : OutboxMessage) (after : InMemoryOutboxStore) : Prop where
  room : s.nextId < s.nextId + 1
  nextId_eq : after.nextId = s.nextId + 1
  isMessage : OutboxMessage.fromEnqueue (messageId (s.nextId + 1)) draft now = .ok message
  messages_eq : after.messages = s.messages.insert (messageId (s.nextId + 1)) message
  dedupe_get? : ∀ key, after.dedupe.get? key =
    if draft.identity = some key then some ⟨draft, messageId (s.nextId + 1)⟩
    else s.dedupe.get? key

theorem insertDraft_cases (s : InMemoryOutboxStore) {draft : OutboxMessageDraft} (now : UInt64)
    (hvalid : draft.validate = .ok ()) :
    (∃ fault, insertDraft draft now s = (.error fault, s)) ∨
      ∃ message after, insertDraft draft now s = (.ok message, after) ∧
        Stores s draft now message after := by
  unfold insertDraft
  split
  · rename_i hroom
    have hlt := Outcome.lt_add_one hroom
    obtain ⟨message, hmessage⟩ := fromEnqueue_messageId (s.nextId + 1) now hvalid
    have hid : message.outboxId = messageId (s.nextId + 1) :=
      (OutboxMessage.fromEnqueue_eq_ok hmessage).1
    dsimp only
    rw [hmessage]
    dsimp only
    refine .inr ⟨message, _, rfl, hlt, ?_, hmessage, ?_, ?_⟩
    · cases draft.dedupeKey <;> rfl
    · cases draft.dedupeKey <;> rw [hid]
    · intro key
      cases hkey : draft.dedupeKey with
      | none => simp [OutboxMessageDraft.identity, hkey]
      | some dedupeKey =>
        simp only [OutboxMessageDraft.identity, hkey, AssocMap.get?_insert, Option.map_some,
          Option.some.injEq, eq_comm]
  · exact .inl ⟨_, rfl⟩

/-- An enqueue fails and changes nothing, returns the message that has the dedupe key, or finds
    no message with the key. -/
theorem enqueueOutbox_eq {s : InMemoryOutboxStore} (hs : s.WellFormed)
    (draft : OutboxMessageDraft) (now : UInt64) :
    (∃ fault, enqueueOutbox draft now s = (.error fault, s)) ∨
      (∃ message, enqueueOutbox draft now s = (.ok message, s) ∧
        s.messages.get? message.outboxId = some message ∧ message.identity = draft.identity) ∨
      draft.validate = .ok () ∧ (∀ key, draft.identity = some key → s.dedupe.get? key = none) ∧
        enqueueOutbox draft now s = insertDraft draft now s := by
  unfold enqueueOutbox
  cases hvalid : draft.validate with
  | error error => exact .inl ⟨_, rfl⟩
  | ok _ =>
    cases hkey : draft.dedupeKey with
    | none => exact .inr (.inr ⟨rfl, by simp [OutboxMessageDraft.identity, hkey], rfl⟩)
    | some dedupeKey =>
      have hidentity : draft.identity = some (draft.lane, draft.target, dedupeKey) := by
        simp [OutboxMessageDraft.identity, hkey]
      dsimp only
      cases hrecord : s.dedupe.get? (draft.lane, draft.target, dedupeKey) with
      | none =>
        refine .inr (.inr ⟨rfl, ?_, rfl⟩)
        intro key h
        rw [hidentity] at h
        cases h
        exact hrecord
      | some record =>
        obtain ⟨message, hmessage, hsame, -⟩ := hs.recorded _ _ hrecord
        dsimp only
        split
        · exact .inl ⟨_, rfl⟩
        · rw [hmessage]
          refine .inr (.inl ⟨message, rfl, ?_, hsame.trans hidentity.symm⟩)
          rw [(hs.numbered _ _ hmessage).1, hmessage]

theorem enqueueOutbox_cases {s : InMemoryOutboxStore} (hs : s.WellFormed)
    (draft : OutboxMessageDraft) (now : UInt64) :
    (∃ fault, enqueueOutbox draft now s = (.error fault, s)) ∨
      (∃ message, enqueueOutbox draft now s = (.ok message, s) ∧
        s.messages.get? message.outboxId = some message ∧ message.identity = draft.identity) ∨
      ∃ message after, enqueueOutbox draft now s = (.ok message, after) ∧
        Stores s draft now message after ∧
        ∀ key, draft.identity = some key → s.dedupe.get? key = none := by
  rcases enqueueOutbox_eq hs draft now with hfault | hsame | ⟨hvalid, hnone, heq⟩
  · exact .inl hfault
  · exact .inr (.inl hsame)
  · rw [heq]
    rcases insertDraft_cases s now hvalid with hfault | ⟨message, after, hcall, hstores⟩
    · exact .inl hfault
    · exact .inr (.inr ⟨message, after, hcall, hstores, hnone⟩)

/-- The next id is new. -/
theorem WellFormed.get?_next {s : InMemoryOutboxStore} (hs : s.WellFormed)
    (hroom : s.nextId < s.nextId + 1) : s.messages.get? (messageId (s.nextId + 1)) = none := by
  cases hget : s.messages.get? (messageId (s.nextId + 1)) with
  | none => rfl
  | some message =>
    obtain ⟨-, n, hle, hid⟩ := hs.numbered _ _ hget
    rw [← messageId_inj hid] at hle
    exact absurd hroom (UInt64.not_lt.mpr hle)

/-! ## One call -/

/-- A call changes the message under an id as `MessageChange` says. -/
theorem messageChange {s : InMemoryOutboxStore} (hs : s.WellFormed) (op : OutboxOp)
    (id : String) : MessageChange id (call op s).1 op (s.messages.get? id)
      ((call op s).2.messages.get? id) := by
  cases op with
  | enqueueOutbox draft now =>
    show MessageChange id _ _ _ ((enqueueOutbox draft now s).2.messages.get? id)
    rcases enqueueOutbox_cases hs draft now with ⟨_, hcall⟩ | ⟨_, hcall, -⟩ |
      ⟨message, after, hcall, hstores, -⟩
    · rw [hcall]
      exact .kept _ _
    · rw [hcall]
      exact .kept _ _
    · rw [hcall, hstores.messages_eq, AssocMap.get?_insert]
      split
      · rename_i hid
        rw [hid, hs.get?_next hstores.room]
        exact .enqueued draft now message hstores.isMessage
      · exact .kept _ _
  | claimOutbox lane target limit leaseMs consumerId now tokens =>
    rcases claimOutbox_cases lane target limit leaseMs consumerId now tokens s with
      ⟨_, hcall⟩ | ⟨claimed, messages, hcall, hclaimed⟩
    · simp only [call, Method.map, hcall]
      exact .kept _ _
    · simp only [call, Method.map, hcall]
      rcases hclaimed.each id with hsame | ⟨_, hmem, -, ⟨message, token, hget, hclaimable, rfl⟩,
        hafter⟩
      · rw [hsame]
        exact .kept _ _
      · rw [hget, hafter]
        exact .claimed lane target limit leaseMs consumerId now tokens message token claimed
          hclaimable rfl hmem
  | ackOutbox outboxId token now =>
    simp only [call, Method.map, ackOutbox]
    cases hget : s.messages.get? outboxId with
    | none => exact .kept _ _
    | some message =>
      dsimp only
      split
      · rename_i hclaim
        by_cases hid : id = outboxId
        · rw [hid]
          simp only [AssocMap.get?_modify_self, hget]
          exact .acked token now message hclaim rfl
        · simp only [AssocMap.get?_modify_of_ne _ _ hid]
          exact .kept _ _
      · exact .kept _ _
  | nackOutbox outboxId token error retryAt now =>
    simp only [call, Method.map, nackOutbox]
    cases hget : s.messages.get? outboxId with
    | none => exact .kept _ _
    | some message =>
      dsimp only
      split
      · rename_i hclaim
        by_cases hid : id = outboxId
        · rw [hid]
          simp only [AssocMap.get?_modify_self, hget]
          exact .nacked token error retryAt now message hclaim
        · simp only [AssocMap.get?_modify_of_ne _ _ hid]
          exact .kept _ _
      · exact .kept _ _
  | listOutbox status limit => exact .kept _ _

/-- A call that is no enqueue leaves the counter and the dedupe keys. -/
theorem call_dedupe (s : InMemoryOutboxStore) (op : OutboxOp)
    (h : ∀ draft now, op ≠ .enqueueOutbox draft now) :
    (call op s).2.nextId = s.nextId ∧ (call op s).2.dedupe = s.dedupe := by
  cases op with
  | enqueueOutbox draft now => exact absurd rfl (h draft now)
  | claimOutbox lane target limit leaseMs consumerId now tokens =>
    rcases claimOutbox_cases lane target limit leaseMs consumerId now tokens s with
      ⟨_, hcall⟩ | ⟨claimed, messages, hcall, -⟩
    · simp [call, Method.map, hcall]
    · simp [call, Method.map, hcall]
  | ackOutbox outboxId token now =>
    simp only [call, Method.map, ackOutbox]
    split
    · simp
    · split <;> simp
  | nackOutbox outboxId token error retryAt now =>
    simp only [call, Method.map, nackOutbox]
    split
    · simp
    · split <;> simp
  | listOutbox status limit => exact ⟨rfl, rfl⟩

/-- A message that is there stays, with its id and identity. -/
theorem get?_call {s : InMemoryOutboxStore} (hs : s.WellFormed) (op : OutboxOp) {id : String}
    {message : OutboxMessage} (h : s.messages.get? id = some message) :
    ∃ message', (call op s).2.messages.get? id = some message' ∧
      message'.outboxId = message.outboxId ∧ message'.identity = message.identity ∧
      (message.ClaimFields → message'.ClaimFields) := by
  have hchange := messageChange hs op id
  rw [h] at hchange
  exact hchange.keeps

/-- A message after a call that is no enqueue was there before. -/
theorem get?_of_call {s : InMemoryOutboxStore} (hs : s.WellFormed) {op : OutboxOp}
    (hop : ∀ draft now, op ≠ .enqueueOutbox draft now) {id : String} {message' : OutboxMessage}
    (h : (call op s).2.messages.get? id = some message') :
    ∃ message, s.messages.get? id = some message := by
  have hchange := messageChange hs op id
  rw [h] at hchange
  cases hget : s.messages.get? id with
  | some message => exact ⟨message, rfl⟩
  | none =>
    rw [hget] at hchange
    cases hchange with
    | enqueued draft now => exact absurd rfl (hop draft now)

/-- Storing a new message keeps the store well-formed. -/
theorem WellFormed.stores {s after : InMemoryOutboxStore} (hs : s.WellFormed)
    {draft : OutboxMessageDraft} {now : UInt64} {message : OutboxMessage}
    (h : Stores s draft now message after)
    (hnone : ∀ key, draft.identity = some key → s.dedupe.get? key = none) :
    after.WellFormed := by
  obtain ⟨hid, hidentity, -, hfields⟩ := OutboxMessage.fromEnqueue_eq_ok h.isMessage
  have hnext := hs.get?_next h.room
  have hget : ∀ id, after.messages.get? id =
      if id = messageId (s.nextId + 1) then some message else s.messages.get? id := by
    intro id
    rw [h.messages_eq, AssocMap.get?_insert]
  -- a message of the store afterwards is the new one or an old one
  have hsplit : ∀ id message', after.messages.get? id = some message' →
      id = messageId (s.nextId + 1) ∧ message' = message ∨
        s.messages.get? id = some message' := by
    intro id message' hafter
    rw [hget] at hafter
    split at hafter
    · rename_i heq
      exact .inl ⟨heq, (Option.some.inj hafter).symm⟩
    · exact .inr hafter
  constructor
  · intro id message' hafter
    rcases hsplit id message' hafter with ⟨rfl, rfl⟩ | hold
    · exact ⟨hid, s.nextId + 1, by rw [h.nextId_eq]; exact UInt64.le_refl _, rfl⟩
    · obtain ⟨hsame, n, hle, hn⟩ := hs.numbered id message' hold
      refine ⟨hsame, n, ?_, hn⟩
      rw [h.nextId_eq]
      exact UInt64.le_of_lt (UInt64.lt_of_le_of_lt hle h.room)
  · intro id message' hafter
    rcases hsplit id message' hafter with ⟨rfl, rfl⟩ | hold
    · exact hfields
    · exact hs.claimFields id message' hold
  · intro id message' hafter key hkey
    rcases hsplit id message' hafter with ⟨rfl, rfl⟩ | hold
    · exact ⟨_, by rw [h.dedupe_get?, if_pos (hidentity.symm.trans hkey)], rfl⟩
    · obtain ⟨record, hrecord, hsame⟩ := hs.indexed id message' hold key hkey
      have hne : draft.identity ≠ some key := by
        intro heq
        rw [hnone key heq] at hrecord
        cases hrecord
      exact ⟨record, by rw [h.dedupe_get?, if_neg hne, hrecord], hsame⟩
  · intro key record hrecord
    rw [h.dedupe_get?] at hrecord
    split at hrecord
    · rename_i hkey
      cases hrecord
      exact ⟨message, by rw [hget, if_pos rfl], hidentity.trans hkey, hkey⟩
    · obtain ⟨message', hold, hrest⟩ := hs.recorded key record hrecord
      have hne : record.outboxId ≠ messageId (s.nextId + 1) := by
        intro heq
        rw [heq, hnext] at hold
        cases hold
      exact ⟨message', by rw [hget, if_neg hne, hold], hrest⟩

/-- Every call keeps the store well-formed. -/
theorem WellFormed.call {s : InMemoryOutboxStore} (hs : s.WellFormed) (op : OutboxOp) :
    (call op s).2.WellFormed := by
  by_cases hop : ∃ draft now, op = .enqueueOutbox draft now
  · obtain ⟨draft, now, rfl⟩ := hop
    show (enqueueOutbox draft now s).2.WellFormed
    rcases enqueueOutbox_cases hs draft now with ⟨_, hcall⟩ | ⟨_, hcall, -⟩ |
      ⟨message, after, hcall, hstores, hnone⟩
    · rw [hcall]
      exact hs
    · rw [hcall]
      exact hs
    · rw [hcall]
      exact hs.stores hstores hnone
  · have hop' : ∀ draft now, op ≠ .enqueueOutbox draft now :=
      fun draft now heq => hop ⟨draft, now, heq⟩
    obtain ⟨hnext, hdedupe⟩ := call_dedupe s op hop'
    -- the message under an id comes from the one before, with the same id and identity
    have hback : ∀ id message', (InMemoryOutboxStore.call op s).2.messages.get? id =
        some message' → ∃ message, s.messages.get? id = some message ∧
          message'.outboxId = message.outboxId ∧ message'.identity = message.identity ∧
          (message.ClaimFields → message'.ClaimFields) := by
      intro id message' hafter
      obtain ⟨message, hget⟩ := get?_of_call hs hop' hafter
      obtain ⟨message'', hafter', hkeeps⟩ := get?_call hs op hget
      rw [hafter] at hafter'
      cases hafter'
      exact ⟨message, hget, hkeeps⟩
    constructor
    · intro id message' hafter
      obtain ⟨message, hget, hid, -⟩ := hback id message' hafter
      rw [hid, hnext]
      exact hs.numbered id message hget
    · intro id message' hafter
      obtain ⟨message, hget, -, -, hfields⟩ := hback id message' hafter
      exact hfields (hs.claimFields id message hget)
    · intro id message' hafter key hkey
      obtain ⟨message, hget, -, hidentity, -⟩ := hback id message' hafter
      rw [hdedupe]
      exact hs.indexed id message hget key (hidentity.symm.trans hkey)
    · intro key record hrecord
      rw [hdedupe] at hrecord
      obtain ⟨message, hget, hkey, hdigest⟩ := hs.recorded key record hrecord
      obtain ⟨message', hafter, -, hidentity, -⟩ := get?_call hs op hget
      exact ⟨message', hafter, hidentity.trans hkey, hdigest⟩

end InMemoryOutboxStore

end Remo
