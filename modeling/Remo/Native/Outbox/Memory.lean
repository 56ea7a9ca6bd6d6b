import Remo.ForStd.AssocMap
import Remo.ForStd.Machine
import Remo.Native.Message.Message
import Remo.Native.Storage.Error

/-!
# The outbox

Outbox messages, and the store that keeps them in memory.
-/

/-! ## Outbox messages

A draft is enqueued as a pending message. A consumer claims the message under a token and a
lease, delivers it, and acknowledges it or gives it back with the token of its claim.
-/

namespace Remo

inductive OutboxError where
  | validation (message : String)
  | conflict (message : String)
  | io (message : String)
  | serialization (message : String)
deriving Repr, DecidableEq

inductive OutboxStatus where
  | pending
  | claimed
  | delivered
  | deadLetter
deriving Repr, DecidableEq

namespace OutboxError

def rejectBlank (field value : String) : Except OutboxError Unit :=
  if Str.isBlank value then .error (.validation s!"{field} is required") else .ok ()

end OutboxError

structure OutboxMessageDraft where
  lane : String
  target : String
  payload : Json
  dedupeKey : Option String
  availableAt : UInt64
  maxAttempts : UInt32
deriving Repr, DecidableEq

namespace OutboxMessageDraft

/-- The checks of `validate` in the order of the source. -/
def validate (draft : OutboxMessageDraft) : Except OutboxError Unit := do
  OutboxError.rejectBlank "lane" draft.lane
  OutboxError.rejectBlank "target" draft.target
  if let some dedupeKey := draft.dedupeKey then
    OutboxError.rejectBlank "dedupe_key" dedupeKey
  if draft.maxAttempts = 0 then
    throw (.validation "max_attempts must be greater than zero")

end OutboxMessageDraft

structure OutboxMessage where
  outboxId : String
  lane : String
  target : String
  payload : Json
  dedupeKey : Option String
  status : OutboxStatus
  availableAt : UInt64
  attemptCount : UInt32
  maxAttempts : UInt32
  claimedBy : Option String
  claimToken : Option String
  leaseExpiresAt : Option UInt64
  lastError : Option String
  createdAt : UInt64
  updatedAt : UInt64
deriving Repr, DecidableEq

/-- The message of a draft under its new id. -/
def OutboxMessage.fromEnqueue (outboxId : String) (draft : OutboxMessageDraft) (now : UInt64) :
    Except OutboxError OutboxMessage := do
  draft.validate
  OutboxError.rejectBlank "outbox_id" outboxId
  return {
    outboxId, lane := draft.lane, target := draft.target, payload := draft.payload
    dedupeKey := draft.dedupeKey, status := .pending, availableAt := draft.availableAt
    attemptCount := 0, maxAttempts := draft.maxAttempts, claimedBy := none, claimToken := none
    leaseExpiresAt := none, lastError := none, createdAt := now, updatedAt := now }

inductive OutboxNackOutcome where
  | requeued
  | deadLettered
  | lostClaim
deriving Repr, DecidableEq

end Remo

/-! ## The in-memory outbox store

Every call holds the write lock of the store from its start to its end, so a run of the store is
a sequence of whole calls.
-/

namespace Remo

/-- A call that did not return a value: an error, or a panic. -/
inductive OutboxFault where
  | outbox (error : OutboxError)
  | panic (panic : Panic)
deriving Repr, DecidableEq

/-- The input of the enqueue that holds a dedupe key, and its message. The source keeps the bytes
    of the draft's JSON; they are equal when the drafts are. -/
structure DedupeRecord where
  digest : OutboxMessageDraft
  outboxId : String
deriving Repr, DecidableEq

structure InMemoryOutboxStore where
  nextId : UInt64
  messages : AssocMap String OutboxMessage
  dedupe : AssocMap (String × String × String) DedupeRecord

namespace InMemoryOutboxStore

def new : InMemoryOutboxStore := ⟨0, AssocMap.empty, AssocMap.empty⟩

/-- Fail with an error of the store. -/
def fail {α : Type} (error : OutboxError) : Except OutboxFault α := .error (.outbox error)

/-- The id of the `n`-th message. -/
def messageId (n : UInt64) : String := s!"out_mem_{n.toNat}"

/-! ## Enqueue -/

/-- Store the message of a draft under the next id. `now` is the clock of the store. -/
def insertDraft (draft : OutboxMessageDraft) (now : UInt64) :
    Method OutboxFault InMemoryOutboxStore OutboxMessage := fun s =>
  if s.nextId.toNat + 1 < 0x10000000000000000 then
    let s := { s with nextId := s.nextId + 1 }
    let outboxId := messageId s.nextId
    match OutboxMessage.fromEnqueue outboxId draft now with
    | .error error => (fail error, s)
    | .ok message =>
      let s := match draft.dedupeKey with
        | none => s
        | some dedupeKey => { s with
            dedupe := s.dedupe.insert (draft.lane, draft.target, dedupeKey) ⟨draft, outboxId⟩ }
      (.ok message, { s with messages := s.messages.insert message.outboxId message })
  else (.error (.panic .arithmeticOverflow), s)

def enqueueOutbox (draft : OutboxMessageDraft) (now : UInt64) :
    Method OutboxFault InMemoryOutboxStore OutboxMessage := fun s =>
  match draft.validate with
  | .error error => (fail error, s)
  | .ok () =>
    match draft.dedupeKey with
    | none => insertDraft draft now s
    | some dedupeKey =>
      match s.dedupe.get? (draft.lane, draft.target, dedupeKey) with
      | none => insertDraft draft now s
      | some record =>
        if record.digest ≠ draft then
          (fail (.conflict s!"outbox dedupe key reused with different input: {dedupeKey}"), s)
        else
          match s.messages.get? record.outboxId with
          | none => (fail (.io
              s!"outbox dedupe index points at missing message: {record.outboxId}"), s)
          | some message => (.ok message, s)

/-! ## Claim -/

def isClaimable (message : OutboxMessage) (lane target : String) (now : UInt64) : Bool :=
  message.lane == lane && message.target == target
    && (message.status == .pending || message.status == .claimed)
    && decide (message.availableAt ≤ now)
    && (message.status == .pending || message.leaseExpiresAt.any fun at_ => decide (at_ ≤ now))

/-- `u32::saturating_add` of one. -/
def nextAttempt (attempts : UInt32) : UInt32 :=
  if attempts.toNat + 1 < 0x100000000 then attempts + 1 else attempts

/-- `u64::saturating_add`. -/
def saturatingAdd (a b : UInt64) : UInt64 :=
  if a.toNat + b.toNat < 0x10000000000000000 then a + b else 0xFFFFFFFFFFFFFFFF

/-- The message under a new claim. -/
def claimMessage (message : OutboxMessage) (leaseMs : UInt64) (consumerId : String) (now : UInt64)
    (token : Uuid) : OutboxMessage :=
  { message with
    status := .claimed
    attemptCount := nextAttempt message.attemptCount
    claimedBy := some consumerId
    claimToken := some s!"claim_{token.text}_{(nextAttempt message.attemptCount).toNat}"
    leaseExpiresAt := some (saturatingAdd now leaseMs)
    updatedAt := now }

/-- The order of claims: available first, then created first, then by id. -/
def claimLe (a b : OutboxMessage) : Prop :=
  a.availableAt < b.availableAt ∨ a.availableAt = b.availableAt ∧
    (a.createdAt < b.createdAt ∨ a.createdAt = b.createdAt ∧ a.outboxId ≤ b.outboxId)

instance (a b : OutboxMessage) : Decidable (claimLe a b) := by unfold claimLe; infer_instance

/-- The ids of all messages in the order of claims. -/
def claimOrder (s : InMemoryOutboxStore) : List String :=
  (s.messages.entries.insertionSort fun a b => claimLe a.2 b.2).map Prod.fst

/-- The loop of `claim_outbox`, with the messages claimed so far. The UUID of the `n`-th of them
    is `tokens n`. -/
def claimLoop (lane target : String) (limit leaseMs : UInt64) (consumerId : String) (now : UInt64)
    (tokens : Nat → Uuid) (claimed : List OutboxMessage) :
    List String → InMemoryOutboxStore → List OutboxMessage × InMemoryOutboxStore
  | [], s => (claimed, s)
  | id :: ids, s =>
    if limit.toNat ≤ claimed.length then (claimed, s)
    else
      match s.messages.get? id with
      | none => claimLoop lane target limit leaseMs consumerId now tokens claimed ids s
      | some message =>
        if isClaimable message lane target now then
          let message := claimMessage message leaseMs consumerId now (tokens claimed.length)
          claimLoop lane target limit leaseMs consumerId now tokens (claimed ++ [message]) ids
            { s with messages := s.messages.modify id fun _ => message }
        else claimLoop lane target limit leaseMs consumerId now tokens claimed ids s

def claimOutbox (lane target : String) (limit leaseMs : UInt64) (consumerId : String)
    (now : UInt64) (tokens : Nat → Uuid) :
    Method OutboxFault InMemoryOutboxStore (List OutboxMessage) := fun s =>
  match OutboxError.rejectBlank "lane" lane with
  | .error error => (fail error, s)
  | .ok () =>
    match OutboxError.rejectBlank "target" target with
    | .error error => (fail error, s)
    | .ok () =>
      match OutboxError.rejectBlank "consumer_id" consumerId with
      | .error error => (fail error, s)
      | .ok () =>
        let (claimed, s) :=
          claimLoop lane target limit leaseMs consumerId now tokens [] s.claimOrder s
        (.ok claimed, s)

/-! ## Ack and nack -/

/-- The message is claimed under the token. -/
def holdsClaim (claimToken : String) (message : OutboxMessage) : Bool :=
  message.status == .claimed && message.claimToken == some claimToken

/-- The message without its claim. -/
def releaseClaim (message : OutboxMessage) (now : UInt64) : OutboxMessage :=
  { message with
    claimedBy := none
    claimToken := none
    leaseExpiresAt := none
    updatedAt := now }

def ackOutbox (outboxId claimToken : String) (now : UInt64) :
    Method OutboxFault InMemoryOutboxStore Bool := fun s =>
  match s.messages.get? outboxId with
  | none => (.ok false, s)
  | some message =>
    if holdsClaim claimToken message then
      let message := { releaseClaim message now with status := .delivered }
      (.ok true, { s with messages := s.messages.modify outboxId fun _ => message })
    else (.ok false, s)

/-- The message after the delivery failed, and whether it will be tried again. -/
def nackMessage (message : OutboxMessage) (error : String) (retryAt now : UInt64) :
    OutboxNackOutcome × OutboxMessage :=
  let message := { releaseClaim message now with lastError := some error }
  if message.maxAttempts ≤ message.attemptCount then
    (.deadLettered, { message with status := .deadLetter })
  else (.requeued, { message with status := .pending, availableAt := retryAt })

def nackOutbox (outboxId claimToken error : String) (retryAt now : UInt64) :
    Method OutboxFault InMemoryOutboxStore OutboxNackOutcome := fun s =>
  match s.messages.get? outboxId with
  | none => (.ok .lostClaim, s)
  | some message =>
    if holdsClaim claimToken message then
      let (outcome, message) := nackMessage message error retryAt now
      (.ok outcome, { s with messages := s.messages.modify outboxId fun _ => message })
    else (.ok .lostClaim, s)

/-! ## List -/

/-- The order of listings: created first, then available first, then by id. -/
def listLe (a b : OutboxMessage) : Prop :=
  a.createdAt < b.createdAt ∨ a.createdAt = b.createdAt ∧
    (a.availableAt < b.availableAt ∨ a.availableAt = b.availableAt ∧ a.outboxId ≤ b.outboxId)

instance (a b : OutboxMessage) : Decidable (listLe a b) := by unfold listLe; infer_instance

def listOutbox (s : InMemoryOutboxStore) (status : Option OutboxStatus) (limit : UInt64) :
    List OutboxMessage :=
  ((s.messages.values.insertionSort listLe).filter fun message =>
    status.all fun status => message.status == status).take limit.toNat

end InMemoryOutboxStore

/-- A call of a consumer or a producer, with the clock and the UUIDs it reads. -/
inductive OutboxOp where
  | enqueueOutbox (draft : OutboxMessageDraft) (now : UInt64)
  | claimOutbox (lane target : String) (limit leaseMs : UInt64) (consumerId : String)
      (now : UInt64) (tokens : Nat → Uuid)
  | ackOutbox (outboxId claimToken : String) (now : UInt64)
  | nackOutbox (outboxId claimToken error : String) (retryAt now : UInt64)
  | listOutbox (status : Option OutboxStatus) (limit : UInt64)

inductive OutboxReply where
  | enqueued (message : OutboxMessage)
  | claimed (messages : List OutboxMessage)
  | acked (result : Bool)
  | nacked (outcome : OutboxNackOutcome)
  | listed (messages : List OutboxMessage)
deriving Repr, DecidableEq

namespace InMemoryOutboxStore

def call : OutboxOp → Method OutboxFault InMemoryOutboxStore OutboxReply
  | .enqueueOutbox draft now => Method.map .enqueued (enqueueOutbox draft now)
  | .claimOutbox lane target limit leaseMs consumerId now tokens =>
    Method.map .claimed (claimOutbox lane target limit leaseMs consumerId now tokens)
  | .ackOutbox outboxId claimToken now => Method.map .acked (ackOutbox outboxId claimToken now)
  | .nackOutbox outboxId claimToken error retryAt now =>
    Method.map .nacked (nackOutbox outboxId claimToken error retryAt now)
  | .listOutbox status limit => fun s => (.ok (.listed (s.listOutbox status limit)), s)

/-- The store as a machine whose events are calls. -/
def machine : Machine InMemoryOutboxStore OutboxOp (Except OutboxFault OutboxReply) where
  step s op := call op s

end InMemoryOutboxStore

end Remo
