import Remo.ForStd.DecimalOrder
import Remo.Spec.Outbox.Fencing
import Mathlib.Data.List.Induction

/-!
# The order of the outbox

Claims and listings sort by two times and then by the id, which is a decimal number as a text.
With equal times of availability, messages are sorted as they were enqueued unless a power of ten
falls into the middle of a millisecond.

## Key results

- `queue_run`: what the store holds after a run of enqueues with one time of availability
- `Queue.sorted`: the stored messages are sorted when no turn of the digits is in a millisecond
-/

namespace Remo.InMemoryOutboxStore

/-- The message that a step stores for a draft. -/
def newMessage (t : OutboxStep) : Option OutboxMessage :=
  match t.reply with
  | .ok (.enqueued message) =>
    if (t.before.messages.get? message.outboxId).isNone then some message else none
  | .ok (.claimed _) => none
  | .ok (.acked _) => none
  | .ok (.nacked _) => none
  | .ok (.listed _) => none
  | .error _ => none

/-- The messages that the steps enqueue, in order. -/
def enqueued (steps : List OutboxStep) : List OutboxMessage := steps.filterMap newMessage

/-- No power of ten is enqueued in the millisecond of the number in front of it. The `n`-th
    message is enqueued at the `n`-th time. -/
def TurnsApart (times : List UInt64) : Prop :=
  ∀ k time, times[10 ^ (k + 1) - 2]? = some time → times[10 ^ (k + 1) - 1]? ≠ some time

/-- A delivery fails when it is given back, and when its lease is over. -/
def NoFailedDelivery (s : InMemoryOutboxStore) : OutboxOp → Prop
  | .nackOutbox outboxId claimToken _ _ _ => ¬ s.Valid outboxId claimToken
  | .claimOutbox lane target _ _ _ now _ => ∀ id message, s.messages.get? id = some message →
      message.lane = lane → message.target = target → message.status = .claimed →
        ∀ lease, message.leaseExpiresAt = some lease → now < lease
  | .enqueueOutbox _ _ => True
  | .ackOutbox _ _ _ => True
  | .listOutbox _ _ => True

/-- The time at which an enqueue reads the clock. -/
def enqueueTime : OutboxOp → Option UInt64
  | .enqueueOutbox _ now => some now
  | .claimOutbox _ _ _ _ _ _ _ => none
  | .ackOutbox _ _ _ => none
  | .nackOutbox _ _ _ _ _ => none
  | .listOutbox _ _ => none

/-- Enqueues ask for one time of availability. -/
def SameAvailability (available : UInt64) : OutboxOp → Prop
  | .enqueueOutbox draft _ => draft.availableAt = available
  | .claimOutbox _ _ _ _ _ _ _ => True
  | .ackOutbox _ _ _ => True
  | .nackOutbox _ _ _ _ _ => True
  | .listOutbox _ _ => True

/-- The store holds the enqueued messages in order, all available at one time. -/
structure Queue (available : UInt64) (s : InMemoryOutboxStore) (messages : List OutboxMessage) :
    Prop where
  count : s.nextId.toNat = messages.length
  keys : s.messages.keys = messages.map OutboxMessage.outboxId
  numbered : ∀ i message, messages[i]? = some message →
    message.outboxId = messageId (.ofNat (i + 1))
  stored : ∀ m ∈ messages, ∃ message, s.messages.get? m.outboxId = some message ∧
    message.createdAt = m.createdAt ∧ message.availableAt = available

/-! ## One call -/

theorem fromEnqueue_times {id : String} {draft : OutboxMessageDraft} {now : UInt64}
    {message : OutboxMessage} (h : OutboxMessage.fromEnqueue id draft now = .ok message) :
    message.createdAt = now ∧ message.availableAt = draft.availableAt := by
  simp only [OutboxMessage.fromEnqueue, bind, Except.bind, pure, Except.pure] at h
  split at h
  · cases h
  · split at h
    · cases h
    · cases h
      exact ⟨rfl, rfl⟩

theorem claimLoop_keys {lane target : String} {limit leaseMs : UInt64} {consumerId : String}
    {now : UInt64} {tokens : Nat → Uuid} (ids : List String) (claimed : List OutboxMessage)
    (s : InMemoryOutboxStore) :
    (claimLoop lane target limit leaseMs consumerId now tokens claimed ids s).2.messages.keys =
      s.messages.keys := by
  induction ids generalizing claimed s with
  | nil => rfl
  | cons id ids ih =>
    rw [claimLoop]
    split
    · rfl
    · cases s.messages.get? id with
      | none => exact ih claimed s
      | some message =>
        dsimp only
        split
        · rw [ih]
          exact AssocMap.keys_modify _ _ _
        · exact ih claimed s

/-- A call that is no enqueue leaves the ids, and stores no message for a draft. -/
theorem call_keys (s : InMemoryOutboxStore) {op : OutboxOp} (h : enqueueTime op = none) :
    (call op s).2.messages.keys = s.messages.keys ∧
      newMessage ⟨s, op, (call op s).1, (call op s).2⟩ = none := by
  cases op with
  | enqueueOutbox => cases h
  | claimOutbox lane target limit leaseMs consumerId now tokens =>
    simp only [call, Method.map, claimOutbox]
    split
    · exact ⟨rfl, rfl⟩
    · split
      · exact ⟨rfl, rfl⟩
      · split
        · exact ⟨rfl, rfl⟩
        · exact ⟨claimLoop_keys _ _ _, rfl⟩
  | ackOutbox outboxId token now =>
    simp only [call, Method.map, ackOutbox]
    split
    · exact ⟨rfl, rfl⟩
    · split
      · exact ⟨AssocMap.keys_modify _ _ _, rfl⟩
      · exact ⟨rfl, rfl⟩
  | nackOutbox outboxId token error retryAt now =>
    simp only [call, Method.map, nackOutbox]
    split
    · exact ⟨rfl, rfl⟩
    · split
      · exact ⟨AssocMap.keys_modify _ _ _, rfl⟩
      · exact ⟨rfl, rfl⟩
  | listOutbox status limit => exact ⟨rfl, rfl⟩

/-- Without a failed delivery a message keeps its times. -/
theorem MessageChange.times {s : InMemoryOutboxStore} {id : String}
    {reply : Except OutboxFault OutboxReply} {op : OutboxOp} {message : OutboxMessage}
    {after : Option OutboxMessage} (h : MessageChange id reply op (some message) after)
    (hget : s.messages.get? id = some message) (hdelivers : s.NoFailedDelivery op) :
    ∃ message', after = some message' ∧ message'.createdAt = message.createdAt ∧
      message'.availableAt = message.availableAt := by
  cases h with
  | kept => exact ⟨message, rfl, rfl, rfl⟩
  | claimed => exact ⟨_, rfl, rfl, rfl⟩
  | acked => exact ⟨_, rfl, rfl, rfl⟩
  | nacked token error retryAt now _ hclaim =>
    exact absurd (valid_iff.mpr ⟨message, hget, hclaim⟩) hdelivers

theorem queue_new (available : UInt64) : Queue available new [] where
  count := rfl
  keys := rfl
  numbered := by simp
  stored := by simp

/-- One call keeps the queue, and puts a message it stores at its end. -/
theorem Queue.call {available : UInt64} {s : InMemoryOutboxStore} {messages : List OutboxMessage}
    (h : Queue available s messages) (hs : s.WellFormed) {op : OutboxOp}
    (havailable : SameAvailability available op) (hdelivers : s.NoFailedDelivery op) :
    Queue available (call op s).2
      (messages ++ (newMessage ⟨s, op, (call op s).1, (call op s).2⟩).toList) := by
  -- the messages that are there keep their times
  have hkept : ∀ m ∈ messages, ∃ message, (InMemoryOutboxStore.call op s).2.messages.get?
      m.outboxId = some message ∧ message.createdAt = m.createdAt ∧
        message.availableAt = available := by
    intro m hm
    obtain ⟨message, hget, hcreated, havail⟩ := h.stored m hm
    have hchange := messageChange hs op m.outboxId
    rw [hget] at hchange
    obtain ⟨message', hget', hcreated', havail'⟩ := hchange.times hget hdelivers
    exact ⟨message', hget', hcreated'.trans hcreated, havail'.trans havail⟩
  by_cases hop : enqueueTime op = none
  · obtain ⟨hkeys, hnone⟩ := call_keys s hop
    have hcount : (InMemoryOutboxStore.call op s).2.nextId = s.nextId := by
      apply (call_dedupe s op _).1
      intro draft now heq
      rw [heq] at hop
      cases hop
    rw [hnone, Option.toList_none, List.append_nil]
    exact ⟨by rw [hcount]; exact h.count, hkeys.trans h.keys, h.numbered, hkept⟩
  · cases op with
    | claimOutbox => exact absurd rfl hop
    | ackOutbox => exact absurd rfl hop
    | nackOutbox => exact absurd rfl hop
    | listOutbox => exact absurd rfl hop
    | enqueueOutbox draft now =>
      rcases enqueueOutbox_cases hs draft now with ⟨_, hcall⟩ | ⟨message, hcall, hget, -⟩ |
        ⟨message, after, hcall, hstores, -⟩
      · simp only [InMemoryOutboxStore.call, Method.map, hcall, newMessage, Except.map,
          Option.toList_none, List.append_nil]
        exact h
      · simp only [InMemoryOutboxStore.call, Method.map, hcall, newMessage, Except.map, hget,
          Option.isNone_some, Bool.false_eq_true, if_false, Option.toList_none, List.append_nil]
        exact h
      · have hid := (OutboxMessage.fromEnqueue_eq_ok hstores.isMessage).1
        obtain ⟨hcreated, havail⟩ := fromEnqueue_times hstores.isMessage
        have hnext := hs.get?_next hstores.room
        have hnew : newMessage ⟨s, .enqueueOutbox draft now,
            (InMemoryOutboxStore.call (.enqueueOutbox draft now) s).1,
            (InMemoryOutboxStore.call (.enqueueOutbox draft now) s).2⟩ = some message := by
          simp [InMemoryOutboxStore.call, Method.map, hcall, newMessage, Except.map, hid, hnext]
        have hafter : (InMemoryOutboxStore.call (.enqueueOutbox draft now) s).2 = after := by
          simp [InMemoryOutboxStore.call, Method.map, hcall]
        have hcount : (s.nextId + 1).toNat = messages.length + 1 := by
          have hlt := UInt64.lt_iff_toNat_lt.mp hstores.room
          have hmod : (s.nextId + 1).toNat = (s.nextId.toNat + 1) % 0x10000000000000000 :=
            UInt64.toNat_add s.nextId 1
          have hcount := h.count
          omega
        rw [hafter] at hkept
        rw [hnew, hafter, Option.toList_some]
        constructor
        · rw [hstores.nextId_eq, hcount]
          simp
        · have hfresh : messageId (s.nextId + 1) ∉ s.messages.keys :=
            AssocMap.get?_eq_none.mp hnext
          have hinsert : (s.messages.insert (messageId (s.nextId + 1)) message).keys =
              s.messages.keys ++ [messageId (s.nextId + 1)] := by
            unfold AssocMap.insert
            rw [dif_neg hfresh]
            simp [AssocMap.keys]
          rw [hstores.messages_eq, hinsert, h.keys, List.map_append, List.map_singleton, hid]
        · intro i m hi
          rw [List.getElem?_append] at hi
          split at hi
          · exact h.numbered i m hi
          · rename_i hge
            have hlast : i = messages.length := by
              have hlt := (List.getElem?_eq_some_iff.mp hi).1
              simp only [List.length_singleton] at hlt
              omega
            rw [hlast, Nat.sub_self] at hi
            cases hi
            rw [hid, hlast, ← hcount, UInt64.ofNat_toNat]
        · intro m hm
          cases List.mem_append.mp hm with
          | inl hold => exact hkept m hold
          | inr hlast =>
            rw [List.mem_singleton.mp hlast]
            refine ⟨message, ?_, rfl, havail.trans havailable⟩
            rw [hstores.messages_eq, hid]
            exact AssocMap.get?_insert_self _ _ _

/-! ## Sorting -/

theorem messageId_lt {m n : UInt64} (h : Nat.toDigits 10 m.toNat < Nat.toDigits 10 n.toNat) :
    messageId m < messageId n := by
  rw [String.lt_iff_toList_lt]
  show ("out_mem_" ++ toString m.toNat).toList < ("out_mem_" ++ toString n.toNat).toList
  rw [String.toList_append, String.toList_append]
  apply List.append_left_lt
  show m.toNat.repr.toList < n.toNat.repr.toList
  rw [Nat.toList_repr, Nat.toList_repr]
  exact h

/-- Between two numbers of one millisecond there is no power of ten, when the turns are apart. -/
theorem TurnsApart.no_power {times : List UInt64} (h : TurnsApart times)
    (hclimb : times.Pairwise (· ≤ ·)) {i j : Nat} {time : UInt64} (hi : times[i]? = some time)
    (hj : times[j]? = some time) (k : Nat) : ¬ (i + 1 < 10 ^ (k + 1) ∧ 10 ^ (k + 1) ≤ j + 1) := by
  intro hpow
  obtain ⟨hlow, hhigh⟩ := hpow
  have hjlt : j < times.length := (List.getElem?_eq_some_iff.mp hj).1
  -- every time between the two is theirs
  have hbetween : ∀ n, i ≤ n → n ≤ j → times[n]? = some time := by
    intro n hin hnj
    have hn : n < times.length := by omega
    rw [List.getElem?_eq_getElem hn]
    have hle : time ≤ times[n] := by
      rcases Nat.eq_or_lt_of_le hin with heq | hlt
      · subst heq
        rw [List.getElem?_eq_getElem hn] at hi
        rw [Option.some.inj hi]
        exact UInt64.le_refl _
      · have hpair := List.pairwise_iff_getElem.mp hclimb i n (by omega) hn hlt
        rw [List.getElem?_eq_getElem (by omega)] at hi
        rw [← Option.some.inj hi]
        exact hpair
    have hge : times[n] ≤ time := by
      rcases Nat.eq_or_lt_of_le hnj with heq | hlt
      · subst heq
        rw [List.getElem?_eq_getElem hn] at hj
        rw [Option.some.inj hj]
        exact UInt64.le_refl _
      · have hpair := List.pairwise_iff_getElem.mp hclimb n j hn hjlt hlt
        rw [List.getElem?_eq_getElem hjlt] at hj
        rw [← Option.some.inj hj]
        exact hpair
    rw [UInt64.le_antisymm hge hle]
  exact h k time (hbetween _ (by omega) (by omega)) (hbetween _ (by omega) (by omega))

/-- The number of a message is its place in the queue. -/
theorem Queue.toNat_number {available : UInt64} {s : InMemoryOutboxStore}
    {messages : List OutboxMessage} (h : Queue available s messages) {i : Nat}
    (hi : i < messages.length) : (UInt64.ofNat (i + 1)).toNat = i + 1 := by
  have hlt := s.nextId.toNat_lt
  have hcount := h.count
  rw [UInt64.toNat_ofNat_of_lt' (by show i + 1 < 0x10000000000000000; omega)]

/-- An earlier message of the queue sorts before a later one. -/
theorem Queue.id_lt {available : UInt64} {s : InMemoryOutboxStore} {messages : List OutboxMessage}
    (h : Queue available s messages)
    (hclimb : (messages.map OutboxMessage.createdAt).Pairwise (· ≤ ·))
    (hturns : TurnsApart (messages.map OutboxMessage.createdAt)) {i j : Nat}
    {a b : OutboxMessage} (ha : messages[i]? = some a) (hb : messages[j]? = some b) (hij : i < j)
    (hsame : a.createdAt = b.createdAt) : a.outboxId < b.outboxId := by
  have hi := (List.getElem?_eq_some_iff.mp ha).1
  have hj := (List.getElem?_eq_some_iff.mp hb).1
  rw [h.numbered i a ha, h.numbered j b hb]
  apply messageId_lt
  rw [h.toNat_number hi, h.toNat_number hj]
  apply Decimal.toDigits_lt_toDigits (by omega)
  apply @TurnsApart.no_power _ hturns hclimb _ _ b.createdAt
  · rw [List.getElem?_map, ha, ← hsame]
    rfl
  · rw [List.getElem?_map, hb]
    rfl

/-- The stored messages are sorted, in the order of claims and in that of listings. -/
theorem Queue.sorted {available : UInt64} {s : InMemoryOutboxStore} {messages : List OutboxMessage}
    (h : Queue available s messages) (hs : s.WellFormed)
    (hclimb : (messages.map OutboxMessage.createdAt).Pairwise (· ≤ ·))
    (hturns : TurnsApart (messages.map OutboxMessage.createdAt)) :
    s.messages.entries.Pairwise fun a b => claimLe a.2 b.2 ∧ listLe a.2 b.2 := by
  rw [List.pairwise_iff_getElem]
  intro i j hi hj hij
  -- the entry at a place is that of the message enqueued there
  have hentry : ∀ n (hn : n < s.messages.entries.length), ∃ m, messages[n]? = some m ∧
      (s.messages.entries[n]).2.outboxId = m.outboxId ∧
      (s.messages.entries[n]).2.createdAt = m.createdAt ∧
      (s.messages.entries[n]).2.availableAt = available := by
    intro n hn
    have hkey : s.messages.keys[n]? = some (s.messages.entries[n]).1 := by
      show (s.messages.entries.map Prod.fst)[n]? = _
      rw [List.getElem?_map, List.getElem?_eq_getElem hn]
      rfl
    rw [h.keys, List.getElem?_map] at hkey
    obtain ⟨m, hm, hid⟩ := Option.map_eq_some_iff.mp hkey
    obtain ⟨message, hget, hcreated, havail⟩ := h.stored m (List.mem_of_getElem? hm)
    have hmem : s.messages.get? (s.messages.entries[n]).1 = some (s.messages.entries[n]).2 :=
      AssocMap.get?_eq_some.mpr (List.getElem_mem hn)
    have hown := (hs.numbered _ _ hmem).1
    rw [← hid, hget] at hmem
    have hsame := Option.some.inj hmem
    refine ⟨m, hm, ?_, ?_, ?_⟩
    · rw [hown, hid]
    · rw [← hsame, hcreated]
    · rw [← hsame, havail]
  obtain ⟨a, ha, hida, hcreateda, havaila⟩ := hentry i hi
  obtain ⟨b, hb, hidb, hcreatedb, havailb⟩ := hentry j hj
  have hle : a.createdAt ≤ b.createdAt := by
    have hlen := (List.getElem?_eq_some_iff.mp hb).1
    have hpair := List.pairwise_iff_getElem.mp hclimb i j (by simp; omega) (by simp; omega) hij
    rw [List.getElem_map, List.getElem_map] at hpair
    have hagain := (List.getElem?_eq_some_iff.mp ha).2
    have hbgain := (List.getElem?_eq_some_iff.mp hb).2
    rw [hagain, hbgain] at hpair
    exact hpair
  have hrest : a.createdAt < b.createdAt ∨ a.createdAt = b.createdAt ∧ a.outboxId ≤ b.outboxId := by
    cases UInt64.lt_or_eq_of_le hle with
    | inl hlt => exact .inl hlt
    | inr heq => exact .inr ⟨heq, le_of_lt (h.id_lt hclimb hturns ha hb hij heq)⟩
  constructor
  · unfold claimLe
    rw [hida, hidb, hcreateda, hcreatedb, havaila, havailb]
    exact .inr ⟨rfl, hrest⟩
  · unfold listLe
    rw [hida, hidb, hcreateda, hcreatedb, havaila, havailb]
    cases hrest with
    | inl hlt => exact .inl hlt
    | inr heq => exact .inr ⟨heq.1, .inr ⟨rfl, heq.2⟩⟩

/-- Claims go through the ids as they were enqueued. -/
theorem Queue.claimOrder_eq {available : UInt64} {s : InMemoryOutboxStore}
    {messages : List OutboxMessage} (h : Queue available s messages) (hs : s.WellFormed)
    (hclimb : (messages.map OutboxMessage.createdAt).Pairwise (· ≤ ·))
    (hturns : TurnsApart (messages.map OutboxMessage.createdAt)) :
    s.claimOrder = s.messages.keys := by
  unfold claimOrder
  rw [((h.sorted hs hclimb hturns).imp fun hle => hle.1).insertionSort_eq]
  rfl

/-- A listing shows the messages as they were enqueued. -/
theorem Queue.listOutbox_sublist {available : UInt64} {s : InMemoryOutboxStore}
    {messages : List OutboxMessage} (h : Queue available s messages) (hs : s.WellFormed)
    (hclimb : (messages.map OutboxMessage.createdAt).Pairwise (· ≤ ·))
    (hturns : TurnsApart (messages.map OutboxMessage.createdAt)) (status : Option OutboxStatus)
    (limit : UInt64) :
    ((s.listOutbox status limit).map OutboxMessage.outboxId).Sublist
      (messages.map OutboxMessage.outboxId) := by
  have hvalues : s.messages.values.Pairwise listLe := by
    show (s.messages.entries.map Prod.snd).Pairwise listLe
    rw [List.pairwise_map]
    exact (h.sorted hs hclimb hturns).imp fun hle => hle.2
  have hids : s.messages.values.map OutboxMessage.outboxId = s.messages.keys := by
    show (s.messages.entries.map Prod.snd).map _ = s.messages.entries.map Prod.fst
    rw [List.map_map]
    apply List.map_congr_left
    intro entry hentry
    exact (hs.numbered _ _ (AssocMap.get?_eq_some.mpr hentry)).1
  rw [← h.keys, ← hids]
  apply List.Sublist.map
  unfold listOutbox
  rw [hvalues.insertionSort_eq]
  exact (List.take_sublist _ _).trans List.filter_sublist

end Remo.InMemoryOutboxStore
