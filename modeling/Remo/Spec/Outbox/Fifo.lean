import Remo.Spec.Outbox.QueueOrder
import Mathlib.Data.List.Pairwise

/-!
# First in, first out

The messages of one lane and target are handed out in the order they were enqueued in.

## Key results

- `laneQueue_call`: one call hands out the first waiting messages of a lane
- `firstInFirstOut_iff`: the runs in which claims and listings keep the order
-/

namespace Remo.InMemoryOutboxStore

/-- The message is of the lane and target. -/
def inLane (lane target : String) (message : OutboxMessage) : Bool :=
  message.lane == lane && message.target == target

/-- The ids of a lane that a reply hands out. -/
def laneHandedOut (lane target : String) (reply : Except OutboxFault OutboxReply) : List String :=
  ((handedOut reply).filter (inLane lane target)).map OutboxMessage.outboxId

/-- The claims and the listings of the steps give messages in the order they were enqueued in. -/
structure FirstInFirstOut (steps : List OutboxStep) : Prop where
  handedOut : ∀ lane target, (steps.flatMap fun t => laneHandedOut lane target t.reply).Sublist
    ((enqueued steps).map OutboxMessage.outboxId)
  listed : ∀ t ∈ steps, ∀ status limit,
    ((t.after.listOutbox status limit).map OutboxMessage.outboxId).Sublist
      ((enqueued steps).map OutboxMessage.outboxId)

/-- The ids of a lane, in the order of the queue. -/
def laneIds (s : InMemoryOutboxStore) (lane target : String) : List String :=
  s.messages.keys.filter fun id => (s.messages.get? id).any (inLane lane target)

/-- Of the messages of a lane, those handed out come first, and the others wait. -/
structure LaneQueue (s : InMemoryOutboxStore) (lane target : String)
    (handed waiting : List String) : Prop where
  ids : s.laneIds lane target = handed ++ waiting
  gone : ∀ id ∈ handed, ∀ message, s.messages.get? id = some message → message.status ≠ .pending
  waits : ∀ id ∈ waiting, ∀ message, s.messages.get? id = some message → message.status = .pending

/-! ## One call -/

/-- A message keeps its lane and target. -/
theorem MessageChange.inLane {id : String} {reply : Except OutboxFault OutboxReply} {op : OutboxOp}
    {message : OutboxMessage} {after : Option OutboxMessage}
    (h : MessageChange id reply op (some message) after) (lane target : String) :
    after.any (InMemoryOutboxStore.inLane lane target) =
      InMemoryOutboxStore.inLane lane target message := by
  cases h with
  | kept => rfl
  | claimed => rfl
  | acked => rfl
  | nacked token error retryAt now =>
    unfold nackMessage
    dsimp only
    split <;> rfl

/-- Without a failed delivery, a call that is no claim leaves a waiting message waiting and any
    other not. -/
theorem MessageChange.pending_iff {s : InMemoryOutboxStore} {id : String}
    {reply : Except OutboxFault OutboxReply} {op : OutboxOp} {message message' : OutboxMessage}
    (h : MessageChange id reply op (some message) (some message'))
    (hget : s.messages.get? id = some message) (hop : op.claimedAt = none)
    (hdelivers : s.NoFailedDelivery op) : message'.status = .pending ↔ message.status = .pending := by
  cases h with
  | kept => exact Iff.rfl
  | claimed => cases hop
  | acked token now _ hclaim =>
    have hclaimed := (holdsClaim_iff.mp hclaim).1
    show OutboxStatus.delivered = .pending ↔ _
    simp [hclaimed]
  | nacked token error retryAt now _ hclaim =>
    exact absurd (valid_iff.mpr ⟨message, hget, hclaim⟩) hdelivers

/-- The ids of a lane after a call that leaves the ids. -/
theorem laneIds_call {s : InMemoryOutboxStore} (hs : s.WellFormed) {op : OutboxOp}
    (hkeys : (call op s).2.messages.keys = s.messages.keys) (lane target : String) :
    (call op s).2.laneIds lane target = s.laneIds lane target := by
  unfold laneIds
  rw [hkeys]
  apply List.filter_congr
  intro id hid
  obtain ⟨message, hget⟩ := AssocMap.mem_keys.mp hid
  have hchange := messageChange hs op id
  rw [hget] at hchange
  rw [hchange.inLane lane target, hget]
  rfl

/-- The message under an id of a lane. -/
theorem get?_of_mem_laneIds {s : InMemoryOutboxStore} {lane target id : String}
    (h : id ∈ s.laneIds lane target) :
    ∃ message, s.messages.get? id = some message ∧ inLane lane target message = true := by
  have hin := (List.mem_filter.mp h).2
  cases hget : s.messages.get? id with
  | none => simp [hget] at hin
  | some message => exact ⟨message, rfl, by simpa [hget] using hin⟩

theorem nodup_laneIds (s : InMemoryOutboxStore) (lane target : String) :
    (s.laneIds lane target).Nodup :=
  s.messages.nodup_keys.filter _

/-- A call that is no claim leaves what is handed out and what waits, and a new message waits
    behind. -/
theorem laneQueue_other {available : UInt64} {s : InMemoryOutboxStore}
    {messages : List OutboxMessage} (hqueue : Queue available s messages) (hs : s.WellFormed)
    {op : OutboxOp} (havailable : SameAvailability available op)
    (hdelivers : s.NoFailedDelivery op) (hop : op.claimedAt = none) {lane target : String}
    {handed waiting : List String} (h : LaneQueue s lane target handed waiting) :
    ∃ waiting', LaneQueue (call op s).2 lane target handed waiting' := by
  -- the messages that are there do not begin or end to wait
  have hstatus : ∀ id ∈ s.laneIds lane target, ∀ message',
      (call op s).2.messages.get? id = some message' → ∃ message,
        s.messages.get? id = some message ∧
          (message'.status = .pending ↔ message.status = .pending) := by
    intro id hid message' hget'
    obtain ⟨message, hget, -⟩ := get?_of_mem_laneIds hid
    have hchange := messageChange hs op id
    rw [hget, hget'] at hchange
    exact ⟨message, hget, hchange.pending_iff hget hop hdelivers⟩
  have hgone : ∀ id ∈ handed, ∀ message', (call op s).2.messages.get? id = some message' →
      message'.status ≠ .pending := by
    intro id hid message' hget'
    obtain ⟨message, hget, hiff⟩ := hstatus id (by rw [h.ids]; exact List.mem_append_left _ hid)
      message' hget'
    exact fun hpending => h.gone id hid message hget (hiff.mp hpending)
  have hwaits : ∀ id ∈ waiting, ∀ message', (call op s).2.messages.get? id = some message' →
      message'.status = .pending := by
    intro id hid message' hget'
    obtain ⟨message, hget, hiff⟩ := hstatus id (by rw [h.ids]; exact List.mem_append_right _ hid)
      message' hget'
    exact hiff.mpr (h.waits id hid message hget)
  by_cases hkeys : (call op s).2.messages.keys = s.messages.keys
  · exact ⟨waiting, (laneIds_call hs hkeys lane target).trans h.ids, hgone, hwaits⟩
  · -- the call stores a message
    have hnext := hqueue.call hs havailable hdelivers
    cases hnew : newMessage ⟨s, op, (call op s).1, (call op s).2⟩ with
    | none =>
      rw [hnew, Option.toList_none, List.append_nil] at hnext
      exact absurd (hnext.keys.trans hqueue.keys.symm) hkeys
    | some message =>
      rw [hnew, Option.toList_some] at hnext
      have hafter : (call op s).2.messages.keys = s.messages.keys ++ [message.outboxId] := by
        rw [hnext.keys, hqueue.keys, List.map_append, List.map_singleton]
      -- what is new has just been enqueued
      have hpending : ∀ message', (call op s).2.messages.get? message.outboxId = some message' →
          message'.status = .pending := by
        intro message' hget'
        have hfresh : s.messages.get? message.outboxId = none := by
          rw [AssocMap.get?_eq_none]
          have hnodup := (call op s).2.messages.nodup_keys
          rw [hafter, List.nodup_append] at hnodup
          intro hmem
          exact hnodup.2.2 _ hmem _ (List.mem_singleton.mpr rfl) rfl
        have hchange := messageChange hs op message.outboxId
        rw [hfresh, hget'] at hchange
        cases hchange with
        | enqueued draft now _ hmessage => exact (OutboxMessage.fromEnqueue_eq_ok hmessage).2.2.1
      have hold : (s.messages.keys.filter fun id =>
          ((call op s).2.messages.get? id).any (inLane lane target)) = s.laneIds lane target := by
        apply List.filter_congr
        intro id hid
        obtain ⟨m, hget⟩ := AssocMap.mem_keys.mp hid
        have hchange := messageChange hs op id
        rw [hget] at hchange
        rw [hchange.inLane lane target, hget]
        rfl
      have hids : (call op s).2.laneIds lane target = handed ++ (waiting ++
          [message.outboxId].filter fun id =>
            ((call op s).2.messages.get? id).any (inLane lane target)) := by
        unfold laneIds
        rw [hafter, List.filter_append, hold, h.ids, List.append_assoc]
      refine ⟨_, hids, hgone, ?_⟩
      intro id hid message' hget'
      cases List.mem_append.mp hid with
      | inl hwait => exact hwaits id hwait message' hget'
      | inr hlast =>
        have heq := List.mem_singleton.mp (List.mem_of_mem_filter hlast)
        rw [heq] at hget'
        exact hpending message' hget'

section Claim

variable {lane target : String} {limit leaseMs : UInt64} {consumerId : String} {now : UInt64}
  {tokens : Nat → Uuid}

/-- A claim changes the messages it hands out only. -/
theorem get?_claim {s : InMemoryOutboxStore} (hs : s.WellFormed) {id : String}
    (hid : id ∉ (handedOut (call (.claimOutbox lane target limit leaseMs consumerId now tokens)
      s).1).map OutboxMessage.outboxId) :
    (call (.claimOutbox lane target limit leaseMs consumerId now tokens) s).2.messages.get? id =
      s.messages.get? id := by
  have hchange := messageChange hs
    (.claimOutbox lane target limit leaseMs consumerId now tokens) id
  generalize hbefore : s.messages.get? id = before at hchange
  generalize (call (.claimOutbox lane target limit leaseMs consumerId now tokens)
    s).2.messages.get? id = after at hchange
  cases hchange with
  | kept => rfl
  | claimed _ _ _ _ _ _ _ message token messages _ hreply hmem =>
    apply absurd _ hid
    rw [hreply]
    apply List.mem_map.mpr
    exact ⟨_, hmem, (hs.numbered id message hbefore).1⟩

/-- A message that a claim hands out is of the lane and target of the claim. -/
theorem inLane_of_handedOut {s : InMemoryOutboxStore} {message : OutboxMessage}
    (h : message ∈ handedOut
      (call (.claimOutbox lane target limit leaseMs consumerId now tokens) s).1) :
    message.lane = lane ∧ message.target = target := by
  cases claimOutbox_cases lane target limit leaseMs consumerId now tokens s with
  | inl hfailed =>
    obtain ⟨_, hcall⟩ := hfailed
    simp [call, Method.map, hcall, handedOut, fail, Except.map] at h
  | inr hok =>
    obtain ⟨claimed, messages, hcall, hclaimed⟩ := hok
    simp only [call, Method.map, hcall, handedOut, Except.map] at h
    obtain ⟨id, -, ⟨found, token, -, hclaimable, heq⟩, -⟩ := hclaimed.all message h
    simp only [isClaimable, Bool.and_eq_true, beq_iff_eq] at hclaimable
    rw [heq]
    exact hclaimable.1.1.1

/-- A claim hands out the first messages that wait in its lane. -/
theorem laneQueue_own {available : UInt64} {s : InMemoryOutboxStore}
    {messages : List OutboxMessage} (hqueue : Queue available s messages) (hs : s.WellFormed)
    (horder : s.claimOrder = s.messages.keys)
    (hdelivers : s.NoFailedDelivery
      (.claimOutbox lane target limit leaseMs consumerId now tokens))
    {handed waiting : List String} (h : LaneQueue s lane target handed waiting) :
    ∃ n, (handedOut (call (.claimOutbox lane target limit leaseMs consumerId now tokens)
        s).1).map OutboxMessage.outboxId = waiting.take n ∧
      LaneQueue (call (.claimOutbox lane target limit leaseMs consumerId now tokens) s).2
        lane target (handed ++ waiting.take n) (waiting.drop n) := by
  -- a claimable message waits, and a waiting one is claimable when it is available
  have hclaimable : ∀ id ∈ s.laneIds lane target, ∀ message, s.messages.get? id = some message →
      (isClaimable message lane target now = true ↔
        message.status = .pending ∧ available ≤ now) := by
    intro id hid message hget
    obtain ⟨found, hfound, hin⟩ := get?_of_mem_laneIds hid
    rw [hget] at hfound
    cases hfound
    simp only [inLane, Bool.and_eq_true, beq_iff_eq] at hin
    have hkey : id ∈ s.messages.keys := AssocMap.mem_keys.mpr ⟨message, hget⟩
    rw [hqueue.keys] at hkey
    obtain ⟨m, hm, rfl⟩ := List.mem_map.mp hkey
    obtain ⟨stored, hstored, -, havail⟩ := hqueue.stored m hm
    rw [hget] at hstored
    cases hstored
    simp only [isClaimable, hin, beq_self_eq_true, Bool.true_and, Bool.and_eq_true,
      Bool.or_eq_true, beq_iff_eq, decide_eq_true_eq, havail]
    constructor
    · intro hall
      obtain ⟨⟨hstatus, havailable⟩, hdue⟩ := hall
      refine ⟨?_, havailable⟩
      cases hdue with
      | inl hpending => exact hpending
      | inr hlease =>
        cases hstatus with
        | inl hpending => exact hpending
        | inr hclaimedStatus =>
          cases hl : message.leaseExpiresAt with
          | none => simp [hl] at hlease
          | some lease =>
            have hle : lease ≤ now := by simpa [hl] using hlease
            have hlt := hdelivers _ message hget hin.1 hin.2 hclaimedStatus lease hl
            exact absurd hlt (UInt64.not_lt.mpr hle)
    · intro hpending
      exact ⟨⟨.inl hpending.1, hpending.2⟩, .inl hpending.1⟩
  have hfilter : s.messages.keys.filter (s.ClaimableAt lane target now) =
      if available ≤ now then waiting else [] := by
    have hlane : s.messages.keys.filter (s.ClaimableAt lane target now) =
        (s.laneIds lane target).filter (s.ClaimableAt lane target now) := by
      unfold laneIds
      rw [List.filter_filter]
      apply List.filter_congr
      intro id _
      unfold ClaimableAt
      cases s.messages.get? id with
      | none => rfl
      | some message =>
        simp only [Option.any_some]
        cases hc : isClaimable message lane target now with
        | false => rfl
        | true =>
          simp only [isClaimable, Bool.and_eq_true] at hc
          simp [inLane, hc.1.1.1]
    have hgone : handed.filter (s.ClaimableAt lane target now) = [] := by
      rw [List.filter_eq_nil_iff]
      intro id hid hc
      have hmem : id ∈ s.laneIds lane target := by
        rw [h.ids]
        exact List.mem_append_left _ hid
      obtain ⟨message, hget, -⟩ := get?_of_mem_laneIds hmem
      simp only [ClaimableAt, hget, Option.any_some] at hc
      exact h.gone id hid message hget ((hclaimable id hmem message hget).mp hc).1
    have hwait : waiting.filter (s.ClaimableAt lane target now) =
        if available ≤ now then waiting else [] := by
      have hone : ∀ id ∈ waiting, s.ClaimableAt lane target now id = decide (available ≤ now) := by
        intro id hid
        have hmem : id ∈ s.laneIds lane target := by
          rw [h.ids]
          exact List.mem_append_right _ hid
        obtain ⟨message, hget, -⟩ := get?_of_mem_laneIds hmem
        have hpending := h.waits id hid message hget
        have hiff := hclaimable id hmem message hget
        simp only [ClaimableAt, hget, Option.any_some]
        rw [Bool.eq_iff_iff, hiff, decide_eq_true_eq]
        exact and_iff_right hpending
      rw [List.filter_congr hone]
      split
      · rename_i hle
        simp [hle]
      · rename_i hle
        simp [hle]
    rw [hlane, h.ids, List.filter_append, hgone, hwait, List.nil_append]
  have htake : ∃ n, (handedOut (call (.claimOutbox lane target limit leaseMs consumerId now tokens)
      s).1).map OutboxMessage.outboxId = waiting.take n := by
    cases @handedOut_claim lane target limit leaseMs consumerId now tokens s hs with
    | inr hnone => exact ⟨0, by simp [hnone]⟩
    | inl hids =>
      rw [hids, horder, hfilter]
      split
      · exact ⟨limit.toNat, rfl⟩
      · exact ⟨0, by simp⟩
  obtain ⟨n, hn⟩ := htake
  have hnodup := s.nodup_laneIds lane target
  rw [h.ids] at hnodup
  have hwaiting := (List.nodup_append.mp hnodup).2.1
  have hkeys : (call (.claimOutbox lane target limit leaseMs consumerId now tokens)
      s).2.messages.keys = s.messages.keys := (call_keys s rfl).1
  refine ⟨n, hn, ?_, ?_, ?_⟩
  · rw [laneIds_call hs hkeys, h.ids, List.append_assoc, List.take_append_drop]
  · intro id hid message hget
    cases List.mem_append.mp hid with
    | inl hold =>
      have hother : id ∉ (handedOut (call
          (.claimOutbox lane target limit leaseMs consumerId now tokens) s).1).map
          OutboxMessage.outboxId := by
        rw [hn]
        intro hmem
        exact (List.nodup_append.mp hnodup).2.2 _ hold _ (List.mem_of_mem_take hmem) rfl
      rw [get?_claim hs hother] at hget
      exact h.gone id hold message hget
    | inr hnew =>
      rw [← hn] at hnew
      obtain ⟨message', hmem, heq⟩ := List.mem_map.mp hnew
      obtain ⟨-, -, -, -, hafter, hclaimedStatus, -⟩ := of_mem_handedOut hs hmem
      rw [heq, hget] at hafter
      cases hafter
      rw [hclaimedStatus]
      exact fun hpending => by cases hpending
  · intro id hid message hget
    have hother : id ∉ (handedOut (call
        (.claimOutbox lane target limit leaseMs consumerId now tokens) s).1).map
        OutboxMessage.outboxId := by
      rw [hn]
      intro hmem
      rw [← List.take_append_drop n waiting, List.nodup_append] at hwaiting
      exact hwaiting.2.2 _ hmem _ hid rfl
    rw [get?_claim hs hother] at hget
    exact h.waits id (List.mem_of_mem_drop hid) message hget

/-- A claim for another lane leaves the messages of the lane. -/
theorem laneQueue_foreign {s : InMemoryOutboxStore} (hs : s.WellFormed) {own goal : String}
    (hne : ¬ (lane = own ∧ target = goal)) {handed waiting : List String}
    (h : LaneQueue s own goal handed waiting) :
    laneHandedOut own goal
        (call (.claimOutbox lane target limit leaseMs consumerId now tokens) s).1 = [] ∧
      LaneQueue (call (.claimOutbox lane target limit leaseMs consumerId now tokens) s).2 own goal
        handed waiting := by
  have hother : ∀ id ∈ s.laneIds own goal, id ∉ (handedOut (call
      (.claimOutbox lane target limit leaseMs consumerId now tokens) s).1).map
      OutboxMessage.outboxId := by
    intro id hid hmem
    obtain ⟨message, hget, hin⟩ := get?_of_mem_laneIds hid
    obtain ⟨message', hmem, heq⟩ := List.mem_map.mp hmem
    obtain ⟨-, -, -, -, hafter, -, -⟩ := of_mem_handedOut hs hmem
    have hchange := messageChange hs
      (.claimOutbox lane target limit leaseMs consumerId now tokens) id
    rw [hget, ← heq, hafter] at hchange
    have hsame := hchange.inLane own goal
    obtain ⟨hlane, htarget⟩ := inLane_of_handedOut hmem
    rw [Option.any_some, hin, inLane, hlane, htarget, Bool.and_eq_true, beq_iff_eq,
      beq_iff_eq] at hsame
    exact hne hsame
  have hkeys : (call (.claimOutbox lane target limit leaseMs consumerId now tokens)
      s).2.messages.keys = s.messages.keys := (call_keys s rfl).1
  constructor
  · unfold laneHandedOut
    rw [List.map_eq_nil_iff, List.filter_eq_nil_iff]
    intro message hmem hin
    obtain ⟨hlane, htarget⟩ := inLane_of_handedOut hmem
    rw [inLane, hlane, htarget, Bool.and_eq_true, beq_iff_eq, beq_iff_eq] at hin
    exact hne hin
  · refine ⟨(laneIds_call hs hkeys own goal).trans h.ids, ?_, ?_⟩
    · intro id hid message hget
      have hmem : id ∈ s.laneIds own goal := by
        rw [h.ids]
        exact List.mem_append_left _ hid
      rw [get?_claim hs (hother id hmem)] at hget
      exact h.gone id hid message hget
    · intro id hid message hget
      have hmem : id ∈ s.laneIds own goal := by
        rw [h.ids]
        exact List.mem_append_right _ hid
      rw [get?_claim hs (hother id hmem)] at hget
      exact h.waits id hid message hget

end Claim

/-- One call hands out the first messages that wait in a lane. -/
theorem laneQueue_call {available : UInt64} {s : InMemoryOutboxStore}
    {messages : List OutboxMessage} (hqueue : Queue available s messages) (hs : s.WellFormed)
    (horder : s.claimOrder = s.messages.keys) {op : OutboxOp}
    (havailable : SameAvailability available op) (hdelivers : s.NoFailedDelivery op)
    {lane target : String} {handed waiting : List String}
    (h : LaneQueue s lane target handed waiting) :
    ∃ waiting', LaneQueue (call op s).2 lane target
      (handed ++ laneHandedOut lane target (call op s).1) waiting' := by
  by_cases hop : op.claimedAt = none
  · have hnone : laneHandedOut lane target (call op s).1 = [] := by
      unfold laneHandedOut
      rw [handedOut_eq_nil s hop]
      rfl
    rw [hnone, List.append_nil]
    exact laneQueue_other hqueue hs havailable hdelivers hop h
  · cases op with
    | enqueueOutbox => exact absurd rfl hop
    | ackOutbox => exact absurd rfl hop
    | nackOutbox => exact absurd rfl hop
    | listOutbox => exact absurd rfl hop
    | claimOutbox own goal limit leaseMs consumerId now tokens =>
      by_cases hlane : own = lane ∧ goal = target
      · obtain ⟨rfl, rfl⟩ := hlane
        obtain ⟨n, hids, hnext⟩ := laneQueue_own hqueue hs horder hdelivers h
        refine ⟨waiting.drop n, ?_⟩
        have hall : laneHandedOut own goal
            (call (.claimOutbox own goal limit leaseMs consumerId now tokens) s).1 =
              waiting.take n := by
          unfold laneHandedOut
          rw [← hids, List.filter_eq_self.mpr]
          intro message hmem
          obtain ⟨hl, ht⟩ := inLane_of_handedOut hmem
          simp [inLane, hl, ht]
        rw [hall]
        exact hnext
      · obtain ⟨hnone, hnext⟩ := @laneQueue_foreign _ _ limit leaseMs consumerId now tokens
          s hs _ _ hlane _ _ h
        rw [hnone, List.append_nil]
        exact ⟨waiting, hnext⟩

/-! ## Runs -/

theorem newMessage_time {s : InMemoryOutboxStore} (hs : s.WellFormed) {op : OutboxOp}
    {message : OutboxMessage}
    (h : newMessage ⟨s, op, (call op s).1, (call op s).2⟩ = some message) :
    enqueueTime op = some message.createdAt := by
  by_cases hop : enqueueTime op = none
  · rw [(call_keys s hop).2] at h
    cases h
  · cases op with
    | claimOutbox => exact absurd rfl hop
    | ackOutbox => exact absurd rfl hop
    | nackOutbox => exact absurd rfl hop
    | listOutbox => exact absurd rfl hop
    | enqueueOutbox draft now =>
      rcases enqueueOutbox_cases hs draft now with ⟨_, hcall⟩ | ⟨found, hcall, hget, -⟩ |
        ⟨found, after, hcall, hstores, -⟩
      · simp [call, Method.map, hcall, newMessage, Except.map] at h
      · simp [call, Method.map, hcall, newMessage, Except.map, hget] at h
      · have hid := (OutboxMessage.fromEnqueue_eq_ok hstores.isMessage).1
        have hnext := hs.get?_next hstores.room
        simp only [call, Method.map, hcall, newMessage, Except.map, hid, hnext,
          Option.isNone_none, if_true, Option.some.injEq] at h
        rw [← h, (fromEnqueue_times hstores.isMessage).1]
        rfl

theorem enqueued_concat (ops : List OutboxOp) (op : OutboxOp) :
    enqueued (machine.trace new (ops ++ [op])) = enqueued (machine.trace new ops) ++
      (newMessage ⟨machine.run new ops, op, (call op (machine.run new ops)).1,
        (call op (machine.run new ops)).2⟩).toList := by
  unfold enqueued
  rw [machine.trace_append, List.filterMap_append]
  congr 1

/-- Messages are enqueued at the times of the enqueues. -/
theorem enqueued_times (ops : List OutboxOp) :
    ((enqueued (machine.trace new ops)).map OutboxMessage.createdAt).Sublist
      (ops.filterMap enqueueTime) := by
  induction ops using List.reverseRecOn with
  | nil => exact List.Sublist.slnil
  | append_singleton ops op ih =>
    rw [enqueued_concat, List.map_append, List.filterMap_append]
    apply ih.append
    cases hnew : newMessage ⟨machine.run new ops, op, (call op (machine.run new ops)).1,
        (call op (machine.run new ops)).2⟩ with
    | none => exact List.nil_sublist _
    | some message =>
      have htime := newMessage_time (wellFormed_run wellFormed_new ops) hnew
      simp [htime]

/-- What a run of enqueues with one time of availability leaves in the store. -/
theorem queue_run {available : UInt64} {ops : List OutboxOp}
    (hsame : ∀ op ∈ ops, SameAvailability available op)
    (hdelivers : machine.Along NoFailedDelivery new ops) :
    Queue available (machine.run new ops) (enqueued (machine.trace new ops)) := by
  induction ops using List.reverseRecOn with
  | nil => exact queue_new available
  | append_singleton ops op ih =>
    obtain ⟨hbefore, hlast⟩ := (machine.along_append _ _ _ _).mp hdelivers
    have hqueue := ih (fun o ho => hsame o (List.mem_append_left _ ho)) hbefore
    rw [enqueued_concat, machine.run_append]
    exact hqueue.call (wellFormed_run wellFormed_new ops)
      (hsame op (List.mem_append_right _ List.mem_cons_self)) hlast.1

theorem TurnsApart.of_append {times more : List UInt64} (h : TurnsApart (times ++ more)) :
    TurnsApart times := by
  have hfront : ∀ (i : Nat) (time : UInt64), times[i]? = some time → (times ++ more)[i]? = some time := by
    intro i time hi
    rw [List.getElem?_append_left (List.getElem?_eq_some_iff.mp hi).1]
    exact hi
  intro k time htime hnext
  exact h k time (hfront _ _ htime) (hfront _ _ hnext)

/-- What a run hands out of a lane, when the turns are apart. -/
theorem laneQueue_run {available : UInt64} {ops : List OutboxOp}
    (hsame : ∀ op ∈ ops, SameAvailability available op)
    (hclock : (ops.filterMap enqueueTime).Pairwise (· ≤ ·))
    (hdelivers : machine.Along NoFailedDelivery new ops)
    (hturns : TurnsApart ((enqueued (machine.trace new ops)).map OutboxMessage.createdAt))
    (lane target : String) :
    ∃ waiting, LaneQueue (machine.run new ops) lane target
      ((machine.trace new ops).flatMap fun t => laneHandedOut lane target t.reply) waiting := by
  induction ops using List.reverseRecOn with
  | nil =>
    refine ⟨[], rfl, ?_, ?_⟩
    · intro id hid
      exact absurd hid List.not_mem_nil
    · intro id hid
      exact absurd hid List.not_mem_nil
  | append_singleton ops op ih =>
    obtain ⟨hbefore, hlast⟩ := (machine.along_append _ _ _ _).mp hdelivers
    have hsame' : ∀ o ∈ ops, SameAvailability available o :=
      fun o ho => hsame o (List.mem_append_left _ ho)
    rw [List.filterMap_append] at hclock
    have hclock' := (List.pairwise_append.mp hclock).1
    rw [enqueued_concat, List.map_append] at hturns
    obtain ⟨waiting, hlane⟩ := ih hsame' hclock' hbefore hturns.of_append
    have hwell := wellFormed_run wellFormed_new ops
    have hqueue := queue_run hsame' hbefore
    have horder := hqueue.claimOrder_eq hwell (hclock'.sublist (enqueued_times ops))
      hturns.of_append
    obtain ⟨waiting', hnext⟩ := laneQueue_call hqueue hwell horder
      (hsame op (List.mem_append_right _ List.mem_cons_self)) hlast.1 hlane
    refine ⟨waiting', ?_⟩
    rw [machine.trace_append, machine.run_append, List.flatMap_append]
    show LaneQueue _ lane target (_ ++ List.flatMap _ [_]) waiting'
    rw [List.flatMap_singleton]
    exact hnext

/-- The first message was enqueued before the second. -/
def Earlier (a b : OutboxMessage) : Prop :=
  ∀ m n, a.outboxId = messageId m → b.outboxId = messageId n → m < n

theorem Queue.earlier {available : UInt64} {s : InMemoryOutboxStore} {messages : List OutboxMessage}
    (h : Queue available s messages) : messages.Pairwise Earlier := by
  rw [List.pairwise_iff_getElem]
  intro i j hi hj hij m n hm hn
  rw [h.numbered i _ (List.getElem?_eq_getElem hi)] at hm
  rw [h.numbered j _ (List.getElem?_eq_getElem hj)] at hn
  rw [← messageId_inj hm, ← messageId_inj hn, UInt64.lt_iff_toNat_lt, h.toNat_number hi,
    h.toNat_number hj]
  omega

instance : Std.Total listLe where
  total a b := by
    unfold listLe
    -- what comes first in a field is a case of its own
    have hids := le_total a.outboxId b.outboxId
    have hlt : ∀ m n : UInt64, m < n ∨ m = n ∨ n < m := by
      intro m n
      cases UInt64.le_total m n with
      | inl hle => exact (UInt64.lt_or_eq_of_le hle).imp_right Or.inl
      | inr hle =>
        cases UInt64.lt_or_eq_of_le hle with
        | inl hgt => exact .inr (.inr hgt)
        | inr heq => exact .inr (.inl heq.symm)
    rcases hlt a.createdAt b.createdAt with hfirst | heq | hlast
    · exact .inl (.inl hfirst)
    · rcases hlt a.availableAt b.availableAt with hfirst | heq' | hlast
      · exact .inl (.inr ⟨heq, .inl hfirst⟩)
      · cases hids with
        | inl hle => exact .inl (.inr ⟨heq, .inr ⟨heq', hle⟩⟩)
        | inr hge => exact .inr (.inr ⟨heq.symm, .inr ⟨heq'.symm, hge⟩⟩)
      · exact .inr (.inr ⟨heq.symm, .inl hlast⟩)
    · exact .inr (.inl hlast)

instance : IsTrans OutboxMessage listLe where
  trans a b c := by
    unfold listLe
    intro hab hbc
    rcases hab with hlt | ⟨heq, hlt | ⟨heq', hle⟩⟩
    · rcases hbc with hlt' | ⟨hsame, -⟩
      · exact .inl (UInt64.lt_trans hlt hlt')
      · exact .inl (hsame ▸ hlt)
    · rcases hbc with hlt' | ⟨hsame, hlt' | ⟨hsame', -⟩⟩
      · exact .inl (heq ▸ hlt')
      · exact .inr ⟨heq.trans hsame, .inl (UInt64.lt_trans hlt hlt')⟩
      · exact .inr ⟨heq.trans hsame, .inl (hsame' ▸ hlt)⟩
    · rcases hbc with hlt' | ⟨hsame, hlt' | ⟨hsame', hle'⟩⟩
      · exact .inl (heq ▸ hlt')
      · exact .inr ⟨heq.trans hsame, .inl (heq' ▸ hlt')⟩
      · exact .inr ⟨heq.trans hsame, .inr ⟨heq'.trans hsame', le_trans hle hle'⟩⟩

/-- When listings keep the order, the turns are apart. -/
theorem turnsApart_of_listed {available : UInt64} {s : InMemoryOutboxStore}
    {messages : List OutboxMessage} (hqueue : Queue available s messages) (hs : s.WellFormed)
    (h : ((s.listOutbox none 0xFFFFFFFFFFFFFFFF).map OutboxMessage.outboxId).Sublist
      (messages.map OutboxMessage.outboxId)) :
    TurnsApart (messages.map OutboxMessage.createdAt) := by
  intro k time hfirst hsecond
  rw [List.getElem?_map] at hfirst hsecond
  obtain ⟨a, ha, hacreated⟩ := Option.map_eq_some_iff.mp hfirst
  obtain ⟨b, hb, hbcreated⟩ := Option.map_eq_some_iff.mp hsecond
  have hi := (List.getElem?_eq_some_iff.mp ha).1
  have hj := (List.getElem?_eq_some_iff.mp hb).1
  have hten : 10 ≤ 10 ^ (k + 1) := by
    rw [Nat.pow_succ]
    have hpos : 0 < 10 ^ k := Nat.pow_pos (by decide)
    omega
  -- as texts, the second id comes first
  have hlt : b.outboxId < a.outboxId := by
    rw [hqueue.numbered _ a ha, hqueue.numbered _ b hb]
    apply messageId_lt
    rw [hqueue.toNat_number hi, hqueue.toNat_number hj]
    have hone : 10 ^ (k + 1) - 1 + 1 = 10 ^ (k + 1) := by omega
    have htwo : 10 ^ (k + 1) - 2 + 1 = 10 ^ (k + 1) - 1 := by omega
    rw [hone, htwo]
    exact Decimal.toDigits_pow_lt k
  obtain ⟨a', hgeta, hcreateda, havaila⟩ := hqueue.stored a (List.mem_of_getElem? ha)
  obtain ⟨b', hgetb, hcreatedb, havailb⟩ := hqueue.stored b (List.mem_of_getElem? hb)
  have hida : a'.outboxId = a.outboxId := (hs.numbered _ _ hgeta).1
  have hidb : b'.outboxId = b.outboxId := (hs.numbered _ _ hgetb).1
  -- the listing shows both
  have hall : s.listOutbox none 0xFFFFFFFFFFFFFFFF = s.messages.values.insertionSort listLe := by
    have hlength : s.messages.values.length = messages.length := by
      have hkeys := congrArg List.length hqueue.keys
      simpa [AssocMap.keys, AssocMap.values] using hkeys
    have hcount := hqueue.count
    have hmax := s.nextId.toNat_lt
    show List.take 0xFFFFFFFFFFFFFFFF (List.filter (fun _ => true) _) = _
    rw [List.filter_true]
    apply List.take_of_length_le
    rw [List.length_insertionSort, hlength]
    omega
  rw [hall] at h
  have hmema : a' ∈ s.messages.values.insertionSort listLe :=
    (List.mem_insertionSort listLe).mpr (AssocMap.mem_values.mpr ⟨_, hgeta⟩)
  have hmemb : b' ∈ s.messages.values.insertionSort listLe :=
    (List.mem_insertionSort listLe).mpr (AssocMap.mem_values.mpr ⟨_, hgetb⟩)
  have hearlier : (s.messages.values.insertionSort listLe).Pairwise Earlier := by
    have hids : (messages.map OutboxMessage.outboxId).Pairwise fun x y =>
        ∀ m n, x = messageId m → y = messageId n → m < n :=
      List.pairwise_map.mpr hqueue.earlier
    exact (List.pairwise_map (f := OutboxMessage.outboxId)).mp (List.Pairwise.sublist h hids)
  have hboth := (hearlier.and (List.pairwise_insertionSort listLe s.messages.values)).imp
    (S := fun x y => (Earlier x y ∧ listLe x y) ∨ (Earlier y x ∧ listLe y x)) Or.inl
  have hne : a' ≠ b' := by
    intro heq
    rw [← hida, ← hidb, heq] at hlt
    exact lt_irrefl _ hlt
  have hsymm : Std.Symm fun x y : OutboxMessage =>
      (Earlier x y ∧ listLe x y) ∨ (Earlier y x ∧ listLe y x) := ⟨fun _ _ hxy => hxy.symm⟩
  cases hboth.forall hmema hmemb hne with
  | inl hab =>
    have hle := hab.2
    unfold listLe at hle
    rw [hida, hidb, hcreateda, hcreatedb, havaila, havailb, hacreated, hbcreated] at hle
    have hnot : ¬ a.outboxId ≤ b.outboxId := not_le.mpr hlt
    simp [hnot] at hle
  | inr hba =>
    have hnumber := hba.1 _ _ (hidb.trans (hqueue.numbered _ b hb))
      (hida.trans (hqueue.numbered _ a ha))
    rw [UInt64.lt_iff_toNat_lt, hqueue.toNat_number hi, hqueue.toNat_number hj] at hnumber
    omega

/-- Claims and listings of a run keep the order of its enqueues when, and only when, no power of
    ten is enqueued in the millisecond of the number in front of it. -/
theorem firstInFirstOut_iff (available : UInt64) (ops : List OutboxOp)
    (hsame : ∀ op ∈ ops, SameAvailability available op)
    (hclock : (ops.filterMap enqueueTime).Pairwise (· ≤ ·))
    (hdelivers : machine.Along NoFailedDelivery new ops) :
    FirstInFirstOut (machine.trace new ops) ↔
      TurnsApart ((enqueued (machine.trace new ops)).map OutboxMessage.createdAt) := by
  constructor
  · intro hfifo
    induction ops using List.reverseRecOn with
    | nil =>
      intro k time hnone
      simp [Machine.trace, enqueued] at hnone
    | append_singleton ops op _ =>
      exact turnsApart_of_listed (queue_run hsame hdelivers)
        (wellFormed_run wellFormed_new _)
        (hfifo.listed _ (machine.last_mem_trace new ops op) none 0xFFFFFFFFFFFFFFFF)
  · intro hturns
    have hqueue := queue_run hsame hdelivers
    constructor
    · intro lane target
      obtain ⟨waiting, hlane⟩ := laneQueue_run hsame hclock hdelivers hturns lane target
      rw [← hqueue.keys]
      have hprefix : ((machine.trace new ops).flatMap fun t =>
          laneHandedOut lane target t.reply).Sublist
            ((machine.run new ops).laneIds lane target) := by
        rw [hlane.ids]
        exact List.sublist_append_left _ _
      exact hprefix.trans List.filter_sublist
    · intro t ht status limit
      -- the step ends in the state of a shorter run
      obtain ⟨pre, post, hops, hbefore, -, hafter⟩ := machine.mem_trace ht
      have hsplit : ops = (pre ++ [t.event]) ++ post := by rw [hops]; simp
      have hstate : t.after = machine.run new (pre ++ [t.event]) := by
        rw [hafter, hbefore, machine.run_append]
        rfl
      rw [hsplit] at hsame hclock hdelivers hturns ⊢
      rw [List.filterMap_append] at hclock
      have htrace : enqueued (machine.trace new (pre ++ [t.event] ++ post)) =
          enqueued (machine.trace new (pre ++ [t.event])) ++
            enqueued (machine.trace (machine.run new (pre ++ [t.event])) post) := by
        unfold enqueued
        rw [machine.trace_append, List.filterMap_append]
      rw [htrace, List.map_append] at hturns
      have hclock' := (List.pairwise_append.mp hclock).1
      have hqueue' := queue_run (fun o ho => hsame o (List.mem_append_left _ ho))
        ((machine.along_append _ _ _ _).mp hdelivers).1
      rw [htrace, List.map_append, hstate]
      apply List.Sublist.trans _ (List.sublist_append_left _ _)
      exact hqueue'.listOutbox_sublist (wellFormed_run wellFormed_new _)
        (hclock'.sublist (enqueued_times _)) hturns.of_append status limit

/-- An enqueue at time zero. -/
def enqueueOne : OutboxOp :=
  .enqueueOutbox ⟨"canonical", "projector", ⟨"1"⟩, none, 0, 5⟩ 0

/-- Two messages of a millisecond, and a claim of both. -/
def claimBoth : List OutboxOp :=
  [enqueueOne, enqueueOne,
    .claimOutbox "canonical" "projector" 2 10 "relay" 0 fun _ => .firstToken]

theorem firstInFirstOut_iff_claimBoth : FirstInFirstOut (machine.trace new claimBoth) ↔
    TurnsApart ((enqueued (machine.trace new claimBoth)).map OutboxMessage.createdAt) := by
  apply firstInFirstOut_iff 0
  · intro op hop
    simp only [claimBoth, enqueueOne, List.mem_cons, List.not_mem_nil, or_false] at hop
    rcases hop with rfl | rfl | rfl
    · rfl
    · rfl
    · trivial
  · decide
  · refine ⟨trivial, trivial, ?_, trivial⟩
    intro id message hget _ _ hclaimed
    -- both messages wait
    have hpending : ∀ entry ∈ (machine.run new [enqueueOne, enqueueOne]).messages.entries,
        entry.2.status = .pending := by decide +kernel
    rw [hpending _ (AssocMap.get?_eq_some.mp hget)] at hclaimed
    cases hclaimed

/-- Ten messages are enqueued in a millisecond, and the tenth comes before the second. -/
theorem burst_outOfOrder : ¬ ∀ (available : UInt64) (ops : List OutboxOp),
    (∀ op ∈ ops, SameAvailability available op) → (ops.filterMap enqueueTime).Pairwise (· ≤ ·) →
      machine.Along NoFailedDelivery new ops → FirstInFirstOut (machine.trace new ops) := by
  intro hall
  have hfifo := hall 0 (List.replicate 10 enqueueOne) (by
    intro op hop
    rw [List.eq_of_mem_replicate hop]
    rfl) (by decide +kernel) ⟨trivial, trivial, trivial, trivial, trivial, trivial, trivial,
      trivial, trivial, trivial, trivial⟩
  have hlast := machine.last_mem_trace new (List.replicate 9 enqueueOne) enqueueOne
  have hlisted := hfifo.listed _ hlast none 100
  exact absurd hlisted (by decide +kernel)

end Remo.InMemoryOutboxStore
