import Remo.Native.Protocol.ReplayBuffer

/-!
# Replay without duplicates and gaps

A subscriber should get the frames after the one it has seen once each and in sequence, first those
that are replayed and then the live ones, and the buffer should keep the latest frames. Both depend
on how the blocks of `push_json` interleave.

## Key results

- `Tidy.call`: the calls are stored in the order of their sequences.
- `received_run`: what a subscriber got and what is coming is what it was replayed, and then what
  was pushed.
- `noDuplicatesNoGaps_of_inTurn`: a run whose steps come in turn has no duplicates and no gaps.
-/

namespace Remo

namespace EventReplayBuffer

/-- A step of a run of the buffer. -/
abbrev BufferStep := Machine.Step EventReplayBuffer ReplayBufferOp Unit

/-- The frame that a step pushes to the buffer. -/
def pushedBy (self : EventReplayBuffer) : ReplayBufferOp → List SseFrame
  | .allocate _ => []
  | .store call =>
    match self.calls[call]? with
    | some ⟨frame, .store⟩ => [frame]
    | _ => []
  | .notify _ => []
  | .subscribeAfter _ => []

/-- The frames that the steps push, in the order they push them. -/
def pushed (steps : List BufferStep) : List SseFrame :=
  steps.flatMap fun t => t.before.pushedBy t.event

/-- A run replays and keeps what it should. -/
structure NoDuplicatesNoGaps (capacity : Nat) (ops : List ReplayBufferOp) : Prop where
  /-- A subscriber gets the buffered frames after its last seen sequence and then what is pushed
      later, each once and in sequence. What it does not have yet is in a call that still has to
      notify. -/
  gets : ∀ earlier lastSeenSeq later, ops = earlier ++ .subscribeAfter lastSeenSeq :: later →
    ∃ subscriber coming,
      (machine.run (new capacity) ops).subscribers[
        (machine.run (new capacity) earlier).subscribers.length]? = some subscriber ∧
      subscriber.replayed ++ subscriber.live ++ coming =
        (machine.run (new capacity) earlier).frames.filter (fun frame => lastSeenSeq < frame.seq) ++
          pushed (machine.trace (machine.run (new capacity) earlier)
            (.subscribeAfter lastSeenSeq :: later)) ∧
      (subscriber.replayed ++ subscriber.live ++ coming).Pairwise (fun a b => a.seq < b.seq) ∧
      ((∀ call ∈ (machine.run (new capacity) ops).calls, call.next ≠ .notify) → coming = [])
  bounded : (machine.run (new capacity) ops).frames.length ≤ capacity
  increasing : (machine.run (new capacity) ops).frames.Pairwise fun a b => a.seq < b.seq
  /-- The buffer holds pushed frames, and no frame is missing that is later than one of them. -/
  recent : ∀ frame, (frame ∈ (machine.run (new capacity) ops).frames →
      frame ∈ pushed (machine.trace (new capacity) ops)) ∧
    (frame ∈ pushed (machine.trace (new capacity) ops) →
      frame ∈ (machine.run (new capacity) ops).frames ∨
        (machine.run (new capacity) ops).frames.length = capacity ∧
          ∀ kept ∈ (machine.run (new capacity) ops).frames, frame.seq < kept.seq)

/-- The step comes in turn: the sequence has not wrapped; frames are stored and sent in the order
    they were allocated, if there is somebody to send them to; and nobody subscribes between the
    blocks that store a frame and that send it. -/
def InTurn (self : EventReplayBuffer) : ReplayBufferOp → Prop
  | .allocate _ => self.nextSeq ≠ 0
  | .store call => ∀ earlier ∈ self.calls.take call, earlier.next ≠ .store
  | .notify call =>
    self.subscribers = [] ∨ ∀ earlier ∈ self.calls.take call, earlier.next ≠ .notify
  | .subscribeAfter _ => ∀ call ∈ self.calls, call.next ≠ .notify

instance (self : EventReplayBuffer) : ∀ op, Decidable (self.InTurn op)
  | .allocate _ => inferInstanceAs (Decidable (self.nextSeq ≠ 0))
  | .store call =>
    inferInstanceAs (Decidable (∀ earlier ∈ self.calls.take call, earlier.next ≠ .store))
  | .notify call =>
    inferInstanceAs (Decidable (self.subscribers = [] ∨
      ∀ earlier ∈ self.calls.take call, earlier.next ≠ .notify))
  | .subscribeAfter _ => inferInstanceAs (Decidable (∀ call ∈ self.calls, call.next ≠ .notify))

/-! ## The calls of `push_json` -/

/-- The frames of the calls that have stored them. -/
def stored (self : EventReplayBuffer) : List SseFrame :=
  (self.calls.filter fun call => call.next ≠ .store).map PushCall.frame

/-- The frames of the calls that still have to notify. -/
def pending (self : EventReplayBuffer) : List SseFrame :=
  (self.calls.filter fun call => call.next = .notify).map PushCall.frame

/-- The calls have allocated increasing sequences and stored the first of them, and the buffer has
    the last of what they stored. -/
structure Tidy (w : EventReplayBuffer) : Prop where
  sorted : w.calls.Pairwise fun a b => a.frame.seq < b.frame.seq
  below : ∀ call ∈ w.calls, w.nextSeq = 0 ∨ call.frame.seq < w.nextSeq
  inOrder : w.calls.Pairwise fun a b => a.next = .store → b.next = .store
  frames_eq : w.frames = evict w.capacity w.stored

theorem tidy_new (capacity : Nat) : (new capacity).Tidy where
  sorted := List.Pairwise.nil
  below := by simp [new]
  inOrder := List.Pairwise.nil
  frames_eq := by simp [new, evict, stored]

/-- The list around a place of it. -/
theorem calls_split {calls : List PushCall} {i : Nat} {call : PushCall}
    (h : calls[i]? = some call) :
    calls = calls.take i ++ call :: calls.drop (i + 1) ∧
      ∀ call', calls.set i call' = calls.take i ++ call' :: calls.drop (i + 1) := by
  obtain ⟨hlt, hget⟩ := List.getElem?_eq_some_iff.mp h
  refine ⟨?_, ?_⟩
  · rw [← hget, List.getElem_cons_drop, List.take_append_drop]
  · intro call'
    rw [List.set_eq_take_append_cons_drop, if_pos hlt]

/-- Evicting before and after a push is evicting after it. -/
theorem evict_append (capacity : Nat) (frames : List SseFrame) (frame : SseFrame) :
    evict capacity (evict capacity frames ++ [frame]) = evict capacity (frames ++ [frame]) := by
  unfold evict
  rw [List.length_append, List.length_drop, List.length_append, List.length_singleton]
  by_cases hroom : frames.length ≤ capacity
  · rw [Nat.sub_eq_zero_of_le hroom, List.drop_zero, Nat.sub_zero]
  · have hdrop : frames.length - capacity ≤ frames.length := by omega
    rw [← List.drop_append_of_le_length hdrop, List.drop_drop]
    congr 1
    omega

/-- Storing in turn puts the frame behind those that are stored. -/
theorem Tidy.store_eq {w : EventReplayBuffer} (h : w.Tidy) {i : Nat} {frame : SseFrame}
    (hcall : w.calls[i]? = some ⟨frame, .store⟩) :
    (w.store i).stored = w.stored ++ [frame] ∧ (w.store i).pending = w.pending ++ [frame] := by
  obtain ⟨hsplit, hset⟩ := calls_split hcall
  have hlater : ∀ call ∈ w.calls.drop (i + 1), call.next = .store := by
    have hpair := h.inOrder
    rw [hsplit, List.pairwise_append, List.pairwise_cons] at hpair
    intro call hmem
    exact hpair.2.1.1 call hmem rfl
  have hnone : (w.calls.drop (i + 1)).filter (fun call => call.next ≠ .store) = [] := by
    rw [List.filter_eq_nil_iff]
    intro call hmem
    simp [hlater call hmem]
  have hnone' : (w.calls.drop (i + 1)).filter (fun call => call.next = .notify) = [] := by
    rw [List.filter_eq_nil_iff]
    intro call hmem
    simp [hlater call hmem]
  have hcalls : (w.store i).calls = w.calls.take i ++ ⟨frame, .notify⟩ :: w.calls.drop (i + 1) := by
    unfold EventReplayBuffer.store
    rw [hcall]
    exact hset _
  unfold stored pending
  rw [hcalls]
  have hold : w.calls.filter (fun call => call.next ≠ .store) =
      (w.calls.take i).filter fun call => call.next ≠ .store := by
    conv => lhs; rw [hsplit]
    rw [List.filter_append, List.filter_cons_of_neg (by simp), hnone, List.append_nil]
  have hold' : w.calls.filter (fun call => call.next = .notify) =
      (w.calls.take i).filter fun call => call.next = .notify := by
    conv => lhs; rw [hsplit]
    rw [List.filter_append, List.filter_cons_of_neg (by simp), hnone', List.append_nil]
  rw [hold, hold', List.filter_append, List.filter_append, List.filter_cons_of_pos (by simp),
    List.filter_cons_of_pos (by simp), hnone, hnone']
  simp

/-- A step changes a call that stands at a block, or none: the calls of the blocks that are not
    enabled stay. -/
theorem store_cases (w : EventReplayBuffer) (i : Nat) :
    (w.store i = w ∧ w.pushedBy (.store i) = []) ∨
      ∃ frame, w.calls[i]? = some ⟨frame, .store⟩ ∧ w.pushedBy (.store i) = [frame] ∧
        w.store i = { w with
          frames := evict w.capacity (w.frames ++ [frame])
          calls := w.calls.set i ⟨frame, .notify⟩ } := by
  unfold EventReplayBuffer.store pushedBy
  dsimp only
  cases hcall : w.calls[i]? with
  | none => exact .inl ⟨rfl, rfl⟩
  | some call =>
    obtain ⟨frame, next⟩ := call
    cases next with
    | store => exact .inr ⟨frame, rfl, rfl, rfl⟩
    | notify => exact .inl ⟨rfl, rfl⟩
    | done => exact .inl ⟨rfl, rfl⟩

theorem notify_cases (w : EventReplayBuffer) (i : Nat) :
    w.notify i = w ∨
      ∃ frame, w.calls[i]? = some ⟨frame, .notify⟩ ∧
        w.notify i = { w with
          subscribers := w.subscribers.map (·.send frame)
          calls := w.calls.set i ⟨frame, .done⟩ } := by
  unfold EventReplayBuffer.notify
  cases hcall : w.calls[i]? with
  | none => exact .inl rfl
  | some call =>
    obtain ⟨frame, next⟩ := call
    cases next with
    | store => exact .inl rfl
    | notify => exact .inr ⟨frame, rfl, rfl⟩
    | done => exact .inl rfl

/-- Notifying changes none of the stored frames. -/
theorem stored_notify (w : EventReplayBuffer) (i : Nat) : (w.notify i).stored = w.stored := by
  cases notify_cases w i with
  | inl hsame => rw [hsame]
  | inr hnotify =>
    obtain ⟨frame, hcall, heq⟩ := hnotify
    obtain ⟨hsplit, hset⟩ := calls_split hcall
    rw [heq]
    show ((w.calls.set i ⟨frame, .done⟩).filter fun call => call.next ≠ .store).map
      PushCall.frame = _
    unfold stored
    rw [hset]
    conv => rhs; rw [hsplit]
    simp

/-- What a step adds to the stored frames. -/
theorem Tidy.stored_call {w : EventReplayBuffer} (h : w.Tidy) (op : ReplayBufferOp) :
    (call op w).stored = w.stored ++ w.pushedBy op := by
  cases op with
  | allocate json => simp [call, allocate, stored, pushedBy]
  | store i =>
    cases store_cases w i with
    | inl hsame =>
      show (w.store i).stored = _
      rw [hsame.1, hsame.2, List.append_nil]
    | inr hstore =>
      obtain ⟨frame, hcall, hpushed, -⟩ := hstore
      rw [hpushed]
      exact (h.store_eq hcall).1
  | notify i =>
    show (w.notify i).stored = _
    rw [stored_notify, pushedBy, List.append_nil]
  | subscribeAfter lastSeenSeq => simp [call, subscribeAfter, stored, pushedBy]

/-- Moving a call on keeps the order of the stages, when the calls before it are not behind. -/
theorem inOrder_set {calls : List PushCall} {i : Nat} {call : PushCall} {next : PushBlock}
    (hcall : calls[i]? = some call) (hnext : next ≠ .store)
    (horder : calls.Pairwise fun a b => a.next = .store → b.next = .store)
    (hbefore : ∀ earlier ∈ calls.take i, earlier.next ≠ .store) :
    (calls.set i ⟨call.frame, next⟩).Pairwise fun a b => a.next = .store → b.next = .store := by
  obtain ⟨hsplit, hset⟩ := calls_split hcall
  rw [hset, List.pairwise_append, List.pairwise_cons]
  rw [hsplit, List.pairwise_append, List.pairwise_cons] at horder
  refine ⟨horder.1, ⟨?_, horder.2.1.2⟩, ?_⟩
  · intro b hb hstage
    exact absurd hstage hnext
  · intro a ha b hb hstage
    exact absurd hstage (hbefore a ha)

/-- Moving a call on keeps its sequence. -/
theorem sorted_set {calls : List PushCall} {i : Nat} {call : PushCall} (next : PushBlock)
    (hcall : calls[i]? = some call)
    (hsorted : calls.Pairwise fun a b => a.frame.seq < b.frame.seq) :
    (calls.set i ⟨call.frame, next⟩).Pairwise fun a b => a.frame.seq < b.frame.seq := by
  obtain ⟨hsplit, hset⟩ := calls_split hcall
  rw [hset, List.pairwise_append, List.pairwise_cons]
  rw [hsplit, List.pairwise_append, List.pairwise_cons] at hsorted
  refine ⟨hsorted.1, ⟨hsorted.2.1.1, hsorted.2.1.2⟩, ?_⟩
  intro a ha b hb
  cases List.mem_cons.mp hb with
  | inl heq =>
    rw [heq]
    exact hsorted.2.2 a ha call List.mem_cons_self
  | inr hmem => exact hsorted.2.2 a ha b (List.mem_cons_of_mem _ hmem)

theorem below_set {w : EventReplayBuffer} {i : Nat} {call : PushCall} (next : PushBlock)
    (hcall : w.calls[i]? = some call)
    (hbelow : ∀ call ∈ w.calls, w.nextSeq = 0 ∨ call.frame.seq < w.nextSeq) :
    ∀ c ∈ w.calls.set i ⟨call.frame, next⟩, w.nextSeq = 0 ∨ c.frame.seq < w.nextSeq := by
  intro c hc
  cases List.mem_or_eq_of_mem_set hc with
  | inl hmem => exact hbelow c hmem
  | inr heq =>
    rw [heq]
    exact hbelow call (List.mem_of_getElem? hcall)

/-- The last sequence before the wrap is above those that were drawn. -/
theorem lt_add_one_or_eq_zero (n : UInt64) : n + 1 = 0 ∨ n < n + 1 := by
  by_cases hroom : n.toNat + 1 < 2 ^ 64
  · right
    rw [UInt64.lt_iff_toNat_lt, UInt64.toNat_add]
    have hone : (1 : UInt64).toNat = 1 := rfl
    omega
  · left
    apply UInt64.toNat_inj.mp
    have hlt := n.toNat_lt
    rw [UInt64.toNat_add]
    have hone : (1 : UInt64).toNat = 1 := rfl
    have hzero : (0 : UInt64).toNat = 0 := rfl
    omega

/-- A step in turn keeps the buffer tidy. -/
theorem Tidy.call {w : EventReplayBuffer} (h : w.Tidy) {op : ReplayBufferOp}
    (hturn : w.InTurn op) : (call op w).Tidy := by
  have hstored := h.stored_call op
  cases op with
  | allocate json =>
    have hpositive : w.nextSeq ≠ 0 := hturn
    refine ⟨?_, ?_, ?_, ?_⟩
    · show (w.calls ++ [_]).Pairwise _
      rw [List.pairwise_append]
      refine ⟨h.sorted, List.pairwise_singleton _ _, ?_⟩
      intro a ha b hb
      rw [List.mem_singleton.mp hb]
      exact (h.below a ha).resolve_left hpositive
    · intro call hmem
      show w.nextSeq + 1 = 0 ∨ call.frame.seq < w.nextSeq + 1
      cases lt_add_one_or_eq_zero w.nextSeq with
      | inl hwrap => exact .inl hwrap
      | inr hlt =>
        right
        cases List.mem_append.mp hmem with
        | inl hold => exact UInt64.lt_trans ((h.below call hold).resolve_left hpositive) hlt
        | inr hnew =>
          rw [List.mem_singleton.mp hnew]
          exact hlt
    · show (w.calls ++ [_]).Pairwise _
      rw [List.pairwise_append]
      refine ⟨h.inOrder, List.pairwise_singleton _ _, ?_⟩
      intro a ha b hb hstage
      rw [List.mem_singleton.mp hb]
    · rw [hstored, pushedBy, List.append_nil]
      exact h.frames_eq
  | store i =>
    cases store_cases w i with
    | inl hsame =>
      show (w.store i).Tidy
      rw [hsame.1]
      exact h
    | inr hstore =>
      obtain ⟨frame, hcall, hpushed, heq⟩ := hstore
      rw [hpushed] at hstored
      have hstored' : (w.store i).stored = w.stored ++ [frame] := hstored
      show (w.store i).Tidy
      rw [heq] at hstored' ⊢
      refine ⟨sorted_set .notify hcall h.sorted, below_set .notify hcall h.below,
        inOrder_set hcall (by simp) h.inOrder hturn, ?_⟩
      rw [hstored']
      show evict w.capacity (w.frames ++ [frame]) = _
      rw [h.frames_eq]
      exact evict_append _ _ _
  | notify i =>
    cases notify_cases w i with
    | inl hsame =>
      show (w.notify i).Tidy
      rw [hsame]
      exact h
    | inr hnotify =>
      obtain ⟨frame, hcall, heq⟩ := hnotify
      have hkept := stored_notify w i
      obtain ⟨hsplit, -⟩ := calls_split hcall
      -- the calls before one that has stored have stored
      have hbefore : ∀ earlier ∈ w.calls.take i, earlier.next ≠ .store := by
        intro earlier hmem hstage
        have horder := h.inOrder
        rw [hsplit, List.pairwise_append] at horder
        have hbehind := horder.2.2 earlier hmem _ List.mem_cons_self hstage
        cases hbehind
      show (w.notify i).Tidy
      rw [heq] at hkept ⊢
      refine ⟨sorted_set .done hcall h.sorted, below_set .done hcall h.below,
        inOrder_set hcall (by simp) h.inOrder hbefore, ?_⟩
      rw [hkept]
      exact h.frames_eq
  | subscribeAfter lastSeenSeq => exact ⟨h.sorted, h.below, h.inOrder, h.frames_eq⟩

/-! ## A subscriber -/

/-- What the subscriber got, and then what is coming, is `target`. -/
def Received (self : EventReplayBuffer) (k : Nat) (target : List SseFrame) : Prop :=
  ∃ subscriber, self.subscribers[k]? = some subscriber ∧
    subscriber.replayed ++ subscriber.live ++ self.pending = target

/-- Notifying in turn sends the first of the frames that are coming. -/
theorem pending_notify {w : EventReplayBuffer} {i : Nat} {frame : SseFrame}
    (hcall : w.calls[i]? = some ⟨frame, .notify⟩)
    (hturn : ∀ earlier ∈ w.calls.take i, earlier.next ≠ .notify) :
    w.pending = frame :: ((w.calls.set i ⟨frame, .done⟩).filter fun call =>
      call.next = .notify).map PushCall.frame := by
  obtain ⟨hsplit, hset⟩ := calls_split hcall
  have hnone : (w.calls.take i).filter (fun call => call.next = .notify) = [] := by
    rw [List.filter_eq_nil_iff]
    intro call hmem
    simpa using hturn call hmem
  unfold pending
  rw [hset, List.filter_append, hnone]
  conv => lhs; rw [hsplit]
  rw [List.filter_append, hnone]
  simp

/-- A step in turn adds what it pushes to what a subscriber gets. -/
theorem Tidy.received_call {w : EventReplayBuffer} (h : w.Tidy) {op : ReplayBufferOp}
    (hturn : w.InTurn op) {k : Nat} {target : List SseFrame} (hreceived : w.Received k target) :
    (EventReplayBuffer.call op w).Received k (target ++ w.pushedBy op) := by
  obtain ⟨subscriber, hsub, htarget⟩ := hreceived
  cases op with
  | allocate json =>
    refine ⟨subscriber, hsub, ?_⟩
    have hpending : (w.allocate json).pending = w.pending := by simp [allocate, pending]
    show subscriber.replayed ++ subscriber.live ++ (w.allocate json).pending = _
    rw [hpending, htarget, pushedBy, List.append_nil]
  | store i =>
    cases store_cases w i with
    | inl hsame =>
      show (w.store i).Received k _
      rw [hsame.1, hsame.2, List.append_nil]
      exact ⟨subscriber, hsub, htarget⟩
    | inr hstore =>
      obtain ⟨frame, hcall, hpushed, heq⟩ := hstore
      have hpending := (h.store_eq hcall).2
      show (w.store i).Received k _
      refine ⟨subscriber, ?_, ?_⟩
      · rw [heq]
        exact hsub
      · rw [hpending, hpushed, ← List.append_assoc, htarget]
  | notify i =>
    cases notify_cases w i with
    | inl hsame =>
      show (w.notify i).Received k _
      rw [hsame, pushedBy, List.append_nil]
      exact ⟨subscriber, hsub, htarget⟩
    | inr hnotify =>
      obtain ⟨frame, hcall, heq⟩ := hnotify
      have hsome : w.subscribers ≠ [] := by
        intro hnil
        rw [hnil] at hsub
        cases hsub
      have hpending := pending_notify hcall (hturn.resolve_left hsome)
      show (w.notify i).Received k _
      rw [heq, pushedBy, List.append_nil]
      refine ⟨subscriber.send frame, ?_, ?_⟩
      · show (w.subscribers.map (·.send frame))[k]? = _
        rw [List.getElem?_map, hsub]
        rfl
      · rw [← htarget, hpending, ReplaySubscriber.send]
        unfold pending
        simp
  | subscribeAfter lastSeenSeq =>
    rw [pushedBy, List.append_nil]
    refine ⟨subscriber, ?_, htarget⟩
    show (w.subscribers ++ [_])[k]? = _
    rw [List.getElem?_append_left (List.getElem?_eq_some_iff.mp hsub).1, hsub]

/-- A new subscriber gets the replayed frames. Nothing is coming that it was replayed. -/
theorem received_subscribeAfter {w : EventReplayBuffer} {lastSeenSeq : UInt64}
    (hturn : w.InTurn (.subscribeAfter lastSeenSeq)) :
    (w.subscribeAfter lastSeenSeq).Received w.subscribers.length
      (w.frames.filter fun frame => lastSeenSeq < frame.seq) := by
  have hnone : w.calls.filter (fun call => call.next = .notify) = [] := by
    rw [List.filter_eq_nil_iff]
    intro call hmem
    simpa using hturn call hmem
  refine ⟨⟨w.replayAfter lastSeenSeq, []⟩, ?_, ?_⟩
  · show (w.subscribers ++ [_])[w.subscribers.length]? = _
    simp
  · show w.replayAfter lastSeenSeq ++ [] ++
      (w.calls.filter fun call => call.next = .notify).map PushCall.frame = _
    rw [hnone]
    simp [replayAfter]

/-! ## Runs -/

theorem Tidy.run {w : EventReplayBuffer} (h : w.Tidy) {ops : List ReplayBufferOp}
    (hturn : machine.Along InTurn w ops) : (machine.run w ops).Tidy := by
  induction ops generalizing w with
  | nil => exact h
  | cons op ops ih => exact ih (h.call hturn.1) hturn.2

theorem Tidy.stored_run {w : EventReplayBuffer} (h : w.Tidy) {ops : List ReplayBufferOp}
    (hturn : machine.Along InTurn w ops) :
    (machine.run w ops).stored = w.stored ++ pushed (machine.trace w ops) := by
  induction ops generalizing w with
  | nil => simp [Machine.run, Machine.trace, pushed]
  | cons op ops ih =>
    have hrest := ih (h.call hturn.1) hturn.2
    show (machine.run (EventReplayBuffer.call op w) ops).stored = _
    rw [hrest, h.stored_call, List.append_assoc]
    rfl

theorem received_run {w : EventReplayBuffer} (h : w.Tidy) {ops : List ReplayBufferOp}
    (hturn : machine.Along InTurn w ops) {k : Nat} {target : List SseFrame}
    (hreceived : w.Received k target) :
    (machine.run w ops).Received k (target ++ pushed (machine.trace w ops)) := by
  induction ops generalizing w target with
  | nil => simpa [Machine.run, Machine.trace, pushed] using hreceived
  | cons op ops ih =>
    have hrest := ih (h.call hturn.1) hturn.2 (h.received_call hturn.1 hreceived)
    rw [List.append_assoc] at hrest
    exact hrest

theorem Tidy.stored_sorted {w : EventReplayBuffer} (h : w.Tidy) :
    w.stored.Pairwise fun a b => a.seq < b.seq := by
  unfold stored
  rw [List.pairwise_map]
  exact h.sorted.filter _

theorem capacity_call (op : ReplayBufferOp) (w : EventReplayBuffer) :
    (call op w).capacity = w.capacity := by
  cases op with
  | allocate json => rfl
  | store i =>
    cases store_cases w i with
    | inl hsame => exact congrArg capacity hsame.1
    | inr hstore =>
      obtain ⟨frame, -, -, heq⟩ := hstore
      show (w.store i).capacity = _
      rw [heq]
  | notify i =>
    cases notify_cases w i with
    | inl hsame => exact congrArg capacity hsame
    | inr hnotify =>
      obtain ⟨frame, -, heq⟩ := hnotify
      show (w.notify i).capacity = _
      rw [heq]
  | subscribeAfter lastSeenSeq => rfl

theorem capacity_run (w : EventReplayBuffer) (ops : List ReplayBufferOp) :
    (machine.run w ops).capacity = w.capacity := by
  induction ops generalizing w with
  | nil => rfl
  | cons op ops ih => exact (ih (call op w)).trans (capacity_call op w)

/-- A run whose steps come in turn replays every frame once and in sequence, and keeps the latest
    frames. -/
theorem noDuplicatesNoGaps_of_inTurn (capacity : Nat) {ops : List ReplayBufferOp}
    (hturn : machine.Along InTurn (new capacity) ops) : NoDuplicatesNoGaps capacity ops := by
  have htidy := (tidy_new capacity).run hturn
  have hstored := (tidy_new capacity).stored_run hturn
  have hnone : (new capacity).stored = [] := by simp [new, stored]
  rw [hnone, List.nil_append] at hstored
  have hsorted := htidy.stored_sorted
  have hframes := htidy.frames_eq
  rw [capacity_run, hstored] at hframes
  rw [hstored] at hsorted
  have hcapacity : (new capacity).capacity = capacity := rfl
  rw [hcapacity] at hframes
  constructor
  case gets =>
    intro earlier lastSeenSeq later hops
    rw [hops, Machine.along_append] at hturn
    have htidy' := (tidy_new capacity).run hturn.1
    have hstored' := (tidy_new capacity).stored_run hturn.1
    rw [hnone, List.nil_append] at hstored'
    obtain ⟨hsubscribe, hlater⟩ := hturn.2
    have hreceived := received_run (htidy'.call hsubscribe) hlater
      (received_subscribeAfter hsubscribe)
    have hrun : machine.run (new capacity) ops =
        machine.run (call (.subscribeAfter lastSeenSeq) (machine.run (new capacity) earlier))
          later := by
      rw [hops, Machine.run_append]
      rfl
    obtain ⟨subscriber, hsub, hgets⟩ := hreceived
    refine ⟨subscriber, (machine.run (new capacity) ops).pending, ?_, ?_, ?_, ?_⟩
    · rw [hrun]
      exact hsub
    · rw [hrun]
      exact hgets
    · rw [hrun]
      have hpushed : pushed (machine.trace (new capacity) ops) =
          pushed (machine.trace (new capacity) earlier) ++
            pushed (machine.trace (call (.subscribeAfter lastSeenSeq)
              (machine.run (new capacity) earlier)) later) := by
        rw [hops, Machine.trace_append]
        unfold pushed
        rw [List.flatMap_append]
        rfl
      rw [hpushed] at hsorted
      have hgets' : subscriber.replayed ++ subscriber.live ++ (machine.run (call
          (.subscribeAfter lastSeenSeq) (machine.run (new capacity) earlier)) later).pending = _ :=
        hgets
      rw [hgets']
      refine List.Pairwise.sublist ?_ hsorted
      apply List.Sublist.append _ (List.Sublist.refl _)
      -- the buffer had the last of the frames pushed earlier
      apply (List.filter_sublist).trans
      rw [htidy'.frames_eq, hstored']
      exact List.drop_sublist _ _
    · intro hquiet
      unfold pending
      rw [List.map_eq_nil_iff, List.filter_eq_nil_iff]
      intro call hmem
      simpa using hquiet call hmem
  case bounded =>
    rw [hframes, evict, List.length_drop]
    omega
  case increasing =>
    rw [hframes]
    exact hsorted.sublist (List.drop_sublist _ _)
  case recent =>
    intro frame
    rw [hframes, evict]
    generalize pushed (machine.trace (new capacity) ops) = frames at hsorted ⊢
    refine ⟨List.mem_of_mem_drop, ?_⟩
    intro hmem
    have hsplit := List.take_append_drop (frames.length - capacity) frames
    rw [← hsplit] at hmem hsorted
    cases List.mem_append.mp hmem with
    | inr hkept => exact .inl hkept
    | inl hevicted =>
      right
      rw [List.pairwise_append] at hsorted
      have hpositive := List.length_pos_of_mem hevicted
      rw [List.length_take] at hpositive
      refine ⟨?_, hsorted.2.2 frame hevicted⟩
      rw [List.length_drop]
      omega

/-- A subscriber between two pushes, the second of which has not notified yet. -/
theorem noDuplicatesNoGaps_of_inTurn_reconnect :
    NoDuplicatesNoGaps 64 [.allocate "1", .store 0, .notify 0, .subscribeAfter 0, .allocate "2",
      .store 1] :=
  noDuplicatesNoGaps_of_inTurn 64 (by decide)

/-- A subscriber that comes between the blocks of a call gets its frame twice. -/
theorem subscribeBetween_duplicates :
    ¬NoDuplicatesNoGaps 64 [.allocate "1", .store 0, .subscribeAfter 0, .notify 0] := by
  intro h
  obtain ⟨subscriber, coming, hsub, hgets, -⟩ := h.gets [.allocate "1", .store 0] 0 [.notify 0] rfl
  have htwice : (machine.run (new 64)
      [.allocate "1", .store 0, .subscribeAfter 0, .notify 0]).subscribers[
        (machine.run (new 64) [.allocate "1", .store 0]).subscribers.length]? =
      some ⟨[⟨1, "data: 1\n\n"⟩], [⟨1, "data: 1\n\n"⟩]⟩ := by decide
  have honce : (machine.run (new 64) [.allocate "1", .store 0]).frames.filter
      (fun frame => 0 < frame.seq) ++ pushed (machine.trace (machine.run (new 64)
        [.allocate "1", .store 0]) [.subscribeAfter 0, .notify 0]) =
      [⟨1, "data: 1\n\n"⟩] := by decide
  rw [htwice] at hsub
  rw [honce, ← Option.some.inj hsub] at hgets
  have hlength := congrArg List.length hgets
  simp at hlength

end EventReplayBuffer

end Remo
