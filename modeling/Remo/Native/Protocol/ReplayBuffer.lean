import Remo.ForStd.Machine

/-!
# The replay buffer of an SSE stream

The buffer keeps the latest frames for clients that reconnect. A call of `push_json` holds no lock
from its start to its end: it allocates a sequence, stores the frame, and notifies the subscribers
in three steps, and those of other calls may come between them.
-/

namespace Remo

/-- A frame with the sequence it was allocated. Only the text of the frame is sent. -/
structure SseFrame where
  seq : UInt64
  frame : String
deriving Repr, DecidableEq

/-- What a call of `push_json` does next. -/
inductive PushBlock where
  | store
  | notify
  | done
deriving Repr, DecidableEq

/-- A call of `push_json` that has allocated its sequence. -/
structure PushCall where
  frame : SseFrame
  next : PushBlock
deriving Repr, DecidableEq

/-- What a subscriber got from `subscribe_after`, and what was sent to its channel since. -/
structure ReplaySubscriber where
  replayed : List SseFrame
  live : List SseFrame
deriving Repr, DecidableEq

/-- The buffer, with the calls of `push_json` in the order they allocated. -/
structure EventReplayBuffer where
  frames : List SseFrame
  nextSeq : UInt64
  capacity : Nat
  subscribers : List ReplaySubscriber
  calls : List PushCall
deriving Repr, DecidableEq

/-- An atomic step: one block of the call of `push_json` with the given number, or a subscription. -/
inductive ReplayBufferOp where
  | allocate (json : String)
  | store (call : Nat)
  | notify (call : Nat)
  | subscribeAfter (lastSeenSeq : UInt64)
deriving Repr, DecidableEq

/-- Send a frame to the subscriber. -/
def ReplaySubscriber.send (frame : SseFrame) (self : ReplaySubscriber) : ReplaySubscriber :=
  { self with live := self.live ++ [frame] }

namespace EventReplayBuffer

def new (capacity : Nat) : EventReplayBuffer := ⟨[], 1, capacity, [], []⟩

/-- Start a call: draw its sequence, which wraps, and format its frame. -/
def allocate (json : String) (self : EventReplayBuffer) : EventReplayBuffer :=
  { self with
    nextSeq := self.nextSeq + 1
    calls := self.calls ++ [⟨⟨self.nextSeq, s!"data: {json}\n\n"⟩, .store⟩] }

/-- Pop frames from the front while there are more than the capacity. -/
def evict (capacity : Nat) (frames : List SseFrame) : List SseFrame :=
  frames.drop (frames.length - capacity)

/-- The block under the lock of the frames. -/
def store (call : Nat) (self : EventReplayBuffer) : EventReplayBuffer :=
  match self.calls[call]? with
  | some ⟨frame, .store⟩ =>
    { self with
      frames := evict self.capacity (self.frames ++ [frame])
      calls := self.calls.set call ⟨frame, .notify⟩ }
  | _ => self

/-- The block under the lock of the subscribers. -/
def notify (call : Nat) (self : EventReplayBuffer) : EventReplayBuffer :=
  match self.calls[call]? with
  | some ⟨frame, .notify⟩ =>
    { self with
      subscribers := self.subscribers.map (·.send frame)
      calls := self.calls.set call ⟨frame, .done⟩ }
  | _ => self

/-- The stored frames after a sequence. -/
def replayAfter (self : EventReplayBuffer) (lastSeenSeq : UInt64) : List SseFrame :=
  self.frames.filter fun frame => lastSeenSeq < frame.seq

/-- Replay and subscribe, under both locks. -/
def subscribeAfter (lastSeenSeq : UInt64) (self : EventReplayBuffer) : EventReplayBuffer :=
  { self with subscribers := self.subscribers ++ [⟨self.replayAfter lastSeenSeq, []⟩] }

def call : ReplayBufferOp → EventReplayBuffer → EventReplayBuffer
  | .allocate json => allocate json
  | .store call => store call
  | .notify call => notify call
  | .subscribeAfter lastSeenSeq => subscribeAfter lastSeenSeq

def machine : Machine EventReplayBuffer ReplayBufferOp Unit where
  step self op := ((), call op self)

end EventReplayBuffer

end Remo
