import Mathlib.Data.Finset.Erase
import Mathlib.Data.Finset.Insert

/-!
# Streams of nested blocks

A stream of runs whose content stands in blocks. `StreamClient` is a strict client of such a
stream: it takes one frame after another and gives up at the first that does not fit. Blocks are
named by `β`, the steps of a run by `ν`.

## Key results

- `receiveAll_append`: frames can be taken in parts.
- `receiveAll_content`: content that opens its block unless it is open is taken.
- `receiveAll_closed`: closing a block if it is open leaves it closed.
-/

namespace Remo

/-- What a frame means to a client. -/
inductive Frame (β ν : Type*) where
  | start
  | terminal
  | opened (block : β)
  | content (block : β)
  | closed (block : β)
  | stepStart (step : ν)
  | stepFinish (step : ν)
  | other
deriving DecidableEq

/-- The step frames of a run so far: all matched, one step still open, or out of order. -/
inductive Pairing (ν : Type*) where
  | matched
  | within (step : ν)
  | broken
deriving DecidableEq

namespace Pairing

variable {ν : Type*}

/-- A step starts. -/
def start (step : ν) : Pairing ν → Pairing ν
  | matched => within step
  | _ => broken

/-- A step finishes. -/
def finish [DecidableEq ν] (step : ν) : Pairing ν → Pairing ν
  | within current => if current = step then matched else broken
  | _ => broken

end Pairing

/-- A strict client of a stream: whether a run is under way, its open blocks and its steps. -/
structure StreamClient (β ν : Type*) where
  running : Bool
  blocks : Finset β
  steps : Pairing ν
deriving DecidableEq

namespace StreamClient

variable {β ν : Type*} [DecidableEq β] [DecidableEq ν]

/-- A client that has not seen any frame. -/
def idle : StreamClient β ν := ⟨false, ∅, .matched⟩

/-- Take a frame. Only a start is expected while no run is under way, a block is opened when it is
    not open and has content and is closed when it is, and a run ends with all blocks closed. -/
def receive (c : StreamClient β ν) : Frame β ν → Option (StreamClient β ν)
  | .start => if c.running then none else some ⟨true, ∅, .matched⟩
  | .terminal => if c.running ∧ c.blocks = ∅ then some { c with running := false } else none
  | .opened b =>
    if c.running ∧ b ∉ c.blocks then some { c with blocks := insert b c.blocks } else none
  | .content b => if c.running ∧ b ∈ c.blocks then some c else none
  | .closed b =>
    if c.running ∧ b ∈ c.blocks then some { c with blocks := c.blocks.erase b } else none
  | .stepStart s => if c.running then some { c with steps := c.steps.start s } else none
  | .stepFinish s => if c.running then some { c with steps := c.steps.finish s } else none
  | .other => if c.running then some c else none

/-- Take frames in order. -/
def receiveAll (c : StreamClient β ν) : List (Frame β ν) → Option (StreamClient β ν)
  | [] => some c
  | f :: fs => (c.receive f).bind (receiveAll · fs)

@[simp] theorem receiveAll_nil (c : StreamClient β ν) : c.receiveAll [] = some c := rfl

@[simp] theorem receiveAll_cons (c : StreamClient β ν) (f : Frame β ν) (fs : List (Frame β ν)) :
    c.receiveAll (f :: fs) = (c.receive f).bind (receiveAll · fs) := rfl

theorem receiveAll_append (c : StreamClient β ν) (fs gs : List (Frame β ν)) :
    c.receiveAll (fs ++ gs) = (c.receiveAll fs).bind (receiveAll · gs) := by
  induction fs generalizing c with
  | nil => rfl
  | cons f fs ih =>
    rw [List.cons_append, receiveAll_cons, receiveAll_cons, Option.bind_assoc]
    exact congrArg _ (funext ih)

/-- Content whose block is opened first unless it is open. -/
theorem receiveAll_content {c : StreamClient β ν} {b : β} {isOpen : Bool}
    (hopen : isOpen = true ↔ b ∈ c.blocks) (hrun : c.running = true) :
    c.receiveAll ((if isOpen then [] else [.opened b]) ++ [.content b]) =
      some { c with blocks := insert b c.blocks } := by
  cases isOpen with
  | true =>
    have hb : b ∈ c.blocks := hopen.mp rfl
    have htake : c.receive (.content b) = some c := by simp [receive, hrun, hb]
    simp [htake, Finset.insert_eq_of_mem hb]
  | false =>
    have hb : b ∉ c.blocks := by simpa using hopen
    simp [receive, hrun, hb]

/-- A block that is closed if it is open. -/
theorem receiveAll_closed {c : StreamClient β ν} {b : β} {isOpen : Bool}
    (hopen : isOpen = true ↔ b ∈ c.blocks) (hrun : c.running = true) :
    c.receiveAll (if isOpen then [.closed b] else []) =
      some { c with blocks := c.blocks.erase b } := by
  cases isOpen with
  | true =>
    have hb : b ∈ c.blocks := hopen.mp rfl
    simp [receive, hrun, hb]
  | false =>
    have hb : b ∉ c.blocks := by simpa using hopen
    simp [Finset.erase_eq_of_notMem hb]

/-- Frames without a meaning for the client are taken. -/
theorem receiveAll_other {c : StreamClient β ν} {fs : List (Frame β ν)} (hrun : c.running = true)
    (hother : ∀ f ∈ fs, f = .other) : c.receiveAll fs = some c := by
  induction fs with
  | nil => rfl
  | cons f fs ih =>
    rw [receiveAll_cons, hother f List.mem_cons_self]
    simp [receive, hrun, ih fun g hg => hother g (List.mem_cons_of_mem f hg)]

/-- A run does not end while a block is open. -/
theorem receive_terminal_of_mem {c : StreamClient β ν} {b : β} (hb : b ∈ c.blocks) :
    c.receive .terminal = none := by
  have hblocks : c.blocks ≠ ∅ := Finset.ne_empty_of_mem hb
  simp [receive, hblocks]

end StreamClient

end Remo
