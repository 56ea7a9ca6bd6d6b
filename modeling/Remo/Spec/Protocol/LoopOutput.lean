import Remo.Native.Protocol.Shared
import Remo.ForStd.BlockStream
import Remo.ForStd.Machine

/-!
# The output of the loop and its clients

The shape of the events that the loop emits over any number of runs, and what a strict client
asks of the frames an encoder writes for them. The shape only depends on the kind of an event.

## Key results

- `accepts_iff`: when every step of an encoder is accepted exactly if it is clean, the output of
  shaped events is accepted exactly if all of them are clean.
- `OpenBlocks.receiveAll_close`: a client follows when all open blocks are closed.
- `OpenBlocks.insert_text`, `OpenBlocks.erase_text`: the open blocks after a block is opened or
  closed.
-/

namespace Remo

namespace Protocol

/-- What an event means for the blocks and steps of its run. -/
inductive EventKind where
  | runStart
  | runFinish (suspended : Bool)
  | error
  | stepStart
  | stepEnd
  | text
  | reasoning
  | toolCallStart
  | neutral
deriving DecidableEq

/-- The kind of an event. -/
def AgentEvent.kind : AgentEvent → EventKind
  | runStart _ _ _ => .runStart
  | runFinish _ _ _ termination => .runFinish (termination = .suspended)
  | error _ _ => .error
  | stepStart _ => .stepStart
  | stepEnd => .stepEnd
  | textDelta _ => .text
  | reasoningDelta _ => .reasoning
  | toolCallStart _ _ => .toolCallStart
  | _ => .neutral

/-- Where the output stands: no run yet, in a run before its first step, in a step, between a
    step's end and the next step, or after a run. -/
inductive Stage where
  | idle
  | started
  | inStep
  | stepped
  | finished
deriving DecidableEq

namespace Stage

/-- A run is under way. -/
def running : Stage → Bool
  | idle => false
  | finished => false
  | _ => true

/-- Where the output stands after an event. -/
def next (st : Stage) (k : EventKind) : Stage :=
  match k with
  | .runStart => started
  | .runFinish _ => if st.running then finished else st
  | .error => if st.running then finished else st
  | .stepStart => if st.running then inStep else st
  | .stepEnd => if st.running then stepped else st
  | .text => st
  | .reasoning => st
  | .toolCallStart => st
  | .neutral => st

/-- The loop can emit the event here. Text and reasoning come in steps, an error or the finish of
    the run at any point of it, and after a run anything may still come. -/
def allows : Stage → EventKind → Bool
  | idle, k => k = .runStart
  | finished, _ => true
  | inStep, k => k ≠ .runStart ∧ k ≠ .stepStart
  | _, k => k ≠ .runStart ∧ k ≠ .stepEnd ∧ k ≠ .text ∧ k ≠ .reasoning

end Stage

/-- The events are shaped like the loop's output. -/
def Shaped : Stage → List AgentEvent → Prop
  | _, [] => True
  | st, ev :: evs => st.allows ev.kind = true ∧ Shaped (st.next ev.kind) evs

instance : ∀ (st : Stage) (evs : List AgentEvent), Decidable (Shaped st evs)
  | _, [] => .isTrue trivial
  | st, ev :: evs =>
    have := instDecidableShaped (st.next ev.kind) evs
    inferInstanceAs (Decidable (st.allows ev.kind = true ∧ Shaped (st.next ev.kind) evs))

/-- What the events so far leave open: whether text or reasoning came that no later event ends. -/
structure Progress where
  stage : Stage
  text : Bool
  reasoning : Bool
deriving DecidableEq

namespace Progress

/-- Nothing has been emitted. -/
def idle : Progress := ⟨.idle, false, false⟩

/-- What is open after an event. The start of a tool call ends the text, and in some protocols
    also the reasoning. -/
def next (toolCallEndsReasoning : Bool) (pr : Progress) (k : EventKind) : Progress :=
  match k with
  | .runStart => ⟨.started, false, false⟩
  | .runFinish _ => ⟨pr.stage.next k, false, false⟩
  | .error => ⟨pr.stage.next k, false, false⟩
  | .stepStart => { pr with stage := pr.stage.next k }
  | .stepEnd => ⟨pr.stage.next k, false, false⟩
  | .text => { pr with text := pr.text || pr.stage.running }
  | .reasoning => { pr with reasoning := pr.reasoning || pr.stage.running }
  | .toolCallStart =>
    { pr with text := false, reasoning := pr.reasoning && !toolCallEndsReasoning }
  | .neutral => pr

theorem next_stage (ends : Bool) (pr : Progress) (k : EventKind) :
    (pr.next ends k).stage = pr.stage.next k := by
  cases k <;> rfl

/-- No text and no reasoning is open. -/
def Closed (pr : Progress) : Prop := pr.text = false ∧ pr.reasoning = false

instance (pr : Progress) : Decidable pr.Closed := inferInstanceAs (Decidable (_ ∧ _))

end Progress

/-- Every event meets `clean`, given what the events before it left open. -/
def Clean (ends : Bool) (clean : Progress → EventKind → Prop) : Progress → List AgentEvent → Prop
  | _, [] => True
  | pr, ev :: evs => clean pr ev.kind ∧ Clean ends clean (pr.next ends ev.kind) evs

instance (ends : Bool) (clean : Progress → EventKind → Prop) [∀ pr k, Decidable (clean pr k)] :
    ∀ (pr : Progress) (evs : List AgentEvent), Decidable (Clean ends clean pr evs)
  | _, [] => .isTrue trivial
  | pr, ev :: evs =>
    have := instDecidableClean ends clean (pr.next ends ev.kind) evs
    inferInstanceAs (Decidable (clean pr ev.kind ∧ Clean ends clean (pr.next ends ev.kind) evs))

/-- The two kinds of blocks. -/
inductive BlockKind where
  | text
  | reasoning
deriving DecidableEq

/-- A block: its kind and its id. -/
abbrev Block := BlockKind × String

section Client

variable {ν : Type*} [DecidableEq ν]

/-- What is asked of a client after an event: a run that an event ends is ended by its frames, and
    one that finishes after a step's end has its step frames matched. -/
def Settled (st : Stage) (k : EventKind) (c : StreamClient Block ν) : Prop :=
  match k with
  | .runFinish _ =>
    (st.running = true → c.running = false) ∧ (st = .stepped → c.steps = .matched)
  | .error => st.running = true → c.running = false
  | _ => True

instance (st : Stage) (k : EventKind) (c : StreamClient Block ν) : Decidable (Settled st k c) := by
  unfold Settled
  split <;> infer_instance

/-- Take the frames of an event. -/
def follow (st : Stage) (c : StreamClient Block ν) (k : EventKind)
    (frames : List (Frame Block ν)) : Option (StreamClient Block ν) :=
  (c.receiveAll frames).filter fun c => Settled st k c

theorem follow_eq_some {st : Stage} {c c' : StreamClient Block ν} {k : EventKind}
    {frames : List (Frame Block ν)} (htake : c.receiveAll frames = some c')
    (hsettled : Settled st k c') : follow st c k frames = some c' := by
  rw [follow, htake, Option.filter_some, if_pos (decide_eq_true hsettled)]

theorem follow_eq_none {st : Stage} {c : StreamClient Block ν} {k : EventKind}
    {frames : List (Frame Block ν)} (htake : ∀ c', c.receiveAll frames = some c' → ¬ Settled st k c') :
    follow st c k frames = none := by
  unfold follow
  cases h : c.receiveAll frames with
  | none => rfl
  | some c' => rw [Option.filter_some, if_neg (by simpa using htake c' h)]

/-- A strict client accepts the frames that were written for the events. -/
def accepts : Stage → StreamClient Block ν → List (AgentEvent × List (Frame Block ν)) → Bool
  | _, _, [] => true
  | st, c, (ev, frames) :: rest =>
    match follow st c ev.kind frames with
    | some c => accepts (st.next ev.kind) c rest
    | none => false

/-- The events with the frames an encoder writes for them. -/
def output {σ ο : Type*} (encoder : Machine σ AgentEvent (List ο)) (frame : ο → Frame Block ν)
    (s : σ) (evs : List AgentEvent) : List (AgentEvent × List (Frame Block ν)) :=
  evs.zip ((encoder.replies s evs).map (·.map frame))

omit [DecidableEq ν] in
theorem output_cons {σ ο : Type*} (encoder : Machine σ AgentEvent (List ο))
    (frame : ο → Frame Block ν) (s : σ) (ev : AgentEvent) (evs : List AgentEvent) :
    output encoder frame s (ev :: evs) =
      (ev, (encoder.step s ev).1.map frame) :: output encoder frame (encoder.step s ev).2 evs := rfl

/-- When every step keeps `Inv` and is accepted exactly if it is clean, a whole output is accepted
    exactly if all its events are clean. -/
theorem accepts_iff {σ ο : Type*} {encoder : Machine σ AgentEvent (List ο)}
    {frame : ο → Frame Block ν} {ends : Bool} {clean : Progress → EventKind → Prop}
    {Inv : Progress → σ → StreamClient Block ν → Prop}
    (hclean : ∀ pr s c ev, Inv pr s c → pr.stage.allows ev.kind = true → clean pr ev.kind →
      ∃ c', follow pr.stage c ev.kind ((encoder.step s ev).1.map frame) = some c' ∧
        Inv (pr.next ends ev.kind) (encoder.step s ev).2 c')
    (hunclean : ∀ pr s c ev, Inv pr s c → pr.stage.allows ev.kind = true → ¬ clean pr ev.kind →
      follow pr.stage c ev.kind ((encoder.step s ev).1.map frame) = none)
    (evs : List AgentEvent) {pr : Progress} {s : σ} {c : StreamClient Block ν} (h : Inv pr s c)
    (hshape : Shaped pr.stage evs) :
    accepts pr.stage c (output encoder frame s evs) = true ↔ Clean ends clean pr evs := by
  induction evs generalizing pr s c with
  | nil => simp [output, accepts, Clean]
  | cons ev evs ih =>
    obtain ⟨hallows, hrest⟩ := hshape
    simp only [output_cons, accepts, Clean]
    by_cases hc : clean pr ev.kind
    · obtain ⟨c', hfollow, hInv⟩ := hclean pr s c ev h hallows hc
      have hih := ih hInv (by rw [Progress.next_stage]; exact hrest)
      rw [Progress.next_stage] at hih
      simp [hfollow, hih, hc]
    · simp [hunclean pr s c ev h hallows hc, hc]

end Client

/-- The step frames of a run as its stage has them: in a step the step is open, before and after
    it none is. -/
def StepsAt {ν : Type*} (st : Stage) (step : ν) (steps : Pairing ν) : Prop :=
  match st with
  | .started => steps = .matched
  | .stepped => steps = .matched
  | .inStep => steps = .within step
  | _ => True

/-- The blocks that are open by the progress, under the ids the encoder writes. -/
def OpenBlocks (pr : Progress) (textId reasoningId : String) (blocks : Finset Block) : Prop :=
  ∀ b, b ∈ blocks ↔
    (pr.text = true ∧ b = (.text, textId)) ∨ (pr.reasoning = true ∧ b = (.reasoning, reasoningId))

namespace OpenBlocks

variable {pr : Progress} {t r : String} {blocks : Finset Block}

theorem text_iff (h : OpenBlocks pr t r blocks) : pr.text = true ↔ (.text, t) ∈ blocks := by
  simp [h (.text, t)]

theorem reasoning_iff (h : OpenBlocks pr t r blocks) :
    pr.reasoning = true ↔ (.reasoning, r) ∈ blocks := by
  simp [h (.reasoning, r)]

/-- Text opens the text block. -/
theorem insert_text (h : OpenBlocks pr t r blocks) :
    OpenBlocks { pr with text := true } t r (insert (.text, t) blocks) := by
  intro b
  simp only [Finset.mem_insert, h b]
  tauto

/-- Reasoning opens the reasoning block. -/
theorem insert_reasoning (h : OpenBlocks pr t r blocks) :
    OpenBlocks { pr with reasoning := true } t r (insert (.reasoning, r) blocks) := by
  intro b
  simp only [Finset.mem_insert, h b]
  tauto

/-- Without the text block only the reasoning block can be open, and no text id matters. -/
theorem erase_text (h : OpenBlocks pr t r blocks) (t' : String) :
    OpenBlocks { pr with text := false } t' r (blocks.erase (.text, t)) := by
  intro b
  simp only [Finset.mem_erase, h b]
  constructor
  · rintro ⟨hne, ⟨-, hb⟩ | hb⟩
    · exact absurd hb hne
    · exact .inr hb
  · rintro (⟨hf, -⟩ | ⟨hr, rfl⟩)
    · cases hf
    · exact ⟨by simp, .inr ⟨hr, rfl⟩⟩

/-- Without the reasoning block only the text block can be open, and no reasoning id matters. -/
theorem erase_reasoning (h : OpenBlocks pr t r blocks) (r' : String) :
    OpenBlocks { pr with reasoning := false } t r' (blocks.erase (.reasoning, r)) := by
  intro b
  simp only [Finset.mem_erase, h b]
  constructor
  · rintro ⟨hne, hb | ⟨-, hb⟩⟩
    · exact .inl hb
    · exact absurd hb hne
  · rintro (⟨ht, rfl⟩ | ⟨hf, -⟩)
    · exact ⟨by simp, .inl ⟨ht, rfl⟩⟩
    · cases hf

/-- When nothing is open, no block is. -/
theorem eq_empty (h : OpenBlocks pr t r blocks) (hclosed : pr.Closed) : blocks = ∅ := by
  ext b
  simp [h b, hclosed.1, hclosed.2]

/-- A client follows when the open blocks are closed, and none is open then. -/
theorem receiveAll_close {ν : Type*} [DecidableEq ν] {c : StreamClient Block ν}
    (h : OpenBlocks pr t r c.blocks) (hrun : c.running = true) :
    c.receiveAll ((if pr.text then [.closed (.text, t)] else []) ++
      (if pr.reasoning then [.closed (.reasoning, r)] else [])) = some { c with blocks := ∅ } := by
  have h' := h.erase_text t
  have hreasoning := StreamClient.receiveAll_closed
    (c := { c with blocks := c.blocks.erase (.text, t) }) h'.reasoning_iff hrun
  have hempty := (h'.erase_reasoning r).eq_empty ⟨rfl, rfl⟩
  rw [StreamClient.receiveAll_append, StreamClient.receiveAll_closed h.text_iff hrun]
  simpa only [Option.bind_some, hempty] using hreasoning

/-- Without open blocks the ids do not matter. -/
theorem of_closed (hclosed : pr.Closed) : OpenBlocks pr t r ∅ := by
  intro b
  simp [hclosed.1, hclosed.2]

end OpenBlocks

end Protocol

end Remo
