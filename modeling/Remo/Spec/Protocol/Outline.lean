import Remo.Spec.Protocol.LoopOutput

/-!
# Encoders in outline

What a protocol encoder writes about blocks and steps, without the payload of its frames. `Writes`
is the encoder in outline, of which both encoders are instances; a strict client is followed over
the outline once for both.

Two differences between the encoders are parameters: whether the start of a tool call ends the
reasoning (`ends`), and whether a suspended run writes the end of a step before its last frame
(`extra`).

## Key results

- `Tracks.clean_step`, `Tracks.unclean_step`: a client accepts what is written for an event exactly
  if the event is clean.
- `accepts_outline`: the output of an encoder that writes by the outline is accepted exactly if
  all its events are clean.
-/

namespace Remo

namespace Protocol

variable {ν : Type*}

/-- What matters of an encoder: its guard, its open blocks, and the ids it would write. -/
structure View (ν : Type*) where
  finished : Bool
  textOpen : Bool
  textId : String
  reasoningOpen : Bool
  reasoningId : String
  step : ν

namespace View

/-- The frames that close the text block, if it is open. -/
def closeText (v : View ν) : List (Frame Block ν) :=
  if v.textOpen then [.closed (.text, v.textId)] else []

/-- The frames that close the reasoning block, if it is open. -/
def closeReasoning (v : View ν) : List (Frame Block ν) :=
  if v.reasoningOpen then [.closed (.reasoning, v.reasoningId)] else []

/-- The frames that close all open blocks. -/
def closeBlocks (v : View ν) : List (Frame Block ν) := v.closeText ++ v.closeReasoning

end View

/-- What an encoder writes for an event of a kind, and what it is then. The ids of blocks that are
    closed may change. -/
inductive Writes (ends extra : Bool) :
    View ν → EventKind → List (Frame Block ν) → View ν → Prop
  | ignored {v : View ν} {k : EventKind} (hfinished : v.finished = true) (hk : k ≠ .runStart) :
      Writes ends extra v k [] v
  | runStart {v : View ν} {others : List (Frame Block ν)} (hothers : ∀ f ∈ others, f = .other)
      (t r : String) (s : ν) :
      Writes ends extra v .runStart (.start :: others)
        { v with finished := false, textId := t, reasoningId := r, step := s }
  | text {v : View ν} (hrun : v.finished = false) :
      Writes ends extra v .text
        ((if v.textOpen then [] else [.opened (.text, v.textId)]) ++ [.content (.text, v.textId)])
        { v with textOpen := true }
  | reasoning {v : View ν} (hrun : v.finished = false) :
      Writes ends extra v .reasoning
        ((if v.reasoningOpen then [] else [.opened (.reasoning, v.reasoningId)]) ++
          [.content (.reasoning, v.reasoningId)])
        { v with reasoningOpen := true }
  | toolCallStart {v : View ν} (hrun : v.finished = false) (t : String) :
      Writes ends extra v .toolCallStart
        (v.closeText ++ (if ends then v.closeReasoning else []) ++ [.other])
        { v with textOpen := false, textId := t, reasoningOpen := v.reasoningOpen && !ends }
  | stepStart {v : View ν} (hrun : v.finished = false) (t r : String) (s : ν) :
      Writes ends extra v .stepStart [.stepStart s]
        { v with textId := t, reasoningId := r, step := s }
  | stepEnd {v : View ν} (hrun : v.finished = false) (t : String) :
      Writes ends extra v .stepEnd (v.closeBlocks ++ [.stepFinish v.step])
        { v with textOpen := false, textId := t, reasoningOpen := false }
  | runFinish {v : View ν} (hrun : v.finished = false) (suspended : Bool) (t : String) :
      Writes ends extra v (.runFinish suspended)
        (v.closeBlocks ++
          ((if extra && suspended then [.stepFinish v.step] else []) ++ [.terminal]))
        { v with finished := true, textOpen := false, textId := t, reasoningOpen := false }
  | error {v : View ν} (hrun : v.finished = false) :
      Writes ends extra v .error [.terminal] { v with finished := true }
  | neutral {v : View ν} (hrun : v.finished = false) {others : List (Frame Block ν)}
      (hothers : ∀ f ∈ others, f = .other) :
      Writes ends extra v .neutral others v

/-- An event is clean: an error comes while no block is open, and a suspension that writes the end
    of a step does not come after the end of the step was written. -/
def CleanEvent (extra : Bool) (pr : Progress) (k : EventKind) : Prop :=
  (k = .error → pr.Closed) ∧ (extra = true → k = .runFinish true → pr.stage ≠ .stepped)

instance (extra : Bool) (pr : Progress) (k : EventKind) : Decidable (CleanEvent extra pr k) :=
  inferInstanceAs (Decidable ((_ → _) ∧ (_ → _ → _)))

/-- The encoder and a client of its stream are where the events so far have brought them. -/
structure Tracks (pr : Progress) (v : View ν) (c : StreamClient Block ν) : Prop where
  finished : v.finished = decide (pr.stage = .finished)
  running : c.running = pr.stage.running
  textOpen : v.textOpen = pr.text
  reasoningOpen : v.reasoningOpen = pr.reasoning
  blocks : pr.stage.running = true → OpenBlocks pr v.textId v.reasoningId c.blocks
  closed : pr.stage ≠ .inStep → pr.Closed
  steps : StepsAt pr.stage v.step c.steps

namespace Tracks

variable {pr : Progress} {v v' : View ν} {c : StreamClient Block ν}
variable {k : EventKind} {frames : List (Frame Block ν)} {ends extra : Bool}

/-- A run is under way when the encoder is not finished and the event does not start one. -/
theorem stage_running (h : Tracks pr v c) (hrun : v.finished = false)
    (hallows : pr.stage.allows k = true) (hk : k ≠ .runStart) : pr.stage.running = true := by
  have hfin := h.finished
  cases hst : pr.stage with
  | idle => simp [hst, Stage.allows, hk] at hallows
  | finished => simp [hst, hrun] at hfin
  | started => rfl
  | inStep => rfl
  | stepped => rfl

/-- Text and reasoning come in steps. -/
theorem stage_inStep (h : Tracks pr v c) (hrun : v.finished = false)
    (hallows : pr.stage.allows k = true) (hk : k = .text ∨ k = .reasoning) :
    pr.stage = .inStep := by
  have hfin := h.finished
  cases hst : pr.stage with
  | idle => obtain rfl | rfl := hk <;> simp [hst, Stage.allows] at hallows
  | finished => simp [hst, hrun] at hfin
  | started => obtain rfl | rfl := hk <;> simp [hst, Stage.allows] at hallows
  | inStep => rfl
  | stepped => obtain rfl | rfl := hk <;> simp [hst, Stage.allows] at hallows

/-- A step ends where one started. -/
theorem stage_of_stepEnd (h : Tracks pr v c) (hrun : v.finished = false)
    (hallows : pr.stage.allows .stepEnd = true) : pr.stage = .inStep := by
  have hfin := h.finished
  cases hst : pr.stage with
  | finished => simp [hst, hrun] at hfin
  | inStep => rfl
  | _ => simp [hst, Stage.allows] at hallows

/-- A step starts where none is open. -/
theorem stage_of_stepStart (h : Tracks pr v c) (hrun : v.finished = false)
    (hallows : pr.stage.allows .stepStart = true) :
    pr.stage = .started ∨ pr.stage = .stepped := by
  have hfin := h.finished
  cases hst : pr.stage with
  | finished => simp [hst, hrun] at hfin
  | started => exact .inl rfl
  | stepped => exact .inr rfl
  | _ => simp [hst, Stage.allows] at hallows

/-- A run that ended is over for the client and for the encoder. -/
theorem ended (hrun : pr.stage.running = true)
    (hk : k = .error ∨ ∃ suspended, k = .runFinish suspended) {v' : View ν}
    {c' : StreamClient Block ν} (hfinished : v'.finished = true) (htext : v'.textOpen = false)
    (hreasoning : v'.reasoningOpen = false) (hc' : c'.running = false) :
    Tracks (pr.next ends k) v' c' := by
  have hstage : (pr.next ends k).stage = .finished := by
    rw [Progress.next_stage]
    obtain rfl | ⟨suspended, rfl⟩ := hk <;> simp [Stage.next, hrun]
  have hclosed : (pr.next ends k).Closed := by
    obtain rfl | ⟨suspended, rfl⟩ := hk <;> exact ⟨rfl, rfl⟩
  exact
    { finished := by rw [hfinished, hstage]; rfl
      running := by rw [hc', hstage]; rfl
      textOpen := htext.trans hclosed.1.symm
      reasoningOpen := hreasoning.trans hclosed.2.symm
      blocks := fun hrun' => by rw [hstage] at hrun'; cases hrun'
      closed := fun _ => hclosed
      steps := by rw [hstage]; trivial }

variable [DecidableEq ν]

/-- A client follows when all open blocks are closed. -/
theorem receiveAll_closeBlocks (h : Tracks pr v c) (hrun : pr.stage.running = true) :
    c.receiveAll v.closeBlocks = some { c with blocks := ∅ } := by
  unfold View.closeBlocks View.closeText View.closeReasoning
  rw [h.textOpen, h.reasoningOpen]
  exact (h.blocks hrun).receiveAll_close (h.running.trans hrun)

theorem text_step (h : Tracks pr v c) (hst : pr.stage = .inStep) :
    ∃ c', follow pr.stage c .text
        ((if v.textOpen then [] else [.opened (.text, v.textId)]) ++
          [.content (.text, v.textId)]) = some c' ∧
      Tracks (pr.next ends .text) { v with textOpen := true } c' := by
  have hrun : pr.stage.running = true := by rw [hst]; rfl
  have hblocks := h.blocks hrun
  refine ⟨{ c with blocks := insert (.text, v.textId) c.blocks }, ?_, ?_⟩
  · rw [h.textOpen]
    exact follow_eq_some
      (StreamClient.receiveAll_content hblocks.text_iff (h.running.trans hrun)) trivial
  · exact
      { finished := h.finished
        running := h.running
        textOpen := by simp [Progress.next, hrun]
        reasoningOpen := h.reasoningOpen
        blocks := fun _ => by simpa [Progress.next, hrun] using hblocks.insert_text
        closed := fun hne => absurd hst hne
        steps := h.steps }

theorem reasoning_step (h : Tracks pr v c) (hst : pr.stage = .inStep) :
    ∃ c', follow pr.stage c .reasoning
        ((if v.reasoningOpen then [] else [.opened (.reasoning, v.reasoningId)]) ++
          [.content (.reasoning, v.reasoningId)]) = some c' ∧
      Tracks (pr.next ends .reasoning) { v with reasoningOpen := true } c' := by
  have hrun : pr.stage.running = true := by rw [hst]; rfl
  have hblocks := h.blocks hrun
  refine ⟨{ c with blocks := insert (.reasoning, v.reasoningId) c.blocks }, ?_, ?_⟩
  · rw [h.reasoningOpen]
    exact follow_eq_some
      (StreamClient.receiveAll_content hblocks.reasoning_iff (h.running.trans hrun)) trivial
  · exact
      { finished := h.finished
        running := h.running
        textOpen := h.textOpen
        reasoningOpen := by simp [Progress.next, hrun]
        blocks := fun _ => by simpa [Progress.next, hrun] using hblocks.insert_reasoning
        closed := fun hne => absurd hst hne
        steps := h.steps }

theorem toolCallStart_step (h : Tracks pr v c) (hrun : pr.stage.running = true) (t : String) :
    ∃ c', follow pr.stage c .toolCallStart
        (v.closeText ++ (if ends then v.closeReasoning else []) ++ [.other]) = some c' ∧
      Tracks (pr.next ends .toolCallStart)
        { v with textOpen := false, textId := t, reasoningOpen := v.reasoningOpen && !ends } c' := by
  have hblocks := h.blocks hrun
  have htext := StreamClient.receiveAll_closed hblocks.text_iff (h.running.trans hrun)
  have herase := hblocks.erase_text t
  have hclosed : pr.stage ≠ .inStep → (pr.next ends .toolCallStart).Closed := fun hne => by
    simp [Progress.next, Progress.Closed, (h.closed hne).2]
  cases ends with
  | false =>
    refine ⟨{ c with blocks := c.blocks.erase (.text, v.textId) }, ?_, ?_⟩
    · refine follow_eq_some ?_ trivial
      rw [View.closeText, h.textOpen]
      simp [StreamClient.receiveAll_append, htext, StreamClient.receive, h.running.trans hrun]
    · exact
        { finished := h.finished
          running := h.running
          textOpen := rfl
          reasoningOpen := by simp [Progress.next, h.reasoningOpen]
          blocks := fun _ => by simpa [Progress.next] using herase
          closed := hclosed
          steps := h.steps }
  | true =>
    refine ⟨{ c with blocks := ∅ }, ?_, ?_⟩
    · refine follow_eq_some ?_ trivial
      show c.receiveAll (v.closeBlocks ++ [.other]) = _
      rw [StreamClient.receiveAll_append, h.receiveAll_closeBlocks hrun]
      simp [StreamClient.receive, h.running.trans hrun]
    · exact
        { finished := h.finished
          running := h.running
          textOpen := rfl
          reasoningOpen := by simp [Progress.next]
          blocks := fun _ => OpenBlocks.of_closed ⟨rfl, by simp [Progress.next]⟩
          closed := hclosed
          steps := h.steps }

theorem stepStart_step (h : Tracks pr v c) (hst : pr.stage = .started ∨ pr.stage = .stepped)
    (t r : String) (s : ν) :
    ∃ c', follow pr.stage c .stepStart [.stepStart s] = some c' ∧
      Tracks (pr.next ends .stepStart) { v with textId := t, reasoningId := r, step := s } c' := by
  have hrun : pr.stage.running = true := by cases hst with | _ hst => rw [hst]; rfl
  have hclosed : pr.Closed := h.closed (by cases hst with | _ hst => rw [hst]; simp)
  have hmatched : c.steps = .matched := by
    have hsteps := h.steps
    cases hst with | _ hst => rw [hst] at hsteps; exact hsteps
  have hnext : pr.stage.next .stepStart = .inStep := by simp [Stage.next, hrun]
  refine ⟨{ c with steps := .within s }, follow_eq_some ?_ trivial, ?_⟩
  · simp [StreamClient.receive, h.running.trans hrun, hmatched, Pairing.start]
  · exact
      { finished := by
          show v.finished = decide (pr.stage.next .stepStart = .finished)
          rw [hnext, h.finished]
          cases hst with | _ hst => rw [hst]; rfl
        running := by
          show c.running = (pr.stage.next .stepStart).running
          rw [hnext, h.running, hrun]
          rfl
        textOpen := h.textOpen
        reasoningOpen := h.reasoningOpen
        blocks := fun _ => by
          have hempty := (h.blocks hrun).eq_empty hclosed
          show OpenBlocks _ t r c.blocks
          rw [hempty]
          exact OpenBlocks.of_closed hclosed
        closed := fun _ => hclosed
        steps := by
          show StepsAt (pr.stage.next .stepStart) s _
          rw [hnext]
          rfl }

theorem stepEnd_step (h : Tracks pr v c) (hst : pr.stage = .inStep) (t : String) :
    ∃ c', follow pr.stage c .stepEnd (v.closeBlocks ++ [.stepFinish v.step]) = some c' ∧
      Tracks (pr.next ends .stepEnd)
        { v with textOpen := false, textId := t, reasoningOpen := false } c' := by
  have hrun : pr.stage.running = true := by rw [hst]; rfl
  have hwithin : c.steps = .within v.step := by
    have hsteps := h.steps
    rw [hst] at hsteps
    exact hsteps
  have hnext : pr.stage.next .stepEnd = .stepped := by simp [Stage.next, hrun]
  refine ⟨{ c with blocks := ∅, steps := .matched }, follow_eq_some ?_ trivial, ?_⟩
  · rw [StreamClient.receiveAll_append, h.receiveAll_closeBlocks hrun]
    simp [StreamClient.receive, h.running.trans hrun, hwithin, Pairing.finish]
  · exact
      { finished := by
          show v.finished = decide (pr.stage.next .stepEnd = .finished)
          rw [hnext, h.finished, hst]
          rfl
        running := by
          show c.running = (pr.stage.next .stepEnd).running
          rw [hnext, h.running, hrun]
          rfl
        textOpen := rfl
        reasoningOpen := rfl
        blocks := fun _ => OpenBlocks.of_closed ⟨rfl, rfl⟩
        closed := fun _ => ⟨rfl, rfl⟩
        steps := by
          show StepsAt (pr.stage.next .stepEnd) _ _
          rw [hnext]
          rfl }

/-- What the client has taken when a run finishes. -/
theorem receiveAll_runFinish (h : Tracks pr v c) (hrun : pr.stage.running = true)
    (extra suspended : Bool) :
    c.receiveAll (v.closeBlocks ++
        ((if extra && suspended then [.stepFinish v.step] else []) ++ [.terminal])) =
      some ⟨false, ∅, if extra && suspended then c.steps.finish v.step else c.steps⟩ := by
  rw [StreamClient.receiveAll_append, h.receiveAll_closeBlocks hrun]
  cases extra && suspended <;> simp [StreamClient.receive, h.running.trans hrun]

theorem runFinish_step (h : Tracks pr v c) (hrun : pr.stage.running = true) (suspended : Bool)
    (t : String) (hclean : extra = true → suspended = true → pr.stage ≠ .stepped) :
    ∃ c', follow pr.stage c (.runFinish suspended) (v.closeBlocks ++
        ((if extra && suspended then [.stepFinish v.step] else []) ++ [.terminal])) = some c' ∧
      Tracks (pr.next ends (.runFinish suspended))
        { v with finished := true, textOpen := false, textId := t, reasoningOpen := false } c' := by
  have htake := h.receiveAll_runFinish hrun extra suspended
  refine ⟨_, follow_eq_some htake ⟨fun _ => rfl, fun hst => ?_⟩,
    ended hrun (.inr ⟨suspended, rfl⟩) rfl rfl rfl rfl⟩
  have hmatched : c.steps = .matched := by
    have hsteps := h.steps
    rw [hst] at hsteps
    exact hsteps
  have hextra : (extra && suspended) = false := by
    cases hx : extra <;> cases hs : suspended <;> first | rfl | exact absurd hst (hclean hx hs)
  simp [hextra, hmatched]

theorem error_step (h : Tracks pr v c) (hrun : pr.stage.running = true) (hclosed : pr.Closed) :
    ∃ c', follow pr.stage c .error [.terminal] = some c' ∧
      Tracks (pr.next ends .error) { v with finished := true } c' := by
  have hempty := (h.blocks hrun).eq_empty hclosed
  refine ⟨{ c with running := false }, follow_eq_some ?_ fun _ => rfl, ?_⟩
  · simp [StreamClient.receive, h.running.trans hrun, hempty]
  · exact ended hrun (.inl rfl) rfl (h.textOpen.trans hclosed.1) (h.reasoningOpen.trans hclosed.2) rfl

theorem runStart_step (h : Tracks pr v c) (hallows : pr.stage.allows .runStart = true)
    {others : List (Frame Block ν)} (hothers : ∀ f ∈ others, f = .other) (t r : String) (s : ν) :
    ∃ c', follow pr.stage c .runStart (.start :: others) = some c' ∧
      Tracks (pr.next ends .runStart)
        { v with finished := false, textId := t, reasoningId := r, step := s } c' := by
  have hidle : pr.stage.running = false ∧ pr.stage ≠ .inStep := by
    cases hst : pr.stage <;> simp_all [Stage.allows, Stage.running]
  have hclosed := h.closed hidle.2
  refine ⟨⟨true, ∅, .matched⟩, follow_eq_some ?_ trivial, ?_⟩
  · have hothers' := StreamClient.receiveAll_other
      (c := (⟨true, ∅, .matched⟩ : StreamClient Block ν)) rfl hothers
    simp [StreamClient.receive, h.running.trans hidle.1, hothers']
  · exact
      { finished := rfl
        running := rfl
        textOpen := h.textOpen.trans hclosed.1
        reasoningOpen := h.reasoningOpen.trans hclosed.2
        blocks := fun _ => OpenBlocks.of_closed ⟨rfl, rfl⟩
        closed := fun _ => ⟨rfl, rfl⟩
        steps := rfl }

/-- After a run nothing moves until the next one starts. -/
theorem ignored_step (h : Tracks pr v c) (hfinished : v.finished = true) (hk : k ≠ .runStart) :
    ∃ c', follow pr.stage c k [] = some c' ∧ Tracks (pr.next ends k) v c' := by
  have hst : pr.stage = .finished := by simpa [hfinished] using h.finished
  have hclosed := h.closed (by rw [hst]; simp)
  have hnext : pr.next ends k = pr := by
    obtain ⟨stage, text, reasoning⟩ := pr
    obtain ⟨rfl, rfl⟩ := hclosed
    obtain rfl := hst
    cases k <;> first | rfl | exact absurd rfl hk
  have hsettled : Settled pr.stage k c := by
    rw [hst]
    cases k <;> simp [Settled, Stage.running]
  rw [hnext]
  exact ⟨c, follow_eq_some rfl hsettled, h⟩

/-- A client accepts what is written for a clean event. -/
theorem clean_step (h : Tracks pr v c) (hw : Writes ends extra v k frames v')
    (hallows : pr.stage.allows k = true) (hclean : CleanEvent extra pr k) :
    ∃ c', follow pr.stage c k frames = some c' ∧ Tracks (pr.next ends k) v' c' := by
  cases hw with
  | ignored hfinished hk => exact h.ignored_step hfinished hk
  | runStart hothers t r s => exact h.runStart_step hallows hothers t r s
  | text hrun => exact h.text_step (h.stage_inStep hrun hallows (.inl rfl))
  | reasoning hrun => exact h.reasoning_step (h.stage_inStep hrun hallows (.inr rfl))
  | toolCallStart hrun t => exact h.toolCallStart_step (h.stage_running hrun hallows (by simp)) t
  | stepStart hrun t r s => exact h.stepStart_step (h.stage_of_stepStart hrun hallows) t r s
  | stepEnd hrun t => exact h.stepEnd_step (h.stage_of_stepEnd hrun hallows) t
  | runFinish hrun suspended t =>
    apply h.runFinish_step (h.stage_running hrun hallows (by simp))
    intro hextra hsuspended
    exact hclean.2 hextra (by rw [hsuspended])
  | error hrun => exact h.error_step (h.stage_running hrun hallows (by simp)) (hclean.1 rfl)
  | neutral hrun hothers =>
    have hr := h.stage_running hrun hallows (by simp)
    exact ⟨c, follow_eq_some (StreamClient.receiveAll_other (h.running.trans hr) hothers) trivial, h⟩

/-- A client rejects what is written for an event that is not clean. -/
theorem unclean_step (h : Tracks pr v c) (hw : Writes ends extra v k frames v')
    (hallows : pr.stage.allows k = true) (hclean : ¬ CleanEvent extra pr k) :
    follow pr.stage c k frames = none := by
  have hkind : k = .error ∨ k = .runFinish true := by
    unfold CleanEvent at hclean
    tauto
  cases hw with
  | ignored hfinished hk =>
    -- after a run everything is clean
    have hst : pr.stage = .finished := by simpa [hfinished] using h.finished
    refine absurd ⟨fun _ => h.closed (by rw [hst]; simp), fun _ _ => by rw [hst]; simp⟩ hclean
  | runFinish hrun suspended t =>
    have hr := h.stage_running hrun hallows (by simp)
    have hbad : extra = true ∧ suspended = true ∧ pr.stage = .stepped := by
      simpa [CleanEvent] using hclean
    obtain ⟨hextra, hsuspended, hst⟩ := hbad
    have hmatched : c.steps = .matched := by
      have hsteps := h.steps
      rw [hst] at hsteps
      exact hsteps
    apply follow_eq_none
    intro c' htake hsettled
    rw [h.receiveAll_runFinish hr] at htake
    cases htake
    have hsteps := hsettled.2 hst
    simp [hextra, hsuspended, hmatched, Pairing.finish] at hsteps
  | error hrun =>
    have hr := h.stage_running hrun hallows (by simp)
    have hblocks := h.blocks hr
    have hopen : ¬ pr.Closed := fun hclosed => hclean ⟨fun _ => hclosed, by simp⟩
    have hreject : c.receive .terminal = none := by
      cases ht : pr.text with
      | true => exact StreamClient.receive_terminal_of_mem (hblocks.text_iff.mp ht)
      | false =>
        cases hre : pr.reasoning with
        | true => exact StreamClient.receive_terminal_of_mem (hblocks.reasoning_iff.mp hre)
        | false => exact absurd ⟨ht, hre⟩ hopen
    simp [follow, hreject]
  | _ => simp at hkind

end Tracks

/-- An encoder whose outline is where the events so far have brought it, with a client. -/
def Reached {σ : Type*} (Shows : σ → View ν → Prop) (pr : Progress) (s : σ)
    (c : StreamClient Block ν) : Prop :=
  ∃ v, Shows s v ∧ Tracks pr v c

/-- The output of an encoder that writes by the outline is accepted exactly if all its events are
    clean. `Shows` relates the encoder to its outline; the ids of an open reasoning block need not
    be shown over the start of a run or a step. -/
theorem accepts_outline {σ ο : Type*} [DecidableEq ν] {encoder : Machine σ AgentEvent (List ο)}
    {frame : ο → Frame Block ν} {ends extra : Bool} {Shows : σ → View ν → Prop}
    (hwrites : ∀ s v ev, Shows s v →
      (ev.kind = .runStart ∨ ev.kind = .stepStart → v.reasoningOpen = false) →
      ∃ v', Writes ends extra v ev.kind ((encoder.step s ev).1.map frame) v' ∧
        Shows (encoder.step s ev).2 v')
    {s : σ} {v : View ν} (h : Shows s v) (hfinished : v.finished = false)
    (htext : v.textOpen = false) (hreasoning : v.reasoningOpen = false) {evs : List AgentEvent}
    (hshape : Shaped .idle evs) :
    accepts .idle .idle (output encoder frame s evs) = true ↔
      Clean ends (CleanEvent extra) .idle evs := by
  have hreasoningClosed : ∀ pr (v : View ν) c k, Tracks pr v c → pr.stage.allows k = true →
      k = .runStart ∨ k = .stepStart → v.reasoningOpen = false := by
    intro pr v c k ht hallows hk
    have hst : pr.stage ≠ .inStep := by
      intro hst
      obtain rfl | rfl := hk <;> simp [hst, Stage.allows] at hallows
    exact ht.reasoningOpen.trans (ht.closed hst).2
  have hstart : Reached Shows .idle s .idle := ⟨v, h,
    { finished := hfinished
      running := rfl
      textOpen := htext
      reasoningOpen := hreasoning
      blocks := fun hrun => by cases hrun
      closed := fun _ => ⟨rfl, rfl⟩
      steps := trivial }⟩
  refine accepts_iff ?_ ?_ evs hstart hshape
  · intro pr s c ev hreached hallows hclean
    obtain ⟨v, hv, ht⟩ := hreached
    obtain ⟨v', hw, hv'⟩ := hwrites s v ev hv (hreasoningClosed pr v c _ ht hallows)
    obtain ⟨c', hfollow, ht'⟩ := ht.clean_step hw hallows hclean
    exact ⟨c', hfollow, v', hv', ht'⟩
  · intro pr s c ev hreached hallows hclean
    obtain ⟨v, hv, ht⟩ := hreached
    obtain ⟨v', hw, -⟩ := hwrites s v ev hv (hreasoningClosed pr v c _ ht hallows)
    exact ht.unclean_step hw hallows hclean

end Protocol

end Remo
