import Remo.Spec.Event.LifecycleFacts

/-!
# Staged events are committed once

However emits and commit attempts are interleaved, the drafts that were staged are the committed
ones, the pending ones and the buffered ones, each once and in the order of staging. What is
staged behind the drain of the last commit stays in the buffer.

Key results:
* `DispatchState.Kept` no attempt loses or duplicates a draft
* `staged_iff` when every draft of a run is committed
-/

namespace Remo

open AgentLoop ScopedAgentEventNormalizer

/-! ## Dispatches -/

/-- What a dispatch does: an event is emitted, or a commit is attempted while the events
    `during` are emitted beside it. -/
inductive DispatchStep where
  | emit (event : AgentEvent)
  | attempt (during : List AgentEvent) (succeeded : Bool)
deriving Repr, DecidableEq

/-- The staging of a dispatch with the drafts of the commits that succeeded. -/
structure DispatchState where
  staging : DispatchStaging
  commits : List (List StagedCanonicalEvent)

section Steps

variable (toValue : AgentEvent → Json)

namespace DispatchState

def step (self : DispatchState) : DispatchStep → DispatchState
  | .emit event => { self with staging := self.staging.emit toValue event }
  | .attempt during succeeded =>
    let (drafts, staging) := self.staging.beginCommit
    let staging := (during.foldl (DispatchStaging.emit toValue) staging).endCommit succeeded
    { staging := staging, commits := if succeeded then self.commits ++ [drafts] else self.commits }

def run (self : DispatchState) (steps : List DispatchStep) : DispatchState :=
  steps.foldl (step toValue) self

end DispatchState

/-- The events emitted in a dispatch. -/
def DispatchStep.events : DispatchStep → List AgentEvent
  | emit event => [event]
  | attempt during _ => during

/-- The events emitted before the last drain, and those emitted behind it. -/
def splitAtDrain (split : List AgentEvent × List AgentEvent) : List DispatchStep →
    List AgentEvent × List AgentEvent
  | [] => split
  | .emit event :: steps => splitAtDrain (split.1, split.2 ++ [event]) steps
  | .attempt during _ :: steps => splitAtDrain (split.1 ++ split.2, during) steps

/-- The normalizer behind some events. -/
def normalizerAfter (self : ScopedAgentEventNormalizer) (events : List AgentEvent) :
    ScopedAgentEventNormalizer :=
  events.foldl (fun normalizer event => (normalizeMany toValue event normalizer).2) self

/-- The drafts of an event that are staged. -/
def draftsOf (mode : RuntimeEventDurability)
    (result : Except EventStoreError (List NormalizedCanonicalEvent)) :
    List StagedCanonicalEvent :=
  match result with
  | .ok facts =>
    (facts.filter fun fact => mode.shouldPersist fact.fidelity).map fun fact => .new fact.draft
  | .error _ => []

/-- The drafts that some events stage, in the order of staging. -/
def stagedDrafts (mode : RuntimeEventDurability) (self : ScopedAgentEventNormalizer) :
    List AgentEvent → List StagedCanonicalEvent
  | [] => []
  | event :: events =>
    draftsOf mode (normalizeMany toValue event self).1 ++
      stagedDrafts mode (normalizeMany toValue event self).2 events

theorem stagedDrafts_append (mode : RuntimeEventDurability) (self : ScopedAgentEventNormalizer)
    (events events' : List AgentEvent) :
    stagedDrafts toValue mode self (events ++ events') =
      stagedDrafts toValue mode self events ++
        stagedDrafts toValue mode (normalizerAfter toValue self events) events' := by
  induction events generalizing self with
  | nil => rfl
  | cons event events ih =>
    simp only [List.cons_append, stagedDrafts, ih, List.append_assoc]
    rfl

theorem normalizerAfter_append (self : ScopedAgentEventNormalizer)
    (events events' : List AgentEvent) :
    normalizerAfter toValue self (events ++ events') =
      normalizerAfter toValue (normalizerAfter toValue self events) events' :=
  List.foldl_append

/-! ## Nothing is lost -/

theorem drafts_foldl_stage (facts : List NormalizedCanonicalEvent) (buffer : EventBuffer) :
    (facts.foldl (fun buffer fact => buffer.stage fact.draft) buffer).drafts =
      buffer.drafts ++ facts.map fun fact => .new fact.draft := by
  induction facts generalizing buffer with
  | nil => simp
  | cons fact facts ih =>
    rw [List.foldl_cons, ih]
    simp [EventBuffer.stage]

theorem emit_spec (self : DispatchStaging) (event : AgentEvent) :
    (self.emit toValue event).normalizer = (normalizeMany toValue event self.normalizer).2 ∧
      (self.emit toValue event).mode = self.mode ∧
      (self.emit toValue event).pending = self.pending ∧
      (self.emit toValue event).buffer.drafts = self.buffer.drafts ++
        draftsOf self.mode (normalizeMany toValue event self.normalizer).1 := by
  unfold DispatchStaging.emit
  cases hnormalize : normalizeMany toValue event self.normalizer with
  | mk result normalizer =>
    cases result with
    | error error => simp [draftsOf]
    | ok facts => simp [draftsOf, drafts_foldl_stage]

theorem emitAll_spec (self : DispatchStaging) (events : List AgentEvent) :
    let staging := events.foldl (DispatchStaging.emit toValue) self
    staging.normalizer = normalizerAfter toValue self.normalizer events ∧
      staging.mode = self.mode ∧ staging.pending = self.pending ∧
      staging.buffer.drafts = self.buffer.drafts ++
        stagedDrafts toValue self.mode self.normalizer events := by
  induction events generalizing self with
  | nil => simp [normalizerAfter, stagedDrafts]
  | cons event events ih =>
    obtain ⟨hnormalizer, hmode, hpending, hbuffer⟩ := emit_spec toValue self event
    have hrest := ih (self.emit toValue event)
    rw [hnormalizer, hmode, hpending, hbuffer] at hrest
    obtain ⟨hnormalizer', hmode', hpending', hbuffer'⟩ := hrest
    refine ⟨hnormalizer', hmode', hpending', ?_⟩
    rw [List.foldl_cons, hbuffer', stagedDrafts, List.append_assoc]

/-- The committed, the pending and the buffered drafts are the staged ones, and the buffer holds
    those staged behind the last drain. -/
structure DispatchState.Kept (mode : RuntimeEventDurability)
    (normalizer : ScopedAgentEventNormalizer) (split : List AgentEvent × List AgentEvent)
    (state : DispatchState) : Prop where
  normalizer_eq : state.staging.normalizer =
    normalizerAfter toValue normalizer (split.1 ++ split.2)
  mode_eq : state.staging.mode = mode
  kept : state.commits.flatten ++ state.staging.pending ++ state.staging.buffer.drafts =
    stagedDrafts toValue mode normalizer (split.1 ++ split.2)
  buffered : state.staging.buffer.drafts =
    stagedDrafts toValue mode (normalizerAfter toValue normalizer split.1) split.2

theorem kept_new (mode : RuntimeEventDurability) (normalizer : ScopedAgentEventNormalizer) :
    DispatchState.Kept toValue mode normalizer ([], []) ⟨.new normalizer mode, []⟩ :=
  ⟨rfl, rfl, rfl, rfl⟩

variable {toValue} {mode : RuntimeEventDurability} {normalizer : ScopedAgentEventNormalizer}
  {split : List AgentEvent × List AgentEvent} {state : DispatchState}

theorem DispatchState.Kept.emit (h : state.Kept toValue mode normalizer split)
    (event : AgentEvent) :
    (state.step toValue (.emit event)).Kept toValue mode normalizer
      (split.1, split.2 ++ [event]) := by
  obtain ⟨hnormalizer, hmode, hpending, hbuffer⟩ := emit_spec toValue state.staging event
  rw [h.mode_eq, h.normalizer_eq] at hbuffer
  rw [h.normalizer_eq] at hnormalizer
  have hone : stagedDrafts toValue mode (normalizerAfter toValue normalizer
      (split.1 ++ split.2)) [event] = draftsOf mode (normalizeMany toValue event
        (normalizerAfter toValue normalizer (split.1 ++ split.2))).1 := by
    simp [stagedDrafts]
  constructor
  · rw [← List.append_assoc, normalizerAfter_append]
    exact hnormalizer
  · exact hmode.trans h.mode_eq
  · rw [← List.append_assoc, stagedDrafts_append, hone, ← h.kept,
      List.append_assoc _ _ (draftsOf _ _)]
    show state.commits.flatten ++ (state.staging.emit toValue event).pending ++
      (state.staging.emit toValue event).buffer.drafts = _
    rw [hpending, hbuffer]
  · rw [stagedDrafts_append, ← normalizerAfter_append, hone, ← h.buffered]
    exact hbuffer

/-- An attempt drains the buffer. What it submits is committed if it succeeds, and stays pending
    if it fails. -/
theorem DispatchState.Kept.attempt (h : state.Kept toValue mode normalizer split)
    (during : List AgentEvent) (succeeded : Bool) :
    (state.step toValue (.attempt during succeeded)).Kept toValue mode normalizer
      (split.1 ++ split.2, during) := by
  obtain ⟨hnormalizer, hmode, hpending, hbuffer⟩ :=
    emitAll_spec toValue state.staging.beginCommit.2 during
  have hdrained : state.staging.beginCommit.2.normalizer = state.staging.normalizer := rfl
  rw [hdrained, h.normalizer_eq] at hnormalizer hbuffer
  rw [show state.staging.beginCommit.2.mode = mode from h.mode_eq] at hbuffer hmode
  rw [show state.staging.beginCommit.2.buffer.drafts = [] from rfl, List.nil_append] at hbuffer
  have hkept := h.kept
  rw [List.append_assoc] at hkept
  cases succeeded with
  | true =>
    constructor
    · rw [normalizerAfter_append]
      exact hnormalizer
    · exact hmode
    · rw [stagedDrafts_append, ← hkept]
      show (state.commits ++ [state.staging.beginCommit.1]).flatten ++ [] ++
        (during.foldl (DispatchStaging.emit toValue) state.staging.beginCommit.2).buffer.drafts = _
      rw [hbuffer]
      simp [DispatchStaging.beginCommit, EventBuffer.drain]
    · exact hbuffer
  | false =>
    constructor
    · rw [normalizerAfter_append]
      exact hnormalizer
    · exact hmode
    · rw [stagedDrafts_append, ← hkept]
      show state.commits.flatten ++
        (during.foldl (DispatchStaging.emit toValue) state.staging.beginCommit.2).pending ++
        (during.foldl (DispatchStaging.emit toValue) state.staging.beginCommit.2).buffer.drafts = _
      rw [hbuffer, hpending]
      simp [DispatchStaging.beginCommit, EventBuffer.drain]
    · exact hbuffer

theorem kept_run (h : state.Kept toValue mode normalizer split) (steps : List DispatchStep) :
    (state.run toValue steps).Kept toValue mode normalizer (splitAtDrain split steps) := by
  induction steps generalizing state split with
  | nil => exact h
  | cons step steps ih =>
    cases step with
    | emit event => exact ih (h.emit event)
    | attempt during succeeded => exact ih (h.attempt during succeeded)

/-- The events on both sides of the last drain are all events. -/
theorem splitAtDrain_events (split : List AgentEvent × List AgentEvent)
    (steps : List DispatchStep) :
    (splitAtDrain split steps).1 ++ (splitAtDrain split steps).2 =
      split.1 ++ split.2 ++ steps.flatMap DispatchStep.events := by
  induction steps generalizing split with
  | nil => simp [splitAtDrain]
  | cons step steps ih =>
    cases step with
    | emit event => simp [splitAtDrain, ih, DispatchStep.events]
    | attempt during succeeded => simp [splitAtDrain, ih, DispatchStep.events]

end Steps

/-! ## The dispatch of a run -/

/-- The dispatch of a run of the loop: its events are emitted in order, its checkpoints are
    committed after any number of attempts that fail, and other events of its steps are emitted
    beside it at any point. -/
inductive LoopSteps : List LoopEntry → List DispatchStep → Prop
  | nil : LoopSteps [] []
  | beside {entries : List LoopEntry} {steps : List DispatchStep} (event : StepEvent) :
      LoopSteps entries steps → LoopSteps entries (.emit (.inStep event) :: steps)
  | emit {entries : List LoopEntry} {steps : List DispatchStep} (event : AgentEvent) :
      LoopSteps entries steps → LoopSteps (.emit event :: entries) (.emit event :: steps)
  | other {entry : LoopEntry} {entries : List LoopEntry} {steps : List DispatchStep} :
      entry.emitted? = none → entry.record? = none → LoopSteps entries steps →
      LoopSteps (entry :: entries) steps
  | failed {record : RunProjection} {entries : List LoopEntry} {steps : List DispatchStep}
      (during : List StepEvent) : LoopSteps (.checkpoint record :: entries) steps →
      LoopSteps (.checkpoint record :: entries) (.attempt (during.map .inStep) false :: steps)
  | committed {record : RunProjection} {entries : List LoopEntry} {steps : List DispatchStep}
      (during : List StepEvent) : LoopSteps entries steps →
      LoopSteps (.checkpoint record :: entries) (.attempt (during.map .inStep) true :: steps)

/-- The dispatch in which every commit succeeds at once, and no event is emitted beside. -/
def plainSteps : List LoopEntry → List DispatchStep
  | [] => []
  | .emit event :: entries => .emit event :: plainSteps entries
  | .checkpoint _ :: entries => .attempt [] true :: plainSteps entries
  | .committed _ :: entries => plainSteps entries
  | .tokens _ _ :: entries => plainSteps entries
  | .waited _ :: entries => plainSteps entries

theorem loopSteps_plainSteps (entries : List LoopEntry) :
    LoopSteps entries (plainSteps entries) := by
  induction entries with
  | nil => exact .nil
  | cons entry entries ih =>
    cases entry with
    | emit event => exact .emit event ih
    | checkpoint record => exact .committed [] ih
    | committed update => exact .other rfl rfl ih
    | tokens input output => exact .other rfl rfl ih
    | waited outcome => exact .other rfl rfl ih

section Loop

variable {toValue : AgentEvent → Json}

theorem pending_emit (state : DispatchState) (event : AgentEvent) :
    (state.step toValue (.emit event)).staging.pending = state.staging.pending :=
  (emit_spec toValue state.staging event).2.2.1

/-- At the end of a run that returns, no attempt is left over. -/
theorem pending_loopSteps {entries : List LoopEntry} {steps : List DispatchStep}
    (h : LoopSteps entries steps) (state : DispatchState)
    (hpending : state.staging.pending = [] ∨ ∃ entry ∈ entries.head?, entry.record?.isSome) :
    (state.run toValue steps).staging.pending = [] := by
  induction h generalizing state with
  | nil =>
    cases hpending with
    | inl hpending => exact hpending
    | inr hhead => simp at hhead
  | beside event _ ih =>
    apply ih (state.step toValue (.emit (.inStep event)))
    rwa [pending_emit]
  | emit event _ ih =>
    apply ih (state.step toValue (.emit event))
    rw [pending_emit]
    cases hpending with
    | inl hpending => exact .inl hpending
    | inr hhead => simp [LoopEntry.record?] at hhead
  | other _ hrecord _ ih =>
    apply ih state
    cases hpending with
    | inl hpending => exact .inl hpending
    | inr hhead => simp [hrecord] at hhead
  | failed during _ ih =>
    apply ih (state.step toValue (.attempt (during.map .inStep) false))
    exact .inr ⟨_, rfl, rfl⟩
  | committed during _ ih =>
    apply ih (state.step toValue (.attempt (during.map .inStep) true))
    exact .inl rfl

/-! ## Behind the last drain -/

theorem split_beside {steps : List DispatchStep} (h : LoopSteps [] steps)
    (split : List AgentEvent × List AgentEvent) :
    ∃ events : List StepEvent, splitAtDrain split steps =
      (split.1, split.2 ++ events.map .inStep) := by
  generalize hentries : ([] : List LoopEntry) = entries at h
  induction h generalizing split with
  | nil => exact ⟨[], by simp [splitAtDrain]⟩
  | beside event _ ih =>
    obtain ⟨events, hevents⟩ := ih (split.1, split.2 ++ [.inStep event]) hentries
    exact ⟨event :: events, by simp [splitAtDrain, hevents]⟩
  | emit => cases hentries
  | other => cases hentries
  | failed => cases hentries
  | committed => cases hentries

/-- Events are emitted in order, with others between them. -/
theorem split_emit {entries : List LoopEntry} {steps : List DispatchStep} {event : AgentEvent}
    (h : LoopSteps (.emit event :: entries) steps) (split : List AgentEvent × List AgentEvent) :
    ∃ (events : List StepEvent) (rest : List DispatchStep), LoopSteps entries rest ∧
      splitAtDrain split steps =
        splitAtDrain (split.1, split.2 ++ events.map .inStep ++ [event]) rest := by
  generalize hentries : LoopEntry.emit event :: entries = entries' at h
  induction h generalizing split with
  | nil => cases hentries
  | beside other _ ih =>
    obtain ⟨events, rest, hrest, hevents⟩ := ih (split.1, split.2 ++ [.inStep other]) hentries
    exact ⟨other :: events, rest, hrest, by simp [splitAtDrain, hevents]⟩
  | emit _ hrest _ =>
    cases hentries
    exact ⟨[], _, hrest, by simp [splitAtDrain]⟩
  | other hemitted _ _ _ => cases hentries; cases hemitted
  | failed => cases hentries
  | committed => cases hentries

/-- The run events among some events. -/
def runEventsOf (events : List AgentEvent) : List AgentEvent :=
  events.filter AgentEvent.isRunEvent

theorem runEventsOf_append (events events' : List AgentEvent) :
    runEventsOf (events ++ events') = runEventsOf events ++ runEventsOf events' :=
  List.filter_append events events'

theorem runEventsOf_inStep (events : List StepEvent) :
    runEventsOf (events.map .inStep) = [] := by
  simp [runEventsOf, AgentEvent.isRunEvent]

/-- At the end of a run, its last checkpoint is followed by a snapshot and a finish. The run
    events in front of it are all on the other side of the last drain. -/
theorem split_concluded {before : List LoopEntry} {steps : List DispatchStep}
    {record : RunProjection} {finish : AgentEvent}
    (h : LoopSteps (before ++ [.checkpoint record, .emit .stateSnapshot, .emit finish]) steps)
    (split : List AgentEvent × List AgentEvent) :
    ∃ (quiet : List AgentEvent) (rest : List StepEvent), runEventsOf quiet = [] ∧
      (splitAtDrain split steps).2 = quiet ++ finish :: rest.map .inStep ∧
      runEventsOf (splitAtDrain split steps).1 = runEventsOf (split.1 ++ split.2) ++
        runEventsOf (before.filterMap LoopEntry.emitted?) := by
  generalize hentries : before ++ [.checkpoint record, .emit .stateSnapshot, .emit finish] =
    entries at h
  induction h generalizing before split with
  | nil => simp at hentries
  | beside event _ ih =>
    obtain ⟨quiet, rest, hquiet, hbehind, hbefore⟩ :=
      ih (split.1, split.2 ++ [.inStep event]) hentries
    refine ⟨quiet, rest, hquiet, hbehind, ?_⟩
    rw [splitAtDrain, hbefore, ← List.append_assoc, runEventsOf_append (split.1 ++ split.2)]
    simp [runEventsOf, AgentEvent.isRunEvent]
  | emit event _ ih =>
    cases before with
    | nil => cases hentries
    | cons entry before =>
      obtain ⟨rfl, htail⟩ := List.cons.inj hentries
      obtain ⟨quiet, rest, hquiet, hbehind, hbefore⟩ := ih (split.1, split.2 ++ [event]) htail
      refine ⟨quiet, rest, hquiet, hbehind, ?_⟩
      rw [splitAtDrain, hbefore, ← List.append_assoc, runEventsOf_append (split.1 ++ split.2),
        List.append_assoc, ← runEventsOf_append]
      rfl
  | other hemitted hrecord _ ih =>
    cases before with
    | nil => cases hentries; cases hrecord
    | cons entry before =>
      obtain ⟨rfl, htail⟩ := List.cons.inj hentries
      rw [List.filterMap_cons_none hemitted]
      exact ih split htail
  | failed during _ ih =>
    obtain ⟨quiet, rest, hquiet, hbehind, hbefore⟩ :=
      ih (split.1 ++ split.2, during.map .inStep) hentries
    refine ⟨quiet, rest, hquiet, hbehind, ?_⟩
    rw [splitAtDrain, hbefore, runEventsOf_append (split.1 ++ split.2), runEventsOf_inStep,
      List.append_nil]
  | committed during hrest ih =>
    cases before with
    | nil =>
      -- The last checkpoint: only the snapshot and the finish follow.
      cases hentries
      obtain ⟨first, rest₁, hrest₁, hsplit₁⟩ :=
        split_emit hrest (split.1 ++ split.2, during.map .inStep)
      obtain ⟨second, rest₂, hrest₂, hsplit₂⟩ := split_emit hrest₁
        (split.1 ++ split.2, during.map .inStep ++ first.map .inStep ++ [.stateSnapshot])
      obtain ⟨third, hsplit₃⟩ := split_beside hrest₂ (split.1 ++ split.2,
        during.map .inStep ++ first.map .inStep ++ [.stateSnapshot] ++ second.map .inStep ++
          [finish])
      refine ⟨during.map .inStep ++ first.map .inStep ++ [.stateSnapshot] ++ second.map .inStep,
        third, ?_, ?_, ?_⟩
      · simp [runEventsOf, AgentEvent.isRunEvent]
      · rw [splitAtDrain, hsplit₁, hsplit₂, hsplit₃]
        simp
      · rw [splitAtDrain, hsplit₁, hsplit₂, hsplit₃]
        simp [runEventsOf]
    | cons entry before =>
      obtain ⟨rfl, htail⟩ := List.cons.inj hentries
      obtain ⟨quiet, rest, hquiet, hbehind, hbefore⟩ :=
        ih (split.1 ++ split.2, during.map .inStep) htail
      refine ⟨quiet, rest, hquiet, hbehind, ?_⟩
      rw [splitAtDrain, hbefore, runEventsOf_append (split.1 ++ split.2), runEventsOf_inStep,
        List.append_nil]
      rfl

/-- A run without checkpoints drains nothing. -/
theorem split_undrained {entries : List LoopEntry} {steps : List DispatchStep}
    (h : LoopSteps entries steps) (hrecords : entries.filterMap LoopEntry.record? = [])
    (split : List AgentEvent × List AgentEvent) :
    (splitAtDrain split steps).1 = split.1 ∧ runEventsOf (splitAtDrain split steps).2 =
      runEventsOf split.2 ++ runEventsOf (entries.filterMap LoopEntry.emitted?) := by
  induction h generalizing split with
  | nil => simp [splitAtDrain, runEventsOf]
  | beside event _ ih =>
    obtain ⟨hbefore, hbehind⟩ := ih hrecords (split.1, split.2 ++ [.inStep event])
    refine ⟨hbefore, ?_⟩
    rw [splitAtDrain, hbehind, runEventsOf_append split.2]
    simp [runEventsOf, AgentEvent.isRunEvent]
  | emit event _ ih =>
    obtain ⟨hbefore, hbehind⟩ := ih hrecords (split.1, split.2 ++ [event])
    refine ⟨hbefore, ?_⟩
    rw [splitAtDrain, hbehind, runEventsOf_append split.2, List.append_assoc,
      ← runEventsOf_append]
    rfl
  | other hemitted hrecord _ ih =>
    rw [List.filterMap_cons_none hrecord] at hrecords
    rw [List.filterMap_cons_none hemitted]
    exact ih hrecords split
  | failed => simp [LoopEntry.record?] at hrecords
  | committed => simp [LoopEntry.record?] at hrecords

/-! ## What is staged at the boundaries -/

/-- The event is one of this thread and run. -/
def AgentEvent.Of (threadId runId : String) : AgentEvent → Prop
  | runStart threadId' runId' => threadId' = threadId ∧ runId' = runId
  | runFinish threadId' runId' _ _ => threadId' = threadId ∧ runId' = runId
  | _ => True

theorem isRunFinish_of_inner {event : AgentEvent} (h : event.isRunEvent = false) :
    event.isRunFinish = false := by
  cases event with
  | runFinish => cases h
  | _ => rfl

variable (toValue) in
/-- The normalizer remembers whether its run has finished. -/
theorem normalizeMany_finished (normalizer : ScopedAgentEventNormalizer) {event : AgentEvent}
    (hid : event.Of normalizer.context.threadId normalizer.context.runId) :
    (normalizeMany toValue event normalizer).2.context = normalizer.context ∧
      (normalizer.context.runId ∈ (normalizeMany toValue event normalizer).2.terminalRuns ↔
        normalizer.context.runId ∈ normalizer.terminalRuns ∨ event.isRunFinish = true) := by
  by_cases hevent : event.isRunEvent = false
  · have hsame := (inner_normalizeMany toValue hevent normalizer).2
    simp [hsame.context, hsame.terminalRuns, isRunFinish_of_inner hevent]
  cases event with
  | runStart threadId runId =>
    obtain ⟨rfl, rfl⟩ := hid
    obtain ⟨fact, hfacts, -⟩ := normalizeMany_runStart toValue normalizer
    rw [hfacts]
    simp [AgentEvent.isRunFinish]
  | runFinish threadId runId result termination =>
    obtain ⟨rfl, rfl⟩ := hid
    by_cases hfinished : normalizer.context.runId ∈ normalizer.terminalRuns
    · rw [normalizeMany_runFinish_again toValue normalizer result termination hfinished]
      simp [hfinished]
    · obtain ⟨fact, hfacts, -⟩ :=
        normalizeMany_runFinish toValue normalizer result termination hfinished
      rw [hfacts]
      simp [AgentEvent.isRunFinish]
  | _ => exact absurd rfl hevent

variable (toValue) in
theorem normalizerAfter_finished (normalizer : ScopedAgentEventNormalizer)
    {events : List AgentEvent}
    (hids : ∀ event ∈ events,
      event.Of normalizer.context.threadId normalizer.context.runId) :
    (normalizerAfter toValue normalizer events).context = normalizer.context ∧
      (normalizer.context.runId ∈ (normalizerAfter toValue normalizer events).terminalRuns ↔
        normalizer.context.runId ∈ normalizer.terminalRuns ∨
          ∃ event ∈ events, event.isRunFinish = true) := by
  induction events generalizing normalizer with
  | nil => simp [normalizerAfter]
  | cons event events ih =>
    obtain ⟨hcontext, hfinished⟩ :=
      normalizeMany_finished toValue normalizer (hids event List.mem_cons_self)
    have hrest := ih (normalizeMany toValue event normalizer).2 (by
      rw [hcontext]
      exact fun e he => hids e (List.mem_cons_of_mem _ he))
    rw [hcontext, hfinished, or_assoc] at hrest
    rw [List.exists_mem_cons_iff]
    exact hrest

/-- A fact of a domain event is staged while the capture is on. -/
theorem draftsOf_domainEvent {mode : RuntimeEventDurability} {fact : NormalizedCanonicalEvent}
    (hmode : mode ≠ .disabled) (hfidelity : fact.fidelity = .domainEvent) :
    draftsOf mode (.ok [fact]) ≠ [] := by
  have hpersist : mode.shouldPersist fact.fidelity = true := by
    rw [hfidelity]
    cases mode with
    | disabled => exact absurd rfl hmode
    | compacted => rfl
    | fullFidelity => rfl
  simp [draftsOf, hpersist]

theorem of_runEventsOf {threadId runId : String} {events : List AgentEvent}
    (h : ∀ event ∈ runEventsOf events, event.Of threadId runId) :
    ∀ event ∈ events, event.Of threadId runId := by
  intro event hevent
  by_cases hrun : event.isRunEvent = true
  · exact h event (List.mem_filter.mpr ⟨hevent, hrun⟩)
  · cases event with
    | runStart => exact absurd rfl hrun
    | runFinish => exact absurd rfl hrun
    | _ => trivial

theorem of_emitted {threadId runId : String} {entries : List LoopEntry}
    (h : ∀ b ∈ entries.filterMap LoopEntry.boundary?, b.Of threadId runId) :
    ∀ event ∈ runEventsOf (entries.filterMap LoopEntry.emitted?), event.Of threadId runId := by
  intro event hevent
  obtain ⟨hmem, hrun⟩ := List.mem_filter.mp hevent
  obtain ⟨entry, hentry, hemitted⟩ := List.mem_filterMap.mp hmem
  cases entry with
  | emit event' =>
    cases hemitted
    cases event with
    | runStart threadId' runId' =>
      exact h (.start threadId' runId') (List.mem_filterMap.mpr ⟨_, hentry, rfl⟩)
    | runFinish threadId' runId' result termination =>
      exact h (.finish threadId' runId' termination) (List.mem_filterMap.mpr ⟨_, hentry, rfl⟩)
    | _ => cases hrun
  | _ => cases hemitted

end Loop

/-! ## Committed exactly once -/

section Law

variable (toValue : AgentEvent → Json)

/-- Every staged draft of a dispatch is committed exactly once and in order, no attempt loses or
    duplicates one, and at the end none is left in the buffer or pending. -/
structure CommittedOnce (mode : RuntimeEventDurability) (normalizer : ScopedAgentEventNormalizer)
    (steps : List DispatchStep) : Prop where
  kept : ∀ before, before <+: steps →
    let state := DispatchState.run toValue ⟨.new normalizer mode, []⟩ before
    state.commits.flatten ++ state.staging.pending ++ state.staging.buffer.drafts =
      stagedDrafts toValue mode normalizer (before.flatMap DispatchStep.events)
  committed : (DispatchState.run toValue ⟨.new normalizer mode, []⟩ steps).commits.flatten =
    stagedDrafts toValue mode normalizer (steps.flatMap DispatchStep.events)
  buffer : (DispatchState.run toValue ⟨.new normalizer mode, []⟩ steps).staging.buffer = .new
  pending : (DispatchState.run toValue ⟨.new normalizer mode, []⟩ steps).staging.pending = []

/-- The run had finished before the last drain, for a suspension, and nothing else that is
    emitted behind it is staged. -/
def NothingBehindDrain (mode : RuntimeEventDurability) (normalizer : ScopedAgentEventNormalizer)
    (steps : List DispatchStep) : Prop :=
  let split := splitAtDrain ([], []) steps
  (∃ event ∈ split.1, event.isRunFinish = true) ∧
    stagedDrafts toValue mode (normalizerAfter toValue normalizer split.1)
      (split.2.filter fun event => !event.isRunFinish) = []

variable {toValue}

theorem committedOnce_iff_behind {mode : RuntimeEventDurability}
    {normalizer : ScopedAgentEventNormalizer} {entries : List LoopEntry}
    {steps : List DispatchStep} (hsteps : LoopSteps entries steps) :
    CommittedOnce toValue mode normalizer steps ↔
      stagedDrafts toValue mode (normalizerAfter toValue normalizer
        (splitAtDrain ([], []) steps).1) (splitAtDrain ([], []) steps).2 = [] := by
  have hkept : ∀ before : List DispatchStep,
      DispatchState.Kept toValue mode normalizer (splitAtDrain ([], []) before)
        (DispatchState.run toValue ⟨.new normalizer mode, []⟩ before) :=
    fun before => kept_run (kept_new toValue mode normalizer) before
  have hpending := @pending_loopSteps toValue _ _ hsteps ⟨.new normalizer mode, []⟩ (.inl rfl)
  have hall := (hkept steps).kept
  rw [splitAtDrain_events, hpending, List.append_nil] at hall
  rw [← (hkept steps).buffered]
  constructor
  · intro h
    rw [h.buffer]
    rfl
  · intro hbuffer
    refine ⟨?_, ?_, ?_, hpending⟩
    · intro before _
      have hbefore := (hkept before).kept
      rw [splitAtDrain_events] at hbefore
      exact hbefore
    · rw [hbuffer, List.append_nil] at hall
      exact hall
    · exact congrArg EventBuffer.mk hbuffer

theorem context_dispatchNormalizer (context : AgentEventNormalizationContext)
    (dispatchResumed : Bool) (compactions : List (List CompactionFact)) :
    (dispatchNormalizer context dispatchResumed compactions).context = context := by
  cases dispatchResumed <;> rfl

theorem terminalRuns_dispatchNormalizer (context : AgentEventNormalizationContext)
    (dispatchResumed : Bool) (compactions : List (List CompactionFact)) :
    (dispatchNormalizer context dispatchResumed compactions).terminalRuns = [] := by
  cases dispatchResumed <;> rfl

theorem filter_inner {events : List AgentEvent} (h : runEventsOf events = []) :
    events.filter (fun event => !event.isRunFinish) = events := by
  apply List.filter_eq_self.mpr
  intro event hevent
  rw [runEventsOf, List.filter_eq_nil_iff] at h
  rw [isRunFinish_of_inner (Bool.not_eq_true _ ▸ h event hevent)]
  rfl

/-- The start of a run is staged. -/
theorem stagedDrafts_runStart {mode : RuntimeEventDurability}
    {normalizer : ScopedAgentEventNormalizer} {events : List AgentEvent}
    (hmode : mode ≠ .disabled)
    (hids : ∀ event ∈ events,
      event.Of normalizer.context.threadId normalizer.context.runId)
    (hstart : .runStart normalizer.context.threadId normalizer.context.runId ∈ events) :
    stagedDrafts toValue mode normalizer events ≠ [] := by
  obtain ⟨before, behind, rfl⟩ := List.append_of_mem hstart
  have hcontext := (normalizerAfter_finished toValue normalizer
    fun event hevent => hids event (List.mem_append_left _ hevent)).1
  obtain ⟨fact, hfact, hfidelity, -⟩ :=
    normalizeMany_runStart toValue (normalizerAfter toValue normalizer before)
  rw [hcontext] at hfact
  rw [stagedDrafts_append, stagedDrafts, hfact]
  simp [draftsOf_domainEvent hmode hfidelity]

theorem runStart_mem_emitted {run : LoopRun} {threadId runId : String}
    (h : Boundary.start threadId runId ∈ run.boundaries) :
    .runStart threadId runId ∈ runEventsOf (run.entries.filterMap LoopEntry.emitted?) := by
  obtain ⟨entry, hentry, hboundary⟩ := List.mem_filterMap.mp h
  cases entry with
  | emit event =>
    cases event with
    | runStart threadId' runId' =>
      cases hboundary
      exact List.mem_filter.mpr ⟨List.mem_filterMap.mpr ⟨_, hentry, rfl⟩, rfl⟩
    | runFinish => cases hboundary
    | _ => cases hboundary
  | waited outcome => cases hboundary
  | _ => cases hboundary

/-- What a run that returns has staged is committed exactly once, and nothing is left over,
    exactly when it had finished before its last drain and nothing else is staged behind it. -/
theorem committedOnce_iff (toValue : AgentEvent → Json)
    (context : AgentEventNormalizationContext) (dispatchResumed : Bool)
    (compactions : List (List CompactionFact)) (mode : RuntimeEventDurability)
    (hmode : mode ≠ .disabled) (script : RunScript)
    (recordState threadState : Option RunLifecycleState) (result : RunResult) (run : LoopRun)
    (h : runAgentLoop { script with threadId := context.threadId, runId := context.runId }
      (prepareLocalRootExecution recordState threadState) = (.ok result, run))
    (steps : List DispatchStep) (hsteps : LoopSteps run.entries steps) :
    CommittedOnce toValue mode (dispatchNormalizer context dispatchResumed compactions) steps ↔
      NothingBehindDrain toValue mode (dispatchNormalizer context dispatchResumed compactions)
        steps := by
  rw [committedOnce_iff_behind hsteps]
  unfold NothingBehindDrain
  dsimp only
  have hcontext := context_dispatchNormalizer context dispatchResumed compactions
  have hterminal := terminalRuns_dispatchNormalizer context dispatchResumed compactions
  generalize dispatchNormalizer context dispatchResumed compactions = normalizer at *
  obtain ⟨run₁, hawake, hawaits, hstarted, hcase⟩ := runAgentLoop_ok h
  cases hcase with
  | inl hcancelled =>
    obtain ⟨-, rfl, hrecords⟩ := hcancelled
    -- Nothing is ever drained, and the start of the run is in the buffer.
    obtain ⟨hbefore, hbehind⟩ := split_undrained hsteps hrecords ([], [])
    apply iff_of_false
    · rw [hbefore]
      apply stagedDrafts_runStart hmode
      · rw [normalizerAfter, List.foldl_nil, hcontext]
        apply of_runEventsOf
        rw [hbehind]
        apply of_emitted
        intro b hb
        rw [show run.entries.filterMap LoopEntry.boundary? = _ from hstarted,
          List.mem_singleton] at hb
        rw [hb]
        exact ⟨rfl, rfl⟩
      · rw [normalizerAfter, List.foldl_nil, hcontext]
        have hmem := runStart_mem_emitted (hstarted ▸ List.mem_singleton_self _)
        have hbehind' : .runStart context.threadId context.runId ∈
            runEventsOf (splitAtDrain ([], []) steps).2 := by
          rw [hbehind]
          exact hmem
        exact (List.mem_filter.mp hbehind').1
    · intro hcond
      obtain ⟨event, hevent, -⟩ := hcond.1
      rw [hbefore] at hevent
      cases hevent
  | inr hloop =>
    obtain ⟨-, termination, run₂, hrun, hfinish⟩ := hloop
    obtain ⟨bs, hbs, hrounds, -⟩ := rounds_runLoop hawake hawaits hrun
    obtain ⟨-, hboundaries, -, -⟩ := finishRun_ok hfinish
    obtain ⟨before, record, answer, hentries⟩ := finishRun_entries hfinish
    rw [hbs, hstarted] at hboundaries
    have hof : ∀ b ∈ run.entries.filterMap LoopEntry.boundary?,
        b.Of context.threadId context.runId := by
      rw [show run.entries.filterMap LoopEntry.boundary? = _ from hboundaries]
      simp only [List.forall_mem_append, List.forall_mem_singleton]
      exact ⟨⟨⟨rfl, rfl⟩, of_rounds hrounds⟩, ⟨rfl, rfl⟩⟩
    rw [hentries] at hsteps hof
    obtain ⟨quiet, rest, hquiet, hbehind, hbefore⟩ := split_concluded hsteps ([], [])
    rw [hbehind]
    generalize (splitAtDrain ([], []) steps).1 = drained at *
    have hdrained : ∀ event ∈ drained,
        event.Of normalizer.context.threadId normalizer.context.runId := by
      apply of_runEventsOf
      rw [hbefore, hcontext]
      apply of_emitted
      rw [List.filterMap_append] at hof
      exact fun b hb => hof b (List.mem_append_left _ hb)
    have hof_quiet : ∀ event ∈ quiet,
        event.Of normalizer.context.threadId normalizer.context.runId := by
      apply of_runEventsOf
      rw [hquiet]
      simp
    obtain ⟨hcontext₁, hfinished₁⟩ := normalizerAfter_finished toValue normalizer hdrained
    obtain ⟨hcontext₂, hfinished₂⟩ := normalizerAfter_finished toValue
      (normalizerAfter toValue normalizer drained) (hcontext₁ ▸ hof_quiet)
    have hnone : ¬ ∃ event ∈ quiet, event.isRunFinish = true := by
      intro hsome
      obtain ⟨event, hevent, hfinishes⟩ := hsome
      have := filter_inner hquiet ▸ hevent
      simp [hfinishes] at this
    rw [hcontext₁, hfinished₁, hterminal, or_iff_left hnone] at hfinished₂
    rw [hcontext₁] at hcontext₂
    have hfilter : (quiet ++ AgentEvent.runFinish context.threadId context.runId answer
        termination :: rest.map .inStep).filter (fun event => !event.isRunFinish) =
          quiet ++ rest.map .inStep := by
      rw [List.filter_append, filter_inner hquiet, List.filter_cons_of_neg (by
        simp [AgentEvent.isRunFinish]), filter_inner (runEventsOf_inStep rest)]
    rw [hfilter, stagedDrafts_append, stagedDrafts_append, stagedDrafts]
    by_cases hsuspended : ∃ event ∈ drained, event.isRunFinish = true
    · -- The last finish is a duplicate for the normalizer, and is dropped.
      rw [and_iff_right hsuspended]
      have hagain := normalizeMany_runFinish_again toValue
        (normalizerAfter toValue (normalizerAfter toValue normalizer drained) quiet)
        answer termination (by rw [hcontext₂, hfinished₂]; exact .inr hsuspended)
      rw [hcontext₂, hcontext] at hagain
      rw [hagain]
      simp [draftsOf]
    · -- The last finish is staged, and no commit follows.
      apply iff_of_false
      · obtain ⟨fact, hfact, hfidelity, -⟩ := normalizeMany_runFinish toValue
          (normalizerAfter toValue (normalizerAfter toValue normalizer drained) quiet)
          answer termination (by
            rw [hcontext₂, hfinished₂]
            simp [hsuspended])
        rw [hcontext₂, hcontext] at hfact
        rw [hfact]
        simp [draftsOf_domainEvent hmode hfidelity]
      · exact fun hcond => hsuspended hcond.1

end Law

theorem committedOnce_iff_answer :
    let ended := runAgentLoop (.plain false [.answer]) (prepareLocalRootExecution none none)
    let steps := plainSteps ended.2.entries
    CommittedOnce (fun _ => ⟨"\x7b\x7d"⟩) .compacted
        (dispatchNormalizer LifecycleFacts.context false []) steps ↔
      NothingBehindDrain (fun _ => ⟨"\x7b\x7d"⟩) .compacted
        (dispatchNormalizer LifecycleFacts.context false []) steps :=
  committedOnce_iff (fun _ => ⟨"\x7b\x7d"⟩) LifecycleFacts.context false [] .compacted
    (by simp) (.plain false [.answer]) none none ⟨"", .naturalEnd, 1⟩ _ (Prod.ext rfl rfl) _
    (loopSteps_plainSteps _)

/-- The finish of a run that simply answers is never committed. -/
theorem not_committedOnce_answer :
    let ended := runAgentLoop (.plain false [.answer]) (prepareLocalRootExecution none none)
    let steps := plainSteps ended.2.entries
    let normalizer := dispatchNormalizer LifecycleFacts.context false []
    let state := DispatchState.run (fun _ => ⟨"\x7b\x7d"⟩) ⟨.new normalizer .compacted, []⟩ steps
    ended.1 = .ok ⟨"", .naturalEnd, 1⟩ ∧ LoopSteps ended.2.entries steps ∧
      state.staging.buffer.drafts.map (fun staged => staged.draft.eventKind) = ["RunFinished"] ∧
      ¬ CommittedOnce (fun _ => ⟨"\x7b\x7d"⟩) .compacted normalizer steps := by
  have hbuffer : (DispatchState.run (fun _ => ⟨"\x7b\x7d"⟩)
      ⟨.new (dispatchNormalizer LifecycleFacts.context false []) .compacted, []⟩
      (plainSteps (runAgentLoop (.plain false [.answer])
        (prepareLocalRootExecution none none)).2.entries)).staging.buffer.drafts.map
          (fun staged => staged.draft.eventKind) = ["RunFinished"] := by
    decide +kernel
  refine ⟨by decide +kernel, loopSteps_plainSteps _, hbuffer, ?_⟩
  intro h
  rw [h.buffer] at hbuffer
  cases hbuffer

end Remo
