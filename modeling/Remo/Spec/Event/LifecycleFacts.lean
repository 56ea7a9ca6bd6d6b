import Remo.Native.Event.DurableEventSink
import Remo.Spec.Loop.RunOutcome

/-!
# The lifecycle facts of a run

The normalizer turns the `RunStart` and `RunFinish` events of a run into lifecycle facts. It keeps
the first finish of a run and drops the others, so a run that is suspended stays recorded as
suspended, however it goes on.

Key results:
* `lifecycleKinds_normalizeAll` the lifecycle facts by the boundaries of the run
* `faithful_iff` when the lifecycle facts are faithful to the loop
-/

namespace Remo

open AgentLoop ScopedAgentEventNormalizer

/-! ## Lifecycle facts -/

def startKinds : List String := ["RunStarted", "RunResumed"]

def finishKinds : List String :=
  ["RunFinished", "RunSuspended", "RunCancelled", "RunErrored", "RunTerminated"]

/-- The lifecycle facts among the facts of a stream. -/
def lifecycleKinds (facts : List NormalizedCanonicalEvent) : List String :=
  (facts.map fun fact => fact.draft.eventKind).filter fun kind =>
    kind ∈ startKinds ++ finishKinds

/-- The events that were emitted. -/
def LoopEntry.emitted? : LoopEntry → Option AgentEvent
  | .emit event => some event
  | _ => none

def LoopRun.emitted (run : LoopRun) : List AgentEvent := run.entries.filterMap LoopEntry.emitted?

/-- Every segment of a run has the fact that it started or resumed, and one fact that it
    finished. -/
inductive Segments : List String → Prop
  | nil : Segments []
  | segment {start finish : String} {rest : List String} : start ∈ startKinds →
      finish ∈ finishKinds → Segments rest → Segments (start :: finish :: rest)

/-- The facts are faithful to the run: segment by segment, and with the last finish of the run
    as the last fact. -/
structure Faithful (kinds : List String) (run : LoopRun) : Prop where
  segments : Segments kinds
  last : ∃ termination ∈ (run.emitted.filterMap AgentEvent.termination?).getLast?,
    kinds.getLast? = some (runFinishKind termination)

/-! ## The facts by the boundaries -/

/-- The lifecycle facts of a run: whether it has started and whether it has finished decide on
    the next one. -/
def factsOf (started finished : Bool) : List Boundary → List String
  | [] => []
  | .start _ _ :: bs =>
    (if started then "RunResumed" else "RunStarted") :: factsOf true finished bs
  | .finish _ _ termination :: bs =>
    if finished then factsOf started true bs
    else runFinishKind termination :: factsOf started true bs
  | .waited _ :: bs => factsOf started finished bs

/-- The boundary is one of this thread and run. -/
def Boundary.Of (threadId runId : String) : Boundary → Prop
  | start threadId' runId' => threadId' = threadId ∧ runId' = runId
  | finish threadId' runId' _ => threadId' = threadId ∧ runId' = runId
  | waited _ => True

section Normalizer

variable (toValue : AgentEvent → Json)

theorem build_run (self : ScopedAgentEventNormalizer) {kind : String} (payload : Json)
    (hkind : Str.isBlank kind = false) :
    ∃ fact, self.build .domainEvent kind self.contextScopes payload = .ok fact ∧
      fact.fidelity = .domainEvent ∧ fact.draft.eventKind = kind := by
  have hvalid : validateScopeSet self.contextScopes = .ok () := by
    simp [validateScopeSet, contextScopes, scopesFor, validateScopes, validateScope,
      EventStoreError.rejectBlank, self.context.threadId_notBlank, self.context.runId_notBlank,
      EventScope.family]
  unfold build
  simp only [EventStoreError.rejectBlank, hkind, CanonicalEventDraft.validate, hvalid,
    self.context.origin_notBlank]
  exact ⟨_, rfl, rfl, rfl⟩

theorem eventKind_of_build {self : ScopedAgentEventNormalizer} {fidelity : FidelityClass}
    {kind : String} {scopes : List EventScope} {payload : Json} {fact : NormalizedCanonicalEvent}
    (h : self.build fidelity kind scopes payload = .ok fact) : fact.draft.eventKind = kind := by
  unfold build at h
  split at h
  next => cases h
  next =>
    dsimp only at h
    split at h
    next => cases h
    next => cases h; rfl

theorem eventKind_of_buildInternal {self : ScopedAgentEventNormalizer} {kind : String}
    {payload : Json} {fact : NormalizedCanonicalEvent}
    (h : self.buildInternal kind payload = .ok fact) : fact.draft.eventKind = kind := by
  unfold buildInternal at h
  split at h
  next => cases h
  next event hbuild =>
    cases h
    show event.draft.eventKind = kind
    exact eventKind_of_build hbuild

theorem lifecycleKinds_append (facts facts' : List NormalizedCanonicalEvent) :
    lifecycleKinds (facts ++ facts') = lifecycleKinds facts ++ lifecycleKinds facts' := by
  simp [lifecycleKinds]

theorem lifecycleKinds_singleton {fact : NormalizedCanonicalEvent}
    (h : fact.draft.eventKind ∉ startKinds ++ finishKinds) : lifecycleKinds [fact] = [] := by
  unfold lifecycleKinds
  rw [List.map_singleton, List.filter_singleton, decide_eq_false h]
  rfl

theorem lifecycleKinds_buildCompactions {self : ScopedAgentEventNormalizer} {payload : Json}
    {compactions : List CompactionFact} {facts : List NormalizedCanonicalEvent}
    (h : self.buildCompactions payload compactions = .ok facts) : lifecycleKinds facts = [] := by
  induction compactions generalizing facts with
  | nil => cases h; rfl
  | cons compaction compactions ih =>
    unfold buildCompactions at h
    split at h
    next => cases h
    next event hevent =>
      cases hrest : self.buildCompactions payload compactions with
      | error error => rw [hrest] at h; cases h
      | ok rest =>
        rw [hrest] at h
        cases h
        show lifecycleKinds ([event] ++ rest) = []
        rw [lifecycleKinds_append, ih hrest, List.append_nil]
        apply lifecycleKinds_singleton
        rw [eventKind_of_buildInternal hevent]
        cases compaction <;> simp [CompactionFact.kind, startKinds, finishKinds]

/-- The lifecycle facts of one event, if it normalizes. -/
def lifecycleOf (result : Except EventStoreError (List NormalizedCanonicalEvent)) : List String :=
  match result with
  | .ok facts => lifecycleKinds facts
  | .error _ => []

/-- The runs that have started and finished are the same. -/
structure SameRuns (before after : ScopedAgentEventNormalizer) : Prop where
  context : after.context = before.context
  startedRuns : after.startedRuns = before.startedRuns
  terminalRuns : after.terminalRuns = before.terminalRuns

theorem lifecycleOf_map_singleton {self : ScopedAgentEventNormalizer} {fidelity : FidelityClass}
    {kind : String} {scopes : List EventScope} {payload : Json}
    (h : kind ∉ startKinds ++ finishKinds) :
    lifecycleOf ((self.build fidelity kind scopes payload).map fun fact => [fact]) = [] := by
  cases hbuild : self.build fidelity kind scopes payload with
  | error error => rfl
  | ok fact => exact lifecycleKinds_singleton (eventKind_of_build hbuild ▸ h)

theorem kind_stepEvent (event : StepEvent) : event.fact.2 ∉ startKinds ++ finishKinds := by
  cases event with
  | toolCallDone result outcome =>
    unfold StepEvent.fact
    dsimp only
    split
    next => simp [startKinds, finishKinds]
    next =>
      split
      next => simp [startKinds, finishKinds]
      next => split <;> simp [startKinds, finishKinds]
  | _ => simp [StepEvent.fact, startKinds, finishKinds]

theorem SameRuns.refl (self : ScopedAgentEventNormalizer) : SameRuns self self := ⟨rfl, rfl, rfl⟩

theorem SameRuns.trans {a b c : ScopedAgentEventNormalizer} (hab : SameRuns a b)
    (hbc : SameRuns b c) : SameRuns a c :=
  ⟨hbc.context.trans hab.context, hbc.startedRuns.trans hab.startedRuns,
    hbc.terminalRuns.trans hab.terminalRuns⟩

/-- The method has no lifecycle facts. -/
def Inner (m : Method EventStoreError ScopedAgentEventNormalizer (List NormalizedCanonicalEvent)) :
    Prop :=
  ∀ self, lifecycleOf (m self).1 = [] ∧ SameRuns self (m self).2

theorem Inner.append {x y z : Method EventStoreError ScopedAgentEventNormalizer
    (List NormalizedCanonicalEvent)} (hx : Inner x) (hy : Inner y) (hz : Inner z) :
    Inner (Method.bind x fun a => Method.bind y fun b => Method.map (fun c => a ++ b ++ c) z) := by
  intro self
  have hx := hx self
  unfold Method.bind Method.map
  cases hfirst : x self with
  | mk result self₁ =>
    rw [hfirst] at hx
    cases result with
    | error error => exact hx
    | ok facts =>
      have hy := hy self₁
      dsimp only
      cases hsecond : y self₁ with
      | mk result self₂ =>
        rw [hsecond] at hy
        cases result with
        | error error => exact ⟨rfl, hx.2.trans hy.2⟩
        | ok permissions =>
          have hz := hz self₂
          dsimp only
          refine ⟨?_, (hx.2.trans hy.2).trans hz.2⟩
          cases hthird : (z self₂).1 with
          | error error => rfl
          | ok compactions =>
            rw [hthird] at hz
            show lifecycleKinds (facts ++ permissions ++ compactions) = []
            rw [lifecycleKinds_append, lifecycleKinds_append]
            show lifecycleOf (.ok facts) ++ lifecycleOf (.ok permissions) ++
              lifecycleOf (.ok compactions) = []
            rw [hx.1, hy.1, hz.1]
            rfl

theorem inner_normalize {event : AgentEvent} {fidelity : FidelityClass} {kind : String}
    (hclassify : ∀ self : ScopedAgentEventNormalizer,
      self.classify event = (some (fidelity, kind, self.contextScopes), self))
    (hkind : kind ∉ startKinds ++ finishKinds) :
    Inner (ScopedAgentEventNormalizer.normalize toValue event) := by
  intro self
  unfold ScopedAgentEventNormalizer.normalize
  rw [hclassify self]
  exact ⟨lifecycleOf_map_singleton hkind, .refl self⟩

theorem inner_permission (event : AgentEvent) : Inner (toolPermissionRequested toValue event) := by
  intro self
  have hkind : "ToolPermissionRequested" ∉ startKinds ++ finishKinds := by
    simp [startKinds, finishKinds]
  unfold toolPermissionRequested
  split
  next =>
    split
    next => exact ⟨rfl, .refl self⟩
    next => exact ⟨lifecycleOf_map_singleton hkind, .refl self⟩
  next => exact ⟨rfl, .refl self⟩

theorem inner_compaction (event : AgentEvent) : Inner (contextCompactionEvents toValue event) := by
  intro self
  cases event with
  | stateSnapshot =>
    refine ⟨?_, ⟨rfl, rfl, rfl⟩⟩
    show lifecycleOf (self.buildCompactions _ _) = []
    cases hbuild : self.buildCompactions (toValue .stateSnapshot) (self.compactions.headD []) with
    | error error => rfl
    | ok facts => exact lifecycleKinds_buildCompactions hbuild
  | _ => exact ⟨rfl, .refl self⟩

/-- An event between the boundaries has no lifecycle fact. -/
theorem inner_normalizeMany {event : AgentEvent} (h : event.isRunEvent = false) :
    Inner (normalizeMany toValue event) := by
  have hfirst : Inner (ScopedAgentEventNormalizer.normalize toValue event) := by
    cases event with
    | runStart => cases h
    | runFinish => cases h
    | stepStart =>
      exact inner_normalize toValue (fun _ => rfl) (by simp [startKinds, finishKinds])
    | stepEnd =>
      exact inner_normalize toValue (fun _ => rfl) (by simp [startKinds, finishKinds])
    | stateSnapshot =>
      exact inner_normalize toValue (fun _ => rfl) (by simp [startKinds, finishKinds])
    | inStep event => exact inner_normalize toValue (fun _ => rfl) (kind_stepEvent event)
  exact hfirst.append (inner_permission toValue event) (inner_compaction toValue event)

/-- A normalized event at a boundary has one fact. -/
theorem normalizeMany_run (self : ScopedAgentEventNormalizer) {event : AgentEvent}
    {kind : String} {self' : ScopedAgentEventNormalizer} (hevent : event.isRunEvent = true)
    (hclassify : self.classify event = (some (.domainEvent, kind, self.contextScopes), self'))
    (hcontext : self'.context = self.context) (hkind : kind ∈ startKinds ++ finishKinds) :
    ∃ fact, normalizeMany toValue event self = (.ok [fact], self') ∧
      fact.fidelity = .domainEvent ∧ lifecycleKinds [fact] = [kind] := by
  have hblank : Str.isBlank kind = false := by
    have hall : ∀ kind ∈ startKinds ++ finishKinds, Str.isBlank kind = false := by
      decide +kernel
    exact hall kind hkind
  obtain ⟨fact, hbuild, hfidelity, hfact⟩ := build_run self' (toValue event) hblank
  have hscopes : self.contextScopes = self'.contextScopes := by
    rw [contextScopes, contextScopes, hcontext]
  refine ⟨fact, ?_, hfidelity, ?_⟩
  · unfold normalizeMany ScopedAgentEventNormalizer.normalize Method.bind
    dsimp only
    rw [hclassify, hscopes]
    dsimp only
    rw [hbuild]
    cases event with
    | runStart => rfl
    | runFinish => rfl
    | _ => cases hevent
  · unfold lifecycleKinds
    rw [List.map_singleton, List.filter_singleton, hfact, decide_eq_true hkind]
    rfl

theorem normalizeMany_runStart (self : ScopedAgentEventNormalizer) :
    ∃ fact, normalizeMany toValue (.runStart self.context.threadId self.context.runId) self =
        (.ok [fact], { self with
          startedRuns := if self.context.runId ∈ self.startedRuns then self.startedRuns
            else self.context.runId :: self.startedRuns }) ∧
      fact.fidelity = .domainEvent ∧ lifecycleKinds [fact] =
        [if self.context.runId ∈ self.startedRuns then "RunResumed" else "RunStarted"] := by
  by_cases hstarted : self.context.runId ∈ self.startedRuns
  · rw [if_pos hstarted, if_pos hstarted]
    apply normalizeMany_run toValue self rfl
    · simp [classify, hstarted, contextScopes]
    · rfl
    · simp [startKinds]
  · rw [if_neg hstarted, if_neg hstarted]
    apply normalizeMany_run toValue self rfl
    · simp [classify, hstarted, contextScopes]
    · rfl
    · simp [startKinds]

theorem runFinishKind_mem (termination : TerminationReason) :
    runFinishKind termination ∈ finishKinds := by
  cases termination <;> simp [runFinishKind, finishKinds]

/-- The first finish of a run is a fact. -/
theorem normalizeMany_runFinish (self : ScopedAgentEventNormalizer)
    (result : Option RunFinishResult) (termination : TerminationReason)
    (hfinished : self.context.runId ∉ self.terminalRuns) :
    ∃ fact, normalizeMany toValue
          (.runFinish self.context.threadId self.context.runId result termination) self =
        (.ok [fact], { self with terminalRuns := self.context.runId :: self.terminalRuns }) ∧
      fact.fidelity = .domainEvent ∧ lifecycleKinds [fact] = [runFinishKind termination] := by
  apply normalizeMany_run toValue self rfl
  · simp [classify, hfinished, contextScopes]
  · rfl
  · exact List.mem_append_right _ (runFinishKind_mem termination)

/-- A later finish of the run is dropped. -/
theorem normalizeMany_runFinish_again (self : ScopedAgentEventNormalizer)
    (result : Option RunFinishResult) (termination : TerminationReason)
    (hfinished : self.context.runId ∈ self.terminalRuns) :
    normalizeMany toValue
      (.runFinish self.context.threadId self.context.runId result termination) self =
        (.ok [], self) := by
  simp [normalizeMany, ScopedAgentEventNormalizer.normalize, classify, hfinished, Method.bind,
    Method.map, toolPermissionRequested, contextCompactionEvents, Except.map]

theorem lifecycleKinds_normalizeAll_cons (self : ScopedAgentEventNormalizer)
    (event : AgentEvent) (events : List AgentEvent) :
    lifecycleKinds (normalizeAll toValue self (event :: events)) =
      lifecycleOf (normalizeMany toValue event self).1 ++
        lifecycleKinds (normalizeAll toValue (normalizeMany toValue event self).2 events) := by
  rw [normalizeAll]
  split
  next facts self' heq => rw [heq, lifecycleKinds_append]; rfl
  next heq => rw [heq]; rfl

/-- The lifecycle facts of a run are decided by its boundaries. -/
theorem lifecycleKinds_normalizeAll (self : ScopedAgentEventNormalizer) (entries : List LoopEntry)
    (hids : ∀ b ∈ entries.filterMap LoopEntry.boundary?,
      b.Of self.context.threadId self.context.runId) :
    lifecycleKinds (normalizeAll toValue self (entries.filterMap LoopEntry.emitted?)) =
      factsOf (self.context.runId ∈ self.startedRuns) (self.context.runId ∈ self.terminalRuns)
        (entries.filterMap LoopEntry.boundary?) := by
  induction entries generalizing self with
  | nil => rfl
  | cons entry entries ih =>
    have hskip : entry.boundary? = none → entry.emitted? = none →
        lifecycleKinds (normalizeAll toValue self
          ((entry :: entries).filterMap LoopEntry.emitted?)) =
        factsOf (self.context.runId ∈ self.startedRuns) (self.context.runId ∈ self.terminalRuns)
          ((entry :: entries).filterMap LoopEntry.boundary?) := by
      intro hboundary hemitted
      rw [List.filterMap_cons_none hboundary] at hids ⊢
      rw [List.filterMap_cons_none hemitted]
      exact ih self hids
    cases entry with
    | committed update => exact hskip rfl rfl
    | tokens input output => exact hskip rfl rfl
    | checkpoint record => exact hskip rfl rfl
    | waited outcome =>
      exact ih self fun b hb => hids b (List.mem_cons_of_mem _ hb)
    | emit event =>
      show lifecycleKinds (normalizeAll toValue self
        (event :: entries.filterMap LoopEntry.emitted?)) = _
      rw [lifecycleKinds_normalizeAll_cons]
      by_cases hevent : event.isRunEvent = true
      · cases event with
        | runStart threadId runId =>
          obtain ⟨rfl, rfl⟩ := hids _ List.mem_cons_self
          obtain ⟨fact, hfacts, -, hkinds⟩ := normalizeMany_runStart toValue self
          have hrest := ih { self with
            startedRuns := if self.context.runId ∈ self.startedRuns then self.startedRuns
              else self.context.runId :: self.startedRuns }
            fun b hb => hids b (List.mem_cons_of_mem _ hb)
          rw [hfacts]
          show lifecycleKinds [fact] ++ _ = _
          rw [hkinds, hrest]
          by_cases hstarted : self.context.runId ∈ self.startedRuns <;>
            simp [LoopEntry.boundary?, factsOf, hstarted]
        | runFinish threadId runId result termination =>
          obtain ⟨rfl, rfl⟩ := hids _ List.mem_cons_self
          have hrest := fun b hb => hids b (List.mem_cons_of_mem _ hb)
          by_cases hfinished : self.context.runId ∈ self.terminalRuns
          · rw [normalizeMany_runFinish_again toValue self result termination hfinished]
            show lifecycleKinds [] ++ _ = _
            rw [ih self hrest]
            simp [LoopEntry.boundary?, factsOf, hfinished, lifecycleKinds]
          · obtain ⟨fact, hfacts, -, hkinds⟩ :=
              normalizeMany_runFinish toValue self result termination hfinished
            rw [hfacts]
            show lifecycleKinds [fact] ++ _ = _
            rw [hkinds, ih { self with terminalRuns := self.context.runId :: self.terminalRuns }
              hrest]
            simp [LoopEntry.boundary?, factsOf, hfinished]
        | _ => cases hevent
      · obtain ⟨hfacts, hsame⟩ := inner_normalizeMany toValue (Bool.not_eq_true _ ▸ hevent) self
        have hboundary : LoopEntry.boundary? (.emit event) = none := by
          cases event <;> first | rfl | exact absurd rfl hevent
        rw [List.filterMap_cons_none hboundary] at hids ⊢
        rw [hfacts, List.nil_append, ih _ (by rwa [hsame.context]), hsame.context,
          hsame.startedRuns, hsame.terminalRuns]

end Normalizer

/-! ## The boundaries of a run -/

variable {script : RunScript}

theorem of_started : script.started.Of script.threadId script.runId := ⟨rfl, rfl⟩

theorem of_finished (termination : TerminationReason) :
    (script.finished termination).Of script.threadId script.runId := ⟨rfl, rfl⟩

@[simp] theorem of_waited (outcome : WaitOutcome) :
    (Boundary.waited outcome).Of script.threadId script.runId := trivial

theorem of_waits {bs : List Boundary} {ended : Option TerminationReason}
    (h : Waits script bs ended) : ∀ b ∈ bs, b.Of script.threadId script.runId := by
  induction h with
  | inboxMessages _ ih => simpa using ih
  | suspendedAgain _ ih => simpa [of_started, of_finished] using ih
  | resumed => simp [of_started]
  | cancelled => simp
  | noDecisionChannel => simp

theorem of_rounds {bs : List Boundary} {termination : TerminationReason}
    (h : Rounds script bs termination) : ∀ b ∈ bs, b.Of script.threadId script.runId := by
  induction h with
  | ended => simp
  | endedWaiting hwaits => simpa [of_finished] using of_waits hwaits
  | resumed hwaits _ ih =>
    simp only [List.cons_append, List.forall_mem_cons, List.forall_mem_append]
    exact ⟨of_finished _, of_waits hwaits, ih⟩

/-- Behind its first finish, a run has only facts that it was resumed. -/
theorem factsOf_finished (bs : List Boundary) :
    factsOf true true bs = List.replicate (bs.countP Boundary.isStart) "RunResumed" := by
  induction bs with
  | nil => rfl
  | cons b bs ih =>
    cases b with
    | start threadId runId =>
      simp [factsOf, ih, Boundary.isStart, List.countP_cons, List.replicate_succ]
    | finish threadId runId termination =>
      simp [factsOf, ih, Boundary.isStart]
    | waited outcome => simp [factsOf, ih]

/-- A wait that is resumed starts the run again. -/
theorem countP_isStart_waits {bs : List Boundary} {ended : Option TerminationReason}
    (h : Waits script bs ended) :
    bs.countP Boundary.isStart = 0 ↔ Boundary.waited .resumed ∉ bs := by
  induction h with
  | inboxMessages _ ih => simpa using ih
  | suspendedAgain _ _ => simp [List.countP_cons]
  | resumed => simp [List.countP_cons]
  | cancelled => simp
  | noDecisionChannel => simp

/-- The reason a wait ends the run for. -/
theorem cancelled_mem_waits {bs : List Boundary} {termination : TerminationReason}
    (h : Waits script bs (some termination)) :
    (Boundary.waited .cancelled ∈ bs ∧ termination = .cancelled) ∨
      (Boundary.waited .cancelled ∉ bs ∧ termination = .suspended) := by
  generalize hended : some termination = ended at h
  induction h with
  | inboxMessages _ ih => simpa using ih hended
  | suspendedAgain _ ih => simpa [RunScript.started, RunScript.finished] using ih hended
  | resumed => cases hended
  | cancelled => cases hended; simp
  | noDecisionChannel => cases hended; simp

theorem waited_not_mem_waits {bs : List Boundary} (h : Waits script bs none) :
    Boundary.waited .resumed ∈ bs := by
  generalize hended : (none : Option TerminationReason) = ended at h
  induction h with
  | inboxMessages _ ih => exact List.mem_cons_of_mem _ (ih hended)
  | suspendedAgain _ _ => exact List.mem_cons_self
  | resumed => exact List.mem_cons_self
  | cancelled => cases hended
  | noDecisionChannel => cases hended

/-! ## Faithfulness -/

/-- A start, a finish, and any number of resumptions. -/
theorem segments_iff {start finish : String} {n : Nat} (hstart : start ∈ startKinds)
    (hfinish : finish ∈ finishKinds) :
    Segments (start :: finish :: List.replicate n "RunResumed") ↔ n = 0 := by
  constructor
  · intro h
    cases h with
    | segment _ _ hrest =>
      cases n with
      | zero => rfl
      | succ n =>
        rw [List.replicate_succ] at hrest
        cases n with
        | zero => cases hrest
        | succ n =>
          rw [List.replicate_succ] at hrest
          cases hrest with
          | segment _ hfinish' _ => simp [finishKinds] at hfinish'
  · intro h
    rw [h]
    exact .segment hstart hfinish .nil

theorem runFinishKind_eq_suspended {termination : TerminationReason} :
    runFinishKind termination = "RunSuspended" ↔ termination = .suspended := by
  cases termination <;> simp [runFinishKind]

/-- The lifecycle facts of a finished run. -/
theorem factsOf_rounds {bs : List Boundary} {termination : TerminationReason} {started : Bool}
    (h : Rounds script bs termination) :
    ∃ first n, factsOf started false
        ([script.started] ++ bs ++ [script.finished termination]) =
        (if started then "RunResumed" else "RunStarted") :: runFinishKind first ::
          List.replicate n "RunResumed" ∧
      (n = 0 ∧ runFinishKind first = runFinishKind termination ↔
        Boundary.waited .resumed ∉ bs ∧ Boundary.waited .cancelled ∉ bs) := by
  cases h with
  | ended =>
    refine ⟨termination, 0, ?_, by simp⟩
    simp [factsOf, RunScript.started, RunScript.finished]
  | @endedWaiting ws _ hwaits =>
    refine ⟨.suspended, ws.countP Boundary.isStart, ?_, ?_⟩
    · simp [factsOf, RunScript.started, RunScript.finished, factsOf_finished, List.countP_append,
        Boundary.isStart]
    · rw [countP_isStart_waits hwaits]
      show _ ∧ "RunSuspended" = _ ↔ _
      rw [eq_comm (a := "RunSuspended"), runFinishKind_eq_suspended]
      simp only [List.mem_cons, RunScript.finished, reduceCtorEq, false_or]
      apply and_congr_right
      intro _
      rcases cancelled_mem_waits hwaits with ⟨hmem, rfl⟩ | ⟨hmem, rfl⟩
      · simp [hmem]
      · simp [hmem]
  | @resumed ws rest _ hwaits _ =>
    have hmem := waited_not_mem_waits hwaits
    refine ⟨.suspended, (ws ++ rest).countP Boundary.isStart, ?_, ?_⟩
    · simp [factsOf, RunScript.started, RunScript.finished, factsOf_finished, List.countP_append,
        Boundary.isStart]
    · apply iff_of_false
      · intro hnone
        have hzero := hnone.1
        rw [List.countP_append, Nat.add_eq_zero_iff] at hzero
        exact (countP_isStart_waits hwaits).mp hzero.1 hmem
      · intro hnone
        exact hnone.1 (by simp [hmem])

theorem terminations_emitted (run : LoopRun) :
    run.emitted.filterMap AgentEvent.termination? =
      run.boundaries.filterMap fun b => match b with
        | .finish _ _ termination => some termination
        | _ => none := by
  unfold LoopRun.emitted LoopRun.boundaries
  rw [List.filterMap_filterMap, List.filterMap_filterMap]
  congr 1
  funext entry
  cases entry with
  | emit event => cases event <;> rfl
  | _ => rfl

/-- The normalizer of a dispatch. -/
def dispatchNormalizer (context : AgentEventNormalizationContext) (resumed : Bool)
    (compactions : List (List CompactionFact)) : ScopedAgentEventNormalizer :=
  if resumed then newResumed context compactions else new context compactions

/-- The lifecycle facts of a run that returns are faithful to it exactly when its start phase
    is not cancelled, and it was never resumed or cancelled while it waited. -/
theorem faithful_iff (toValue : AgentEvent → Json) (context : AgentEventNormalizationContext)
    (dispatchResumed : Bool) (compactions : List (List CompactionFact)) (script : RunScript)
    (recordState threadState : Option RunLifecycleState) (result : RunResult) (run : LoopRun)
    (h : runAgentLoop { script with threadId := context.threadId, runId := context.runId }
      (prepareLocalRootExecution recordState threadState) = (.ok result, run)) :
    Faithful (lifecycleKinds (normalizeAll toValue
        (dispatchNormalizer context dispatchResumed compactions) run.emitted)) run ↔
      script.runStart.result ≠ .cancelled ∧ Boundary.waited .resumed ∉ run.boundaries ∧
        Boundary.waited .cancelled ∉ run.boundaries := by
  have hcontext : (dispatchNormalizer context dispatchResumed compactions).context = context := by
    cases dispatchResumed <;> rfl
  have hfinished : (dispatchNormalizer context dispatchResumed compactions).context.runId ∉
      (dispatchNormalizer context dispatchResumed compactions).terminalRuns := by
    cases dispatchResumed <;> simp [dispatchNormalizer, new, newResumed]
  obtain ⟨run₁, hawake, hawaits, hstarted, hcase⟩ := runAgentLoop_ok h
  cases hcase with
  | inl hcancelled =>
    obtain ⟨hcancelled, rfl, -⟩ := hcancelled
    -- No finish was emitted.
    apply iff_of_false
    · intro hfaithful
      obtain ⟨termination, hlast, -⟩ := hfaithful.last
      rw [terminations_emitted, hstarted] at hlast
      simp [RunScript.started] at hlast
    · exact fun hcond => hcond.1 hcancelled
  | inr hloop =>
    obtain ⟨hstart, termination, run₂, hrun, hfinish⟩ := hloop
    obtain ⟨bs, hbs, hrounds, -⟩ := rounds_runLoop hawake hawaits hrun
    obtain ⟨-, hboundaries, -, -⟩ := finishRun_ok hfinish
    rw [hbs, hstarted] at hboundaries
    have hids : ∀ b ∈ run.boundaries, b.Of context.threadId context.runId := by
      rw [hboundaries]
      simp only [List.forall_mem_append, List.forall_mem_singleton]
      exact ⟨⟨of_started, of_rounds hrounds⟩, of_finished termination⟩
    have hfacts := lifecycleKinds_normalizeAll toValue
      (dispatchNormalizer context dispatchResumed compactions) run.entries
      (by rw [hcontext]; exact hids)
    rw [decide_eq_false hfinished,
      show run.entries.filterMap LoopEntry.boundary? = run.boundaries from rfl] at hfacts
    obtain ⟨first, n, hkinds, hfirst⟩ := @factsOf_rounds _ bs termination
      ((dispatchNormalizer context dispatchResumed compactions).context.runId ∈
        (dispatchNormalizer context dispatchResumed compactions).startedRuns) hrounds
    rw [← hboundaries] at hkinds
    have hlast : termination ∈ (run.emitted.filterMap AgentEvent.termination?).getLast? := by
      rw [terminations_emitted, hboundaries]
      simp [RunScript.finished]
    have hwaited : (Boundary.waited .resumed ∉ run.boundaries ∧
          Boundary.waited .cancelled ∉ run.boundaries) ↔
        Boundary.waited .resumed ∉ bs ∧ Boundary.waited .cancelled ∉ bs := by
      rw [hboundaries]
      simp [RunScript.started, RunScript.finished]
    show Faithful (lifecycleKinds (normalizeAll toValue _
      (run.entries.filterMap LoopEntry.emitted?))) run ↔ _
    rw [hfacts, hkinds, hwaited, and_iff_right hstart, ← hfirst]
    constructor
    · intro hfaithful
      have hzero : n = 0 := by
        apply (segments_iff _ (runFinishKind_mem first)).mp hfaithful.segments
        split <;> simp [startKinds]
      obtain ⟨termination', hmem, hkind⟩ := hfaithful.last
      rw [Option.mem_unique hmem hlast, hzero] at hkind
      exact ⟨hzero, Option.some.inj hkind⟩
    · intro hcond
      obtain ⟨hzero, hkind⟩ := hcond
      rw [hzero]
      constructor
      · apply (segments_iff _ (runFinishKind_mem first)).mpr rfl
        split <;> simp [startKinds]
      · exact ⟨termination, hlast, congrArg some hkind⟩

namespace LifecycleFacts

def context : AgentEventNormalizationContext where
  threadId := "thread"
  runId := "run"
  origin := "runtime"
  correlationId := none
  threadId_notBlank := rfl
  runId_notBlank := rfl
  origin_notBlank := rfl

end LifecycleFacts

theorem faithful_iff_answer :
    let ended := runAgentLoop (.plain false [.answer]) (prepareLocalRootExecution none none)
    Faithful (lifecycleKinds (normalizeAll (fun _ => ⟨"\x7b\x7d"⟩)
        (dispatchNormalizer LifecycleFacts.context false []) ended.2.emitted)) ended.2 ↔
      PhaseResult.ok ≠ .cancelled ∧ Boundary.waited .resumed ∉ ended.2.boundaries ∧
        Boundary.waited .cancelled ∉ ended.2.boundaries :=
  faithful_iff (fun _ => ⟨"\x7b\x7d"⟩) LifecycleFacts.context false []
    (.plain false [.answer]) none none ⟨"", .naturalEnd, 1⟩ _ (Prod.ext rfl rfl)

/-- A run that is suspended, resumed in process, and then answers stays recorded as suspended,
    and its resumption has no finish. -/
theorem not_faithful_resumed :
    let ended := runAgentLoop
      (.plain false [.suspend [.resumed ⟨[], [], none⟩ false], .answer])
      (prepareLocalRootExecution none none)
    let kinds := lifecycleKinds (normalizeAll (fun _ => ⟨"\x7b\x7d"⟩)
      (dispatchNormalizer LifecycleFacts.context false []) ended.2.emitted)
    ended.1 = .ok ⟨"", .naturalEnd, 2⟩ ∧
      kinds = ["RunStarted", "RunSuspended", "RunResumed"] ∧ ¬ Faithful kinds ended.2 := by
  dsimp only
  have hkinds : lifecycleKinds (normalizeAll (fun _ => ⟨"\x7b\x7d"⟩)
      (dispatchNormalizer LifecycleFacts.context false [])
      (runAgentLoop (.plain false [.suspend [.resumed ⟨[], [], none⟩ false], .answer])
        (prepareLocalRootExecution none none)).2.emitted) =
      ["RunStarted", "RunSuspended", "RunResumed"] := by
    decide +kernel
  refine ⟨by decide +kernel, hkinds, ?_⟩
  rw [hkinds]
  intro hfaithful
  cases hfaithful.segments with
  | segment _ _ hrest => cases hrest

end Remo
