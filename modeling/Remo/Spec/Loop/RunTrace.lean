import Mathlib.Logic.Relation
import Remo.Native.Loop.Orchestrator

/-!
# The boundaries of a run

The effects of the agent loop, and the starts and finishes of a run among them.

## Key results

- `quiet_executeStep`, `quiet_completeStep` steps are quiet
- `effects_runLoop`, `effects_finishRun` the loop and its end are sequences of effects
- `rounds_runLoop` what the main loop emits, and whether it leaves the run waiting
- `trace_runAgentLoop` what a run that returns emits
-/

/-! ## What the agent loop can do

Everything the loop does is a sequence of a few effects. Most of its functions are quiet: they
emit no `RunStart` or `RunFinish`, wait for nothing, and leave the lifecycle running or done.
-/

namespace Remo

open Relation AgentLoop

/-- One quiet effect. -/
inductive Quiet : LoopRun → LoopRun → Prop
  | emit {run : LoopRun} {event : AgentEvent} : event.isRunEvent = false →
      Quiet run (run.push (.emit event))
  | stepCompleted {run : LoopRun} {now : UInt64} :
      run.lifecycle.status.canTransitionTo .running = true →
      run.lifecycle.stepCount.toNat + 1 < 0x100000000 → Quiet run (run.commit (.stepCompleted now))
  | done {run : LoopRun} {reason : String} {now : UInt64} :
      run.lifecycle.status.canTransitionTo .done = true → Quiet run (run.commit (.done reason now))
  | stop {run : LoopRun} {reason : String} {now : UInt64} :
      Quiet run { run with lifecycle := run.lifecycle.apply (.done reason now) }
  | tokens {run : LoopRun} {input output : UInt64} : Quiet run (run.addTokens input output)
  | checkpoint {run : LoopRun} (termination : Option TerminationReason)
      (finalOutput errorMessage : Option String) :
      Quiet run (run.push (.checkpoint (projection run termination finalOutput errorMessage)))
  | step {run : LoopRun} : Quiet run { run with steps := run.steps + 1 }

/-- One effect of the loop, behind the start of the lifecycle. -/
inductive Effect : LoopRun → LoopRun → Prop
  | quiet {run run' : LoopRun} : Quiet run run' → Effect run run'
  | runEvent {run : LoopRun} {event : AgentEvent} : event.isRunEvent = true →
      Effect run (run.push (.emit event))
  | waited {run : LoopRun} {outcome : WaitOutcome} : Effect run (run.push (.waited outcome))
  | setWaiting {run : LoopRun} {now : UInt64} {reason : String} :
      run.lifecycle.status.canTransitionTo .waiting = true →
      Effect run (run.commit (.setWaiting now reason))
  | setRunning {run : LoopRun} {now : UInt64} :
      run.lifecycle.status.canTransitionTo .running = true →
      Effect run (run.commit (.setRunning now))

/-- All that the method does is a sequence of such effects. -/
def Does (R : LoopRun → LoopRun → Prop) (m : LoopM α) : Prop :=
  ∀ run, ReflTransGen R run (m run).2

variable {R : LoopRun → LoopRun → Prop} {α β : Type}

theorem Does.bind {x : LoopM α} {f : α → LoopM β} (hx : Does R x) (hf : ∀ a, Does R (f a)) :
    Does R (Method.bind x f) := by
  intro run
  apply Method.bind_snd
  · exact hx run
  · intro a run' hrun
    have hfirst := hx run
    rw [hrun] at hfirst
    exact hfirst.trans (hf a run')

theorem does_ret (a : α) : Does R (ret a) := fun _ => .refl

theorem does_fail (e : LoopError) : Does R (fail e : LoopM α) := fun _ => .refl

theorem does_failWith (error : Option String) : Does R (failWith error) := by
  cases error with
  | none => exact does_ret ()
  | some message => exact does_fail _

theorem Does.mono {R' : LoopRun → LoopRun → Prop} {m : LoopM α} (h : Does R m)
    (hR : ∀ run run', R run run' → R' run run') : Does R' m :=
  fun run => ReflTransGen.mono hR _ _ (h run)

theorem Does.effects {m : LoopM α} (h : Does Quiet m) : Does Effect m :=
  h.mono fun _ _ => .quiet

/-! ## Primitives -/

theorem quiet_emit {event : AgentEvent} (h : event.isRunEvent = false) :
    Does Quiet (emit event) := fun _ => .single (.emit h)

theorem quiet_emitAll (events : List StepEvent) : Does Quiet (emitAll events) := by
  intro run
  unfold emitAll
  dsimp only
  induction events generalizing run with
  | nil =>
    rw [List.map_nil, List.append_nil]
  | cons event events ih =>
    have hfirst : Quiet run (run.push (.emit (.inStep event))) := .emit rfl
    have hrest := ih (run.push (.emit (.inStep event)))
    rw [show (run.push (.emit (.inStep event))).entries =
      run.entries ++ [.emit (.inStep event)] from rfl, List.append_assoc] at hrest
    exact .head hfirst hrest

theorem quiet_stopAll (stops : List (String × UInt64)) : Does Quiet (stopAll stops) := by
  intro run
  unfold stopAll
  dsimp only
  induction stops generalizing run with
  | nil => exact .refl
  | cons stop stops ih =>
    exact .head (@Quiet.stop run stop.1 stop.2)
      (ih { run with lifecycle := run.lifecycle.apply (.done stop.1 stop.2) })

theorem quiet_countTokens (usage : List (UInt64 × UInt64)) : Does Quiet (countTokens usage) := by
  intro run
  unfold countTokens
  dsimp only
  induction usage generalizing run with
  | nil => exact .refl
  | cons used usage ih => exact .head .tokens (ih (run.addTokens used.1 used.2))

theorem quiet_runPhase (phase : PhaseRun) : Does Quiet (runPhase phase) :=
  (quiet_stopAll phase.stops).bind fun _ => does_ret _

variable (script : RunScript)

theorem quiet_persist (termination : Option TerminationReason)
    (finalOutput errorMessage : Option String) :
    Does Quiet (persist script termination finalOutput errorMessage) := by
  intro run
  unfold persist
  split
  next => exact .refl
  next => exact .single (.checkpoint termination finalOutput errorMessage)

/-- What a commit does, when its transition is allowed. -/
theorem does_commitUpdate (update : UInt64 → RunLifecycleUpdate)
    (h : ∀ run now, run.lifecycle.status.canTransitionTo (update now).targetStatus = true →
      (∀ n, update now = .stepCompleted n → run.lifecycle.stepCount.toNat + 1 < 0x100000000) →
      R run (run.commit (update now))) : Does R (commitUpdate script update) := by
  intro run
  unfold commitUpdate
  dsimp only
  generalize script.clock run.entries.length = now
  split
  next => exact .refl
  next hallowed =>
    rw [Bool.not_eq_true, Bool.not_eq_false'] at hallowed
    split
    next n heq =>
      split
      next => exact .refl
      next hcount =>
        have hlt : run.lifecycle.stepCount.toNat + 1 < 0x100000000 := by
          have := run.lifecycle.stepCount.toNat_lt
          omega
        exact .single (h run now hallowed fun _ _ => hlt)
    next hne =>
      exact .single (h run now hallowed fun n hn => absurd hn (hne n))

theorem quiet_commitDone (reason : String) :
    Does Quiet (commitUpdate script (.done reason)) :=
  does_commitUpdate script _ fun _ _ hallowed _ => .done hallowed

/-! ## Steps -/

theorem quiet_completeStep (stepEnd : PhaseRun) : Does Quiet (completeStep script stepEnd) := by
  apply Does.bind
  · exact does_commitUpdate script _ fun run now hallowed hlt => .stepCompleted hallowed (hlt _ rfl)
  · intro _
    apply Does.bind
    · exact quiet_runPhase stepEnd
    · intro result
      cases result with
      | cancelled => exact does_fail _
      | error message => exact does_fail _
      | ok =>
        apply (quiet_persist script none none none).bind
        intro _
        exact (quiet_emit rfl).bind fun _ => quiet_emit rfl

theorem quiet_cancelStep : Does Quiet (cancelStep script) :=
  (quiet_commitDone script "cancelled").bind fun _ => does_ret _

theorem quiet_unlessTerminated {next : LoopM StepOutcome} (h : Does Quiet next) :
    Does Quiet (unlessTerminated next) := by
  intro run
  unfold unlessTerminated
  split
  next => exact .refl
  next => exact h run

theorem quiet_runPhaseAndCheck (phase : PhaseRun) {next : LoopM StepOutcome}
    (h : Does Quiet next) : Does Quiet (runPhaseAndCheck phase next) := by
  apply (quiet_runPhase phase).bind
  intro result
  cases result with
  | cancelled => exact does_ret _
  | error message => exact does_fail _
  | ok => exact quiet_unlessTerminated h

theorem quiet_runBeforeInference (phase : PhaseRun) {next : LoopM StepOutcome}
    (h : Does Quiet next) : Does Quiet (runBeforeInference phase next) := by
  apply (quiet_runPhase phase).bind
  intro result
  cases result with
  | cancelled => exact does_fail _
  | error message => exact does_fail _
  | ok => exact quiet_unlessTerminated h

theorem quiet_executeTools (tools : ToolsRun) : Does Quiet (executeTools script tools) := by
  apply (quiet_emitAll tools.events).bind
  intro _
  apply (quiet_stopAll tools.stops).bind
  intro _
  apply (does_failWith tools.error).bind
  intro _
  split
  next => exact quiet_cancelStep script
  next =>
    split
    next reason _ => exact (quiet_commitDone script _).bind fun _ => does_ret _
    next => exact quiet_unlessTerminated (does_ret _)

theorem quiet_executeStep (step : StepScript) : Does Quiet (executeStep script step) := by
  unfold executeStep
  split
  next => exact quiet_cancelStep script
  next =>
    apply quiet_runPhaseAndCheck
    apply quiet_runBeforeInference
    apply (quiet_emitAll step.inferenceEvents).bind
    intro _
    apply (quiet_countTokens step.usage).bind
    intro _
    apply (does_failWith step.inferenceError).bind
    intro _
    apply Does.bind (quiet_emit rfl)
    intro _
    split
    next => exact quiet_cancelStep script
    next =>
      apply quiet_runPhaseAndCheck
      split
      next => exact (quiet_completeStep script step.stepEnd).bind fun _ => does_ret _
      next tools _ => exact quiet_executeTools script tools

theorem Does.catchCancelled {m : LoopM StepOutcome} (h : Does R m) :
    Does R (AgentLoop.catchCancelled m) := by
  intro run
  have hm := h run
  unfold AgentLoop.catchCancelled
  split
  next run' heq =>
    rw [heq] at hm
    exact hm
  next => exact hm

theorem quiet_replayResume (replay : Replay) : Does Quiet (replayResume replay) := by
  apply (quiet_emitAll replay.events).bind
  intro _
  exact (quiet_stopAll replay.stops).bind fun _ => does_failWith replay.error

/-! ## The loop -/

theorem effects_emitRunStart : Does Effect (emitRunStart script) :=
  fun _ => .single (.runEvent rfl)

theorem effects_emitRunFinish (result : Option RunFinishResult) (termination : TerminationReason) :
    Does Effect (emitRunFinish script result termination) :=
  fun _ => .single (.runEvent rfl)

theorem effects_waited (outcome : WaitOutcome) : Does Effect (note (.waited outcome)) :=
  fun _ => .single .waited

theorem effects_commitWaiting (reason : String) :
    Does Effect (commitUpdate script fun now => .setWaiting now reason) :=
  does_commitUpdate script _ fun _ _ hallowed _ => .setWaiting hallowed

theorem effects_commitRunning : Does Effect (commitUpdate script .setRunning) :=
  does_commitUpdate script _ fun _ _ hallowed _ => .setRunning hallowed

theorem effects_waitLoop (waits : List WaitScript) : Does Effect (waitLoop script waits) := by
  induction waits with
  | nil => exact does_fail _
  | cons wait waits ih =>
    cases wait with
    | error message => exact does_fail _
    | resumed replay stillSuspended =>
      apply (effects_waited .resumed).bind
      intro _
      apply (effects_emitRunStart script).bind
      intro _
      apply (quiet_replayResume replay).effects.bind
      intro _
      split
      next =>
        apply (quiet_emit rfl).effects.bind
        intro _
        exact (effects_emitRunFinish script none .suspended).bind fun _ => ih
      next => exact (effects_commitRunning script).bind fun _ => does_ret _
    | inboxMessages error appended =>
      apply (effects_waited .inboxMessages).bind
      intro _
      apply (does_failWith error).bind
      intro _
      split
      next => exact (quiet_persist script none none none).effects.bind fun _ => ih
      next => exact ih
    | cancelled => exact (effects_waited .cancelled).bind fun _ => does_ret _
    | noDecisionChannel => exact (effects_waited .noDecisionChannel).bind fun _ => does_ret _

theorem effects_afterNaturalEnd (boundary : NaturalBoundary) :
    Does Effect (afterNaturalEnd script boundary) := by
  apply (does_failWith boundary.error).bind
  intro _
  split
  next => exact does_ret _
  next =>
    split
    next =>
      split
      next => exact does_ret _
      next => exact does_ret _
      next => exact (effects_commitWaiting script _).bind fun _ => does_ret _
    next => exact does_ret _

theorem effects_afterStep (step : StepScript) (outcome : StepOutcome) :
    Does Effect (afterStep script step outcome) := by
  have hcomplete := (quiet_completeStep script step.stepEnd).effects
  cases outcome with
  | naturalEnd => exact effects_afterNaturalEnd script step.natural
  | cancelled => exact hcomplete.bind fun _ => does_ret _
  | blocked reason => exact hcomplete.bind fun _ => does_ret _
  | terminated reason => exact hcomplete.bind fun _ => does_ret _
  | suspended =>
    apply (effects_commitWaiting script "suspended").bind
    intro _
    apply hcomplete.bind
    intro _
    apply (quiet_emit rfl).effects.bind
    intro _
    apply (effects_emitRunFinish script none .suspended).bind
    intro _
    exact effects_waitLoop script step.waits
  | «continue» =>
    apply hcomplete.bind
    intro _
    apply (does_failWith step.nextStepError).bind
    intro _
    split
    next => exact does_ret _
    next => exact fun _ => .refl

theorem effects_stepRound (step : StepScript) : Does Effect (stepRound script step) := by
  apply Does.bind
  · exact fun _ => .single (.quiet .step)
  · intro _
    split
    next => exact does_ret _
    next =>
      apply (quiet_emit rfl).effects.bind
      intro _
      apply (quiet_executeStep script step).effects.catchCancelled.bind
      intro outcome
      exact effects_afterStep script step outcome

theorem effects_runLoop (steps : List StepScript) : Does Effect (runLoop script steps) := by
  induction steps with
  | nil => exact does_fail _
  | cons step steps ih =>
    apply (effects_stepRound script step).bind
    intro ended
    cases ended with
    | none => exact ih
    | some termination => exact does_ret _

theorem quiet_finishLifecycle (termination : TerminationReason) :
    Does Quiet (finishLifecycle script termination) := by
  intro run
  unfold finishLifecycle
  dsimp only
  split
  next => exact quiet_commitDone script _ run
  next => exact .refl

theorem effects_concludeRun (termination : TerminationReason) :
    Does Effect (concludeRun script termination) := by
  apply (quiet_persist script _ _ _).effects.bind
  intro _
  apply (quiet_emit rfl).effects.bind
  intro _
  apply Does.bind
  · exact fun run => effects_emitRunFinish script _ termination run
  · exact fun _ _ => .refl

theorem effects_finishRun (termination : TerminationReason) :
    Does Effect (finishRun script termination) := by
  apply (quiet_finishLifecycle script termination).effects.bind
  intro _
  apply (quiet_runPhase script.runEnd).effects.bind
  intro result
  cases result with
  | ok => exact effects_concludeRun script termination
  | cancelled => exact effects_concludeRun script termination
  | error message => exact does_fail _

end Remo

/-! ## The boundaries of a run

The `RunStart` and `RunFinish` events of a run that returns, with the waits between them: a run
starts, is suspended and resumed any number of times, and finishes. A wait that ends in a
cancellation or finds no decision channel ends the run behind the `RunFinish` that suspended it.
-/

namespace Remo

open Relation AgentLoop

/-! ## Boundaries -/

/-- The entries at which a run starts, finishes, or has waited. -/
inductive Boundary where
  | start (threadId runId : String)
  | finish (threadId runId : String) (termination : TerminationReason)
  | waited (outcome : WaitOutcome)
deriving Repr, DecidableEq

def LoopEntry.boundary? : LoopEntry → Option Boundary
  | .emit (.runStart threadId runId) => some (.start threadId runId)
  | .emit (.runFinish threadId runId _ termination) => some (.finish threadId runId termination)
  | .waited outcome => some (.waited outcome)
  | _ => none

def LoopRun.boundaries (run : LoopRun) : List Boundary := run.entries.filterMap LoopEntry.boundary?

/-- The run waits for its background tasks from here on. -/
def LoopEntry.awaitsTasks : LoopEntry → Bool
  | .committed (.setWaiting _ reason) => reason == "awaiting_tasks"
  | _ => false

/-- The run stopped to await background tasks. -/
def LoopRun.awaitsTasks (run : LoopRun) : Bool := run.entries.any LoopEntry.awaitsTasks

/-- The run is not waiting. -/
def LoopRun.Awake (run : LoopRun) : Prop := run.lifecycle.status ≠ .waiting

section Grammar

variable (script : RunScript)

def RunScript.started : Boundary := .start script.threadId script.runId

def RunScript.finished (termination : TerminationReason) : Boundary :=
  .finish script.threadId script.runId termination

/-- What a wait for decisions emits, when the loop goes on afterwards (`none`) and when it ends
    for a reason. -/
inductive Waits : List Boundary → Option TerminationReason → Prop
  | inboxMessages {bs : List Boundary} {ended : Option TerminationReason} : Waits bs ended →
      Waits (.waited .inboxMessages :: bs) ended
  | suspendedAgain {bs : List Boundary} {ended : Option TerminationReason} : Waits bs ended →
      Waits (.waited .resumed :: script.started :: script.finished .suspended :: bs) ended
  | resumed : Waits [.waited .resumed, script.started] none
  | cancelled : Waits [.waited .cancelled] (some .cancelled)
  | noDecisionChannel : Waits [.waited .noDecisionChannel] (some .suspended)

/-- What the main loop emits until it ends for a reason. -/
inductive Rounds : List Boundary → TerminationReason → Prop
  | ended {termination : TerminationReason} : Rounds [] termination
  | endedWaiting {bs : List Boundary} {termination : TerminationReason} :
      Waits script bs (some termination) → Rounds (script.finished .suspended :: bs) termination
  | resumed {bs rest : List Boundary} {termination : TerminationReason} :
      Waits script bs none → Rounds rest termination →
      Rounds (script.finished .suspended :: bs ++ rest) termination

end Grammar

/-- A wait ended the run. -/
def EndedWaiting (bs : List Boundary) : Prop :=
  .waited .cancelled ∈ bs ∨ .waited .noDecisionChannel ∈ bs

instance (bs : List Boundary) : Decidable (EndedWaiting bs) := inferInstanceAs (Decidable (_ ∨ _))

/-! ## Quiet stretches -/

/-- Nothing is emitted at the boundary, and a run that is awake stays so. -/
structure LoopRun.Still (run run' : LoopRun) : Prop where
  boundaries : run'.boundaries = run.boundaries
  awaitsTasks : run'.awaitsTasks = run.awaitsTasks
  awake : run.Awake → run'.Awake

namespace LoopRun.Still

theorem refl (run : LoopRun) : run.Still run := ⟨rfl, rfl, id⟩

theorem trans {a b c : LoopRun} (hab : a.Still b) (hbc : b.Still c) : a.Still c :=
  ⟨hbc.boundaries.trans hab.boundaries, hbc.awaitsTasks.trans hab.awaitsTasks,
    fun h => hbc.awake (hab.awake h)⟩

/-- An entry that is no boundary is written. -/
theorem push {run run' : LoopRun} {entry : LoopEntry}
    (hentries : run'.entries = run.entries ++ [entry]) (hboundary : entry.boundary? = none)
    (hawaits : entry.awaitsTasks = false) (hawake : run.Awake → run'.Awake) :
    run.Still run' where
  boundaries := by
    show run'.entries.filterMap LoopEntry.boundary? = run.entries.filterMap LoopEntry.boundary?
    simp [hentries, hboundary]
  awaitsTasks := by simp [LoopRun.awaitsTasks, hentries, hawaits]
  awake := hawake

end LoopRun.Still

theorem RunLifecycleState.status_apply {value : RunLifecycleState} {update : RunLifecycleUpdate}
    (h : value.status.canTransitionTo update.targetStatus = true)
    (hstep : ∀ now, update ≠ .stepCompleted now) :
    (value.apply update).status = update.targetStatus := by
  unfold RunLifecycleState.apply
  rw [if_neg (by rw [h]; exact Bool.false_ne_true)]
  cases update with
  | stepCompleted now => exact absurd rfl (hstep now)
  | start => rfl
  | setWaiting => rfl
  | setRunning => rfl
  | done => rfl

/-- Done is reached from everywhere. -/
theorem RunStatus.canTransitionTo_done (status : RunStatus) :
    status.canTransitionTo .done = true := by
  cases status <;> rfl

theorem RunLifecycleState.status_apply_done (value : RunLifecycleState) (reason : String)
    (now : UInt64) : (value.apply (.done reason now)).status = .done :=
  status_apply value.status.canTransitionTo_done fun _ h => by cases h

theorem RunLifecycleState.status_apply_stepCompleted (value : RunLifecycleState) (now : UInt64) :
    (value.apply (.stepCompleted now)).status = value.status := by
  unfold RunLifecycleState.apply
  split <;> rfl

theorem still_of_quiet {run run' : LoopRun} (h : Quiet run run') : run.Still run' := by
  cases h with
  | @emit event hevent =>
    apply LoopRun.Still.push rfl
    · cases event <;> first | rfl | exact absurd hevent Bool.noConfusion
    · rfl
    · exact id
  | @stepCompleted now _ _ =>
    apply LoopRun.Still.push rfl rfl rfl
    intro hawake
    show (run.lifecycle.apply (.stepCompleted now)).status ≠ .waiting
    rw [RunLifecycleState.status_apply_stepCompleted]
    exact hawake
  | @done reason now _ =>
    apply LoopRun.Still.push rfl rfl rfl
    intro _
    show (run.lifecycle.apply (.done reason now)).status ≠ .waiting
    rw [RunLifecycleState.status_apply_done]
    simp
  | @stop reason now =>
    refine ⟨rfl, rfl, ?_⟩
    intro _
    show (run.lifecycle.apply (.done reason now)).status ≠ .waiting
    rw [RunLifecycleState.status_apply_done]
    simp
  | tokens => exact LoopRun.Still.push rfl rfl rfl id
  | checkpoint _ _ _ => exact LoopRun.Still.push rfl rfl rfl id
  | step => exact LoopRun.Still.mk rfl rfl id

/-- A quiet method leaves the boundary as it is. -/
theorem Does.still {α : Type} {m : LoopM α} (h : Does Quiet m) (run : LoopRun) :
    run.Still (m run).2 := by
  have hstill : ∀ run', ReflTransGen Quiet run run' → run.Still run' := by
    intro run' hsteps
    induction hsteps with
    | refl => exact .refl run
    | tail _ hquiet ih => exact ih.trans (still_of_quiet hquiet)
  exact hstill _ (h run)

theorem Does.still_of_eq {α : Type} {m : LoopM α} (h : Does Quiet m) {run run' : LoopRun}
    {result : Except LoopError α} (heq : m run = (result, run')) : run.Still run' := by
  have hstill := h.still run
  rw [heq] at hstill
  exact hstill

/-! ## The loop -/

variable (script : RunScript)

theorem boundaries_emitRunStart (run : LoopRun) :
    (emitRunStart script run).2.boundaries = run.boundaries ++ [script.started] :=
  List.filterMap_append

theorem boundaries_emitRunFinish (result : Option RunFinishResult)
    (termination : TerminationReason) (run : LoopRun) :
    (emitRunFinish script result termination run).2.boundaries =
      run.boundaries ++ [script.finished termination] :=
  List.filterMap_append

theorem boundaries_waited (outcome : WaitOutcome) (run : LoopRun) :
    (note (.waited outcome) run).2.boundaries = run.boundaries ++ [.waited outcome] :=
  List.filterMap_append

theorem boundaries_push {run : LoopRun} {entry : LoopEntry} (h : entry.boundary? = none) :
    (run.push entry).boundaries = run.boundaries := by
  simp [LoopRun.boundaries, LoopRun.push, h]

theorem awaitsTasks_push {run : LoopRun} {entry : LoopEntry} (h : entry.awaitsTasks = false) :
    (run.push entry).awaitsTasks = run.awaitsTasks := by
  simp [LoopRun.awaitsTasks, LoopRun.push, h]

/-- A run that is set to running is awake, whether the update was allowed or not. -/
theorem awake_commitRunning (run : LoopRun) : (commitUpdate script .setRunning run).2.Awake := by
  unfold commitUpdate
  dsimp only
  split
  next h =>
    show run.lifecycle.status ≠ .waiting
    intro hwaiting
    rw [hwaiting] at h
    cases h
  next h =>
    show (run.lifecycle.apply (.setRunning _)).status ≠ .waiting
    rw [RunLifecycleState.status_apply (by simpa using h) fun _ h => by cases h]
    simp [RunLifecycleUpdate.targetStatus]

theorem commitRunning_still (run : LoopRun) :
    (commitUpdate script .setRunning run).2.boundaries = run.boundaries ∧
      (commitUpdate script .setRunning run).2.awaitsTasks = run.awaitsTasks := by
  unfold commitUpdate
  dsimp only
  split
  next => exact ⟨rfl, rfl⟩
  next => exact ⟨boundaries_push rfl, awaitsTasks_push rfl⟩

/-- What one wait, and all that follow, emit. -/
theorem waits_waitLoop {waits : List WaitScript} {run run' : LoopRun}
    {ended : Option TerminationReason} (h : waitLoop script waits run = (.ok ended, run')) :
    run'.awaitsTasks = run.awaitsTasks ∧ (ended = none → run'.Awake) ∧
      ∃ bs, run'.boundaries = run.boundaries ++ bs ∧ Waits script bs ended := by
  induction waits generalizing run with
  | nil => cases h
  | cons wait waits ih =>
    cases wait with
    | error message => cases h
    | cancelled =>
      cases h
      exact ⟨awaitsTasks_push rfl, fun h => absurd h (Option.some_ne_none _), _,
        boundaries_waited .cancelled run, .cancelled⟩
    | noDecisionChannel =>
      cases h
      exact ⟨awaitsTasks_push rfl, fun h => absurd h (Option.some_ne_none _), _,
        boundaries_waited .noDecisionChannel run, .noDecisionChannel⟩
    | inboxMessages error appended =>
      obtain ⟨_, run₁, hwaited, hfrom₁⟩ := Method.bind_eq_ok h
      obtain ⟨_, run₂, hfail, hfrom₂⟩ := Method.bind_eq_ok hfrom₁
      have hquiet : run₁.Still run₂ := (does_failWith error).still_of_eq hfail
      cases hwaited
      have hrest : ∃ run₃, run₂.Still run₃ ∧ waitLoop script waits run₃ = (.ok ended, run') := by
        split at hfrom₂
        next =>
          obtain ⟨_, run₃, hpersist, hfrom₃⟩ := Method.bind_eq_ok hfrom₂
          exact ⟨run₃, (quiet_persist script none none none).still_of_eq hpersist, hfrom₃⟩
        next => exact ⟨run₂, .refl run₂, hfrom₂⟩
      obtain ⟨run₃, hstill, hfrom₃⟩ := hrest
      obtain ⟨hawaits, hawake, bs, hbs, hwaits⟩ := ih hfrom₃
      have hall := hquiet.trans hstill
      refine ⟨?_, hawake, .waited .inboxMessages :: bs, ?_, .inboxMessages hwaits⟩
      · rw [hawaits, hall.awaitsTasks]
        exact awaitsTasks_push rfl
      · rw [hbs, hall.boundaries]
        show (note (.waited .inboxMessages) run).2.boundaries ++ bs = _
        rw [boundaries_waited, List.append_assoc]
        rfl
    | resumed replay stillSuspended =>
      obtain ⟨_, run₁, hwaited, hfrom₁⟩ := Method.bind_eq_ok h
      obtain ⟨_, run₂, hstart, hfrom₂⟩ := Method.bind_eq_ok hfrom₁
      obtain ⟨_, run₃, hreplay, hfrom₃⟩ := Method.bind_eq_ok hfrom₂
      have hquiet : run₂.Still run₃ := (quiet_replayResume replay).still_of_eq hreplay
      have hstarted : run₃.boundaries =
          run.boundaries ++ [.waited .resumed, script.started] := by
        cases hwaited
        cases hstart
        rw [hquiet.boundaries]
        show (emitRunStart script (note (.waited .resumed) run).2).2.boundaries = _
        rw [boundaries_emitRunStart, boundaries_waited, List.append_assoc]
        rfl
      have hawaits : run₃.awaitsTasks = run.awaitsTasks := by
        cases hwaited
        cases hstart
        rw [hquiet.awaitsTasks]
        exact (awaitsTasks_push rfl).trans (awaitsTasks_push rfl)
      split at hfrom₃
      next =>
        obtain ⟨_, run₄, hsnapshot, hfrom₄⟩ := Method.bind_eq_ok hfrom₃
        obtain ⟨_, run₅, hfinish, hfrom₅⟩ := Method.bind_eq_ok hfrom₄
        obtain ⟨hawaits', hawake, bs, hbs, hwaits⟩ := ih hfrom₅
        have hsnap : run₃.Still run₄ := Does.still_of_eq (quiet_emit rfl) hsnapshot
        cases hfinish
        refine ⟨?_, hawake, .waited .resumed :: script.started :: script.finished .suspended :: bs,
          ?_, .suspendedAgain hwaits⟩
        · rw [hawaits', ← hawaits, ← hsnap.awaitsTasks]
          exact awaitsTasks_push rfl
        · rw [hbs]
          show (emitRunFinish script none .suspended run₄).2.boundaries ++ bs = _
          rw [boundaries_emitRunFinish, hsnap.boundaries, hstarted]
          simp
      next =>
        obtain ⟨_, run₄, hcommit, hfrom₄⟩ := Method.bind_eq_ok hfrom₃
        cases hfrom₄
        have hsame := commitRunning_still script run₃
        have hawake := awake_commitRunning script run₃
        rw [hcommit] at hsame hawake
        exact ⟨hsame.2.trans hawaits, fun _ => hawake, _, hsame.1.trans hstarted, .resumed⟩

/-- How a pass of the main loop ends: awake, waiting for tasks, or behind a wait. -/
inductive RoundEnds (run run' : LoopRun) : Option TerminationReason → Prop
  | still {ended : Option TerminationReason} : run.Still run' → RoundEnds run run' ended
  | awaitsTasks : run'.boundaries = run.boundaries → run'.awaitsTasks = true →
      run'.lifecycle.status = .waiting → RoundEnds run run' (some .naturalEnd)
  | waited {ended : Option TerminationReason} {bs : List Boundary} :
      run'.boundaries = run.boundaries ++ script.finished .suspended :: bs →
      Waits script bs ended → run'.awaitsTasks = run.awaitsTasks →
      (ended = none → run'.Awake) → RoundEnds run run' ended

variable {script}

theorem RoundEnds.after {run₁ run₂ run₃ : LoopRun} {ended : Option TerminationReason}
    (hstill : run₁.Still run₂) (h : RoundEnds script run₂ run₃ ended) :
    RoundEnds script run₁ run₃ ended := by
  cases h with
  | still h => exact .still (hstill.trans h)
  | awaitsTasks hbs hawaits hwaiting =>
    exact .awaitsTasks (hbs.trans hstill.boundaries) hawaits hwaiting
  | waited hbs hwaits hawaits hawake =>
    rw [hstill.boundaries] at hbs
    exact .waited hbs hwaits (hawaits.trans hstill.awaitsTasks) hawake

theorem roundEnds_afterNaturalEnd {boundary : NaturalBoundary} {run run' : LoopRun}
    {ended : Option TerminationReason}
    (h : afterNaturalEnd script boundary run = (.ok ended, run')) :
    RoundEnds script run run' ended := by
  obtain ⟨_, run₁, hfail, hfrom₁⟩ := Method.bind_eq_ok h
  apply RoundEnds.after ((does_failWith boundary.error).still_of_eq hfail)
  split at hfrom₁
  next => cases hfrom₁; exact .still (.refl _)
  next =>
    split at hfrom₁
    next =>
      cases htask : boundary.taskEvent with
      | some received =>
        rw [htask] at hfrom₁
        cases received <;> (cases hfrom₁; exact .still (.refl _))
      | none =>
        rw [htask] at hfrom₁
        obtain ⟨_, run₂, hcommit, hfrom₂⟩ := Method.bind_eq_ok hfrom₁
        cases hfrom₂
        unfold commitUpdate at hcommit
        dsimp only at hcommit
        split at hcommit
        -- A stop policy has ended the run: it does not wait.
        next => cases hcommit; exact .still (.refl _)
        next hallowed =>
          cases hcommit
          apply RoundEnds.awaitsTasks
          · exact boundaries_push rfl
          · simp [LoopRun.awaitsTasks, LoopRun.commit, LoopRun.push, LoopEntry.awaitsTasks]
          · exact RunLifecycleState.status_apply (by simpa using hallowed) fun _ h => by cases h
    next => cases hfrom₁; exact .still (.refl _)

theorem commitSuspended_still (run : LoopRun) :
    let run' := (commitUpdate script (fun now => .setWaiting now "suspended") run).2
    run'.boundaries = run.boundaries ∧ run'.awaitsTasks = run.awaitsTasks := by
  unfold commitUpdate
  dsimp only
  split
  next => exact ⟨rfl, rfl⟩
  next => exact ⟨boundaries_push rfl, awaitsTasks_push rfl⟩

theorem roundEnds_suspended {step : StepScript} {run run' : LoopRun}
    {ended : Option TerminationReason}
    (h : afterStep script step .suspended run = (.ok ended, run')) :
    RoundEnds script run run' ended := by
  obtain ⟨_, run₁, hcommit, hfrom₁⟩ := Method.bind_eq_ok h
  obtain ⟨_, run₂, hcomplete, hfrom₂⟩ := Method.bind_eq_ok hfrom₁
  obtain ⟨_, run₃, hsnapshot, hfrom₃⟩ := Method.bind_eq_ok hfrom₂
  obtain ⟨_, run₄, hfinish, hfrom₄⟩ := Method.bind_eq_ok hfrom₃
  have hsame := @commitSuspended_still script run
  rw [hcommit] at hsame
  have hstill : run₁.Still run₃ :=
    ((quiet_completeStep script step.stepEnd).still_of_eq hcomplete).trans
      (Does.still_of_eq (quiet_emit rfl) hsnapshot)
  have hfinished : run₄.boundaries = run.boundaries ++ [script.finished .suspended] := by
    cases hfinish
    show (emitRunFinish script none .suspended run₃).2.boundaries = _
    rw [boundaries_emitRunFinish, hstill.boundaries, hsame.1]
  have hawaits : run₄.awaitsTasks = run.awaitsTasks := by
    cases hfinish
    rw [← hsame.2, ← hstill.awaitsTasks]
    exact awaitsTasks_push rfl
  obtain ⟨hawaits', hawake, bs, hbs, hwaits⟩ := waits_waitLoop script hfrom₄
  rw [hfinished, List.append_assoc] at hbs
  exact .waited hbs hwaits (hawaits'.trans hawaits) hawake

theorem roundEnds_afterStep {step : StepScript} {outcome : StepOutcome} {run run' : LoopRun}
    {ended : Option TerminationReason}
    (h : afterStep script step outcome run = (.ok ended, run')) :
    RoundEnds script run run' ended := by
  have hclose : ∀ {reason : TerminationReason},
      Method.bind (completeStep script step.stepEnd) (fun _ => ret (some reason)) run =
        (.ok ended, run') → RoundEnds script run run' ended := by
    intro reason hbind
    obtain ⟨_, run₁, hcomplete, hret⟩ := Method.bind_eq_ok hbind
    cases hret
    exact .still ((quiet_completeStep script step.stepEnd).still_of_eq hcomplete)
  cases outcome with
  | cancelled => exact hclose h
  | blocked reason => exact hclose h
  | terminated reason => exact hclose h
  | naturalEnd => exact roundEnds_afterNaturalEnd h
  | suspended => exact roundEnds_suspended h
  | «continue» =>
    obtain ⟨_, run₁, hcomplete, hfrom₁⟩ := Method.bind_eq_ok h
    obtain ⟨_, run₂, hfail, hfrom₂⟩ := Method.bind_eq_ok hfrom₁
    have hstill : run.Still run₂ :=
      ((quiet_completeStep script step.stepEnd).still_of_eq hcomplete).trans
        ((does_failWith step.nextStepError).still_of_eq hfail)
    split at hfrom₂
    next => cases hfrom₂; exact .still hstill
    next => cases hfrom₂; exact .still hstill

theorem roundEnds_stepRound {step : StepScript} {run run' : LoopRun}
    {ended : Option TerminationReason} (h : stepRound script step run = (.ok ended, run')) :
    RoundEnds script run run' ended := by
  obtain ⟨_, run₁, hcount, hfrom₁⟩ := Method.bind_eq_ok h
  have hstart : run.Still run₁ := by
    cases hcount
    exact ⟨rfl, rfl, id⟩
  apply RoundEnds.after hstart
  cases hhandoff : step.handoffError with
  | some message =>
    rw [hhandoff] at hfrom₁
    cases hfrom₁
    exact .still (.refl _)
  | none =>
    rw [hhandoff] at hfrom₁
    obtain ⟨_, run₂, hemit, hfrom₂⟩ := Method.bind_eq_ok hfrom₁
    obtain ⟨outcome, run₃, hstep, hfrom₃⟩ := Method.bind_eq_ok hfrom₂
    apply RoundEnds.after (Does.still_of_eq (quiet_emit rfl) hemit)
    apply RoundEnds.after ((quiet_executeStep script step).catchCancelled.still_of_eq hstep)
    exact roundEnds_afterStep hfrom₃

/-- How the main loop leaves a run: awake, waiting for tasks, or ended by a wait. -/
inductive LoopEnds (run : LoopRun) (bs : List Boundary) : TerminationReason → Prop
  | awake {termination : TerminationReason} : ¬ EndedWaiting bs → run.Awake →
      run.awaitsTasks = false → LoopEnds run bs termination
  | awaitsTasks : ¬ EndedWaiting bs → run.lifecycle.status = .waiting →
      run.awaitsTasks = true → LoopEnds run bs .naturalEnd
  | waited {termination : TerminationReason} : EndedWaiting bs → run.awaitsTasks = false →
      LoopEnds run bs termination

/-- A wait that goes on did not end the run; one that does not did. -/
theorem endedWaiting_of_waits {bs : List Boundary} {ended : Option TerminationReason}
    (h : Waits script bs ended) : EndedWaiting bs ↔ ended ≠ none := by
  unfold EndedWaiting
  induction h with
  | inboxMessages _ ih => simpa using ih
  | suspendedAgain _ ih => simpa [RunScript.started, RunScript.finished] using ih
  | resumed => simp [RunScript.started]
  | cancelled => simp
  | noDecisionChannel => simp

theorem endedWaiting_cons_finished {bs : List Boundary} {termination : TerminationReason} :
    EndedWaiting (script.finished termination :: bs) ↔ EndedWaiting bs := by
  simp [EndedWaiting, RunScript.finished]

theorem endedWaiting_append {bs bs' : List Boundary} :
    EndedWaiting (bs ++ bs') ↔ EndedWaiting bs ∨ EndedWaiting bs' := by
  unfold EndedWaiting
  simp only [List.mem_append]
  tauto

/-- What the main loop emits, and how it leaves the run. -/
theorem rounds_runLoop {steps : List StepScript} {run run' : LoopRun}
    {termination : TerminationReason} (hawake : run.Awake) (hawaits : run.awaitsTasks = false)
    (h : runLoop script steps run = (.ok termination, run')) :
    ∃ bs, run'.boundaries = run.boundaries ++ bs ∧ Rounds script bs termination ∧
      LoopEnds run' bs termination := by
  induction steps generalizing run with
  | nil => cases h
  | cons step steps ih =>
    obtain ⟨ended, run₁, hround, hrest⟩ := Method.bind_eq_ok h
    have hends := roundEnds_stepRound hround
    cases ended with
    | some reason =>
      cases hrest
      cases hends with
      | still hstill =>
        refine ⟨[], by rw [hstill.boundaries, List.append_nil], .ended, ?_⟩
        exact .awake (by simp [EndedWaiting]) (hstill.awake hawake)
          (hstill.awaitsTasks.trans hawaits)
      | awaitsTasks hbs htasks hwaiting =>
        refine ⟨[], by rw [hbs, List.append_nil], .ended, ?_⟩
        exact .awaitsTasks (by simp [EndedWaiting]) hwaiting htasks
      | waited hbs hwaits hsame _ =>
        refine ⟨_, hbs, .endedWaiting hwaits, .waited ?_ (hsame.trans hawaits)⟩
        rw [endedWaiting_cons_finished, endedWaiting_of_waits hwaits]
        exact Option.some_ne_none _
    | none =>
      cases hends with
      | still hstill =>
        obtain ⟨bs, hbs, hrounds, hloop⟩ :=
          ih (hstill.awake hawake) (hstill.awaitsTasks.trans hawaits) hrest
        rw [hstill.boundaries] at hbs
        exact ⟨bs, hbs, hrounds, hloop⟩
      | @waited _ ws hbs hwaits hsame hawake₁ =>
        obtain ⟨rest, hrestbs, hrounds, hloop⟩ := ih (hawake₁ rfl) (hsame.trans hawaits) hrest
        refine ⟨_, by rw [hrestbs, hbs, List.append_assoc], .resumed hwaits hrounds, ?_⟩
        have hnot : EndedWaiting (script.finished .suspended :: ws ++ rest) ↔
            EndedWaiting rest := by
          rw [endedWaiting_append, endedWaiting_cons_finished, endedWaiting_of_waits hwaits]
          simp
        cases hloop with
        | awake h₁ h₂ h₃ => exact .awake (hnot.not.mpr h₁) h₂ h₃
        | awaitsTasks h₁ h₂ h₃ => exact .awaitsTasks (hnot.not.mpr h₁) h₂ h₃
        | waited h₁ h₂ => exact .waited (hnot.mpr h₁) h₂

/-! ## Plain scripts -/

/-- Hooks that do nothing. -/
def PhaseRun.plain : PhaseRun := ⟨[], .ok⟩

/-- A step that answers, or calls tools, and the waits that follow it. -/
def StepScript.plain (tools : Option ToolsRun) (waits : List WaitScript) : StepScript where
  handoffError := none
  cancelledAtStart := false
  stepStart := .plain
  beforeInference := .plain
  inferenceEvents := []
  usage := [(100, 20)]
  inferenceError := none
  cancelledAfterInference := false
  afterInference := .plain
  tools := tools
  stepEnd := .plain
  natural := ⟨none, false, false, none⟩
  waits := waits
  nextStepError := none
  nextStepMessages := false

def StepScript.answer : StepScript := plain none []

def StepScript.callTools : StepScript := plain (some ⟨[], [], none, false, none, false⟩) []

def StepScript.suspend (waits : List WaitScript) : StepScript :=
  plain (some ⟨[], [], none, false, none, true⟩) waits

/-- A run in which nothing else happens. -/
def RunScript.plain (isContinuation : Bool) (steps : List StepScript) : RunScript where
  threadId := "thread"
  runId := "run"
  isContinuation := isContinuation
  pendingBoundary := false
  clock := fun _ => 0
  checkpointFails := fun _ => none
  replay := ⟨[], [], none⟩
  runStart := .plain
  steps := steps
  runEnd := .plain
  response := ""

end Remo
