import Remo.Native.Event.AgentEvent
import Remo.Native.Loop.Checkpoint
import Remo.Native.State.Mutation

/-!
# The agent loop

`run_agent_loop_impl` and `execute_step`, as far as they decide which events go to the sink,
what the run lifecycle says, and what the checkpoints record. What hooks, tools, the model and
the other ends of the channels do is read from a script.
-/

namespace Remo

def RunStatus.str : RunStatus → String
  | created => "created"
  | running => "running"
  | waiting => "waiting"
  | done => "done"

/-! ## What a run leaves behind -/

/-- The part of a checkpointed run record that the loop decides. -/
structure RunProjection where
  status : RunStatus
  terminationReason : Option TerminationReason
  finalOutput : Option String
  errorMessage : Option String
  steps : Nat
  inputTokens : UInt64
  outputTokens : UInt64
deriving Repr, DecidableEq

/-- What `wait_for_resume_or_cancel` returned. -/
inductive WaitOutcome where
  | resumed
  | inboxMessages
  | cancelled
  | noDecisionChannel
deriving Repr, DecidableEq

/-- What happens in a run, in order: events are emitted, the lifecycle moves, tokens are
    counted, waits end, and checkpoints are written. -/
inductive LoopEntry where
  | emit (event : AgentEvent)
  | committed (update : RunLifecycleUpdate)
  | tokens (input output : UInt64)
  | waited (outcome : WaitOutcome)
  | checkpoint (record : RunProjection)
deriving Repr, DecidableEq

/-- The checkpoints written so far. -/
def LoopEntry.record? : LoopEntry → Option RunProjection
  | checkpoint record => some record
  | _ => none

/-- The local variables of the loop, with the lifecycle in its store. -/
structure LoopRun where
  lifecycle : RunLifecycleState
  totalInputTokens : UInt64
  totalOutputTokens : UInt64
  steps : Nat
  entries : List LoopEntry
deriving Repr, DecidableEq

namespace LoopRun

def push (run : LoopRun) (entry : LoopEntry) : LoopRun :=
  { run with entries := run.entries ++ [entry] }

def commit (run : LoopRun) (update : RunLifecycleUpdate) : LoopRun :=
  { run.push (.committed update) with lifecycle := run.lifecycle.apply update }

def saturatingAdd (a b : UInt64) : UInt64 :=
  if a.toNat + b.toNat < 0x10000000000000000 then a + b else 0xFFFFFFFFFFFFFFFF

/-- A stream adds what it used to the totals. -/
def addTokens (run : LoopRun) (input output : UInt64) : LoopRun :=
  { run.push (.tokens input output) with
    totalInputTokens := saturatingAdd run.totalInputTokens input
    totalOutputTokens := saturatingAdd run.totalOutputTokens output }

end LoopRun

/-- How the loop fails. A cancelled phase is told apart, since it ends a step without failing
    the run; `unfinished` is a script that ends before the run does. -/
inductive LoopError where
  | failed (message : String)
  | cancelledPhase
  | unfinished
deriving Repr, DecidableEq

abbrev LoopM := Method LoopError LoopRun

/-! ## Scripts -/

inductive PhaseResult where
  | ok
  | cancelled
  | error (message : String)
deriving Repr, DecidableEq

/-- What the hooks of a phase do: stop policies end the run with a done reason. -/
structure PhaseRun where
  stops : List (String × UInt64)
  result : PhaseResult
deriving Repr, DecidableEq

/-- What a batch of tool calls does. -/
structure ToolsRun where
  events : List StepEvent
  stops : List (String × UInt64)
  error : Option String
  cancelled : Bool
  blocked : Option String
  suspended : Bool
deriving Repr, DecidableEq

/-- What stands at the boundary behind a step that ended naturally. `taskEvent` is what a
    sub-agent with an inbox receives while tasks are pending; `false` is a closed inbox. -/
structure NaturalBoundary where
  error : Option String
  newMessages : Bool
  pendingWork : Bool
  taskEvent : Option Bool
deriving Repr, DecidableEq

/-- What resuming replays. -/
structure Replay where
  events : List StepEvent
  stops : List (String × UInt64)
  error : Option String
deriving Repr, DecidableEq

/-- How one wait for decisions ends. -/
inductive WaitScript where
  | error (message : String)
  | resumed (replay : Replay) (stillSuspended : Bool)
  | inboxMessages (error : Option String) (appended : Bool)
  | cancelled
  | noDecisionChannel
deriving Repr, DecidableEq

/-- What one step meets. -/
structure StepScript where
  handoffError : Option String
  cancelledAtStart : Bool
  stepStart : PhaseRun
  beforeInference : PhaseRun
  inferenceEvents : List StepEvent
  usage : List (UInt64 × UInt64)
  inferenceError : Option String
  cancelledAfterInference : Bool
  afterInference : PhaseRun
  tools : Option ToolsRun
  stepEnd : PhaseRun
  natural : NaturalBoundary
  waits : List WaitScript
  nextStepError : Option String
  nextStepMessages : Bool
deriving Repr, DecidableEq

/-- What a whole activation of a run meets. `checkpointFails n` fails the `n`-th checkpoint. -/
structure RunScript where
  threadId : String
  runId : String
  isContinuation : Bool
  pendingBoundary : Bool
  clock : Nat → UInt64
  checkpointFails : Nat → Option String
  replay : Replay
  runStart : PhaseRun
  steps : List StepScript
  runEnd : PhaseRun
  response : String

namespace AgentLoop

/-! ## Primitives -/

section Primitives

variable (script : RunScript)

def fail (error : LoopError) : LoopM α := fun run => (.error error, run)

/-- Return a value. -/
def ret (value : α) : LoopM α := fun run => (.ok value, run)

def note (entry : LoopEntry) : LoopM Unit := fun run => (.ok (), run.push entry)

def emit (event : AgentEvent) : LoopM Unit := note (.emit event)

def emitAll (events : List StepEvent) : LoopM Unit := fun run =>
  (.ok (), { run with entries := run.entries ++ events.map fun event => .emit (.inStep event) })

/-- `commit_update::<RunLifecycle>`. A transition that is not allowed is skipped, and the step
    counter panics on overflow. -/
def commitUpdate (update : UInt64 → RunLifecycleUpdate) : LoopM Unit := fun run =>
  let update := update (script.clock run.entries.length)
  if !run.lifecycle.status.canTransitionTo update.targetStatus then (.ok (), run)
  else
    match update with
    | .stepCompleted _ =>
      if run.lifecycle.stepCount.toNat + 1 = 0x100000000 then
        (.error (.failed "attempt to add with overflow"), run)
      else
        (.ok (), run.commit update)
    | _ => (.ok (), run.commit update)

/-- The stop policies among the hooks commit their done reasons. -/
def stopAll (stops : List (String × UInt64)) : LoopM Unit := fun run =>
  let lifecycle := stops.foldl (fun lifecycle stop => lifecycle.apply (.done stop.1 stop.2))
    run.lifecycle
  (.ok (), { run with lifecycle := lifecycle })

/-- `run_phase_with_context`. -/
def runPhase (phase : PhaseRun) : LoopM PhaseResult :=
  Method.bind (stopAll phase.stops) fun _ => ret phase.result

/-- The record of a checkpoint. -/
def projection (run : LoopRun) (termination : Option TerminationReason)
    (finalOutput errorMessage : Option String) : RunProjection :=
  let terminal := run.lifecycle.status.isTerminal
  { status := run.lifecycle.status
    terminationReason := if terminal then termination else none
    finalOutput := if terminal then finalOutput else none
    errorMessage := if terminal then errorMessage else none
    steps := run.lifecycle.stepCount.toNat
    inputTokens := run.totalInputTokens
    outputTokens := run.totalOutputTokens }

/-- `persist_checkpoint` with a store. -/
def persist (termination : Option TerminationReason) (finalOutput errorMessage : Option String) :
    LoopM Unit := fun run =>
  match script.checkpointFails (run.entries.filterMap LoopEntry.record?).length with
  | some message => (.error (.failed message), run)
  | none =>
    (.ok (), run.push (.checkpoint (projection run termination finalOutput errorMessage)))

def countTokens (usage : List (UInt64 × UInt64)) : LoopM Unit := fun run =>
  (.ok (), usage.foldl (fun run used => run.addTokens used.1 used.2) run)

/-- `check_termination`: a reason to stop when the lifecycle has left the running state. -/
def checkTermination (lifecycle : RunLifecycleState) : Option TerminationReason :=
  match lifecycle.status with
  | .created => none
  | .running => none
  | .done => some (.fromDoneReason (lifecycle.statusReason.getD "unknown"))
  | .waiting => if lifecycle.statusReason = some "awaiting_tasks" then none else some .suspended

/-- Fail with a message, when there is one. -/
def failWith : Option String → LoopM Unit
  | some message => fail (.failed message)
  | none => ret ()

end Primitives

/-! ## Steps -/

inductive StepOutcome where
  | naturalEnd
  | continue
  | blocked (reason : String)
  | suspended
  | cancelled
  | terminated (reason : TerminationReason)
deriving Repr, DecidableEq

section Steps

variable (script : RunScript)

/-- `complete_step`. -/
def completeStep (stepEnd : PhaseRun) : LoopM Unit :=
  Method.bind (commitUpdate script .stepCompleted) fun _ =>
  Method.bind (runPhase stepEnd) fun result =>
  match result with
  | .cancelled => fail .cancelledPhase
  | .error message => fail (.failed message)
  | .ok =>
    Method.bind (persist script none none none) fun _ =>
    Method.bind (emit .stateSnapshot) fun _ =>
    emit .stepEnd

/-- The run is cancelled in a step. -/
def cancelStep : LoopM StepOutcome :=
  Method.bind (commitUpdate script (.done "cancelled")) fun _ => ret .cancelled

/-- Go on when the lifecycle is still running. -/
def unlessTerminated (next : LoopM StepOutcome) : LoopM StepOutcome := fun run =>
  match checkTermination run.lifecycle with
  | some reason => (.ok (.terminated reason), run)
  | none => next run

/-- Run a phase and check for termination afterwards. -/
def runPhaseAndCheck (phase : PhaseRun) (next : LoopM StepOutcome) : LoopM StepOutcome :=
  Method.bind (runPhase phase) fun result =>
  match result with
  | .cancelled => ret .cancelled
  | .error message => fail (.failed message)
  | .ok => unlessTerminated next

/-- `run_before_inference`: a cancelled phase is an error here. -/
def runBeforeInference (phase : PhaseRun) (next : LoopM StepOutcome) : LoopM StepOutcome :=
  Method.bind (runPhase phase) fun result =>
  match result with
  | .cancelled => fail .cancelledPhase
  | .error message => fail (.failed message)
  | .ok => unlessTerminated next

/-- The part of a step behind the answer of the model. -/
def executeTools (tools : ToolsRun) : LoopM StepOutcome :=
  Method.bind (emitAll tools.events) fun _ =>
  Method.bind (stopAll tools.stops) fun _ =>
  Method.bind (failWith tools.error) fun _ =>
  if tools.cancelled then cancelStep script
  else
    match tools.blocked with
    | some reason =>
      Method.bind (commitUpdate script (.done s!"blocked:{reason}")) fun _ =>
        ret (.blocked reason)
    | none => unlessTerminated (ret (if tools.suspended then .suspended else .continue))

/-- Execute a single step of the agent loop. -/
def executeStep (step : StepScript) : LoopM StepOutcome :=
  if step.cancelledAtStart then cancelStep script
  else
    runPhaseAndCheck step.stepStart <|
    runBeforeInference step.beforeInference <|
    Method.bind (emitAll step.inferenceEvents) fun _ =>
    Method.bind (countTokens step.usage) fun _ =>
    Method.bind (failWith step.inferenceError) fun _ =>
    Method.bind (emit (.inStep .inferenceComplete)) fun _ =>
    if step.cancelledAfterInference then cancelStep script
    else
      runPhaseAndCheck step.afterInference <|
      match step.tools with
      | none => Method.bind (completeStep script step.stepEnd) fun _ => ret .naturalEnd
      | some tools => executeTools script tools

/-- A cancelled phase ends the step. -/
def catchCancelled (step : LoopM StepOutcome) : LoopM StepOutcome := fun run =>
  match step run with
  | (.error .cancelledPhase, run) => (.ok .cancelled, run)
  | result => result

end Steps

/-! ## The run -/

section Run

variable (script : RunScript)

/-- `detect_and_replay_resume`. -/
def replayResume (replay : Replay) : LoopM Unit :=
  Method.bind (emitAll replay.events) fun _ =>
  Method.bind (stopAll replay.stops) fun _ =>
  failWith replay.error

def emitRunStart : LoopM Unit := emit (.runStart script.threadId script.runId)

def emitRunFinish (result : Option RunFinishResult) (termination : TerminationReason) :
    LoopM Unit :=
  emit (.runFinish script.threadId script.runId result termination)

/-- Wait for decisions. The loop goes on (`none`), or ends for a reason. -/
def waitLoop : List WaitScript → LoopM (Option TerminationReason)
  | [] => fail .unfinished
  | .error message :: _ => fail (.failed message)
  | .resumed replay stillSuspended :: waits =>
    Method.bind (note (.waited .resumed)) fun _ =>
    Method.bind (emitRunStart script) fun _ =>
    Method.bind (replayResume replay) fun _ =>
    if stillSuspended then
      Method.bind (emit .stateSnapshot) fun _ =>
      Method.bind (emitRunFinish script none .suspended) fun _ =>
      waitLoop waits
    else
      Method.bind (commitUpdate script .setRunning) fun _ => ret none
  | .inboxMessages error appended :: waits =>
    Method.bind (note (.waited .inboxMessages)) fun _ =>
    Method.bind (failWith error) fun _ =>
    if appended && !script.pendingBoundary then
      Method.bind (persist script none none none) fun _ => waitLoop waits
    else waitLoop waits
  | .cancelled :: _ =>
    Method.bind (note (.waited .cancelled)) fun _ => ret (some .cancelled)
  | .noDecisionChannel :: _ =>
    Method.bind (note (.waited .noDecisionChannel)) fun _ => ret (some .suspended)

/-- What follows a step that ended naturally. -/
def afterNaturalEnd (boundary : NaturalBoundary) : LoopM (Option TerminationReason) :=
  Method.bind (failWith boundary.error) fun _ =>
  if boundary.newMessages then ret none
  else if boundary.pendingWork then
    match boundary.taskEvent with
    | some true => ret none
    | some false => ret (some .cancelled)
    | none =>
      Method.bind (commitUpdate script fun now => .setWaiting now "awaiting_tasks") fun _ =>
        ret (some .naturalEnd)
  else ret (some .naturalEnd)

/-- What the loop does with the outcome of a step. -/
def afterStep (step : StepScript) : StepOutcome → LoopM (Option TerminationReason)
  | .cancelled =>
    Method.bind (completeStep script step.stepEnd) fun _ => ret (some .cancelled)
  | .naturalEnd => afterNaturalEnd script step.natural
  | .blocked reason =>
    Method.bind (completeStep script step.stepEnd) fun _ => ret (some (.blocked reason))
  | .terminated reason =>
    Method.bind (completeStep script step.stepEnd) fun _ => ret (some reason)
  | .suspended =>
    Method.bind (commitUpdate script fun now => .setWaiting now "suspended") fun _ =>
    Method.bind (completeStep script step.stepEnd) fun _ =>
    Method.bind (emit .stateSnapshot) fun _ =>
    Method.bind (emitRunFinish script none .suspended) fun _ =>
    waitLoop script step.waits
  | .continue =>
    Method.bind (completeStep script step.stepEnd) fun _ =>
    Method.bind (failWith step.nextStepError) fun _ =>
    if step.nextStepMessages then ret none
    else fun run => (.ok (checkTermination run.lifecycle), run)

/-- One pass of the main loop. -/
def stepRound (step : StepScript) : LoopM (Option TerminationReason) :=
  Method.bind (fun run => (.ok (), { run with steps := run.steps + 1 })) fun _ =>
  match step.handoffError with
  | some message => ret (some (.blocked s!"handoff resolve failed: {message}"))
  | none =>
    Method.bind (emit .stepStart) fun _ =>
    Method.bind (catchCancelled (executeStep script step)) fun outcome =>
    afterStep script step outcome

/-- The main loop. -/
def runLoop : List StepScript → LoopM TerminationReason
  | [] => fail .unfinished
  | step :: steps =>
    Method.bind (stepRound script step) fun ended =>
    match ended with
    | some termination => ret termination
    | none => runLoop steps

structure RunResult where
  response : String
  termination : TerminationReason
  steps : Nat
deriving Repr, DecidableEq

/-- The lifecycle is set to done, unless the run waits. -/
def finishLifecycle (termination : TerminationReason) : LoopM Unit := fun run =>
  let (targetStatus, doneReason) := termination.toRunStatus
  if targetStatus.isTerminal && run.lifecycle.status != .waiting then
    commitUpdate script (.done (doneReason.getD "unknown")) run
  else (.ok (), run)

/-- The last checkpoint, and the last `RunFinish`. -/
def concludeRun (termination : TerminationReason) : LoopM RunResult :=
  Method.bind (persist script (some termination)
    (if script.response.isEmpty then none else some script.response)
    (match termination with
      | .error message => some message
      | _ => none)) fun _ =>
  Method.bind (emit .stateSnapshot) fun _ =>
  Method.bind (fun run => emitRunFinish script
    (some ⟨script.response, run.lifecycle.status.str, run.lifecycle.statusReason⟩)
    termination run) fun _ =>
  fun run => (.ok ⟨script.response, termination, run.steps⟩, run)

/-- What follows the main loop. -/
def finishRun (termination : TerminationReason) : LoopM RunResult :=
  Method.bind (finishLifecycle script termination) fun _ =>
  Method.bind (runPhase script.runEnd) fun result =>
  match result with
  | .error message => fail (.failed message)
  | _ => concludeRun script termination

/-- `run_agent_loop_impl`. -/
def runAgentLoop : LoopM RunResult :=
  Method.bind (commitUpdate script (if script.isContinuation then .setRunning
    else .start script.runId)) fun _ =>
  Method.bind (emitRunStart script) fun _ =>
  Method.bind (replayResume script.replay) fun _ =>
  Method.bind (runPhase script.runStart) fun result =>
  match result with
  | .cancelled => ret ⟨"", .cancelled, 0⟩
  | .error message => fail (.failed message)
  | .ok =>
    Method.bind (runLoop script script.steps) fun termination =>
    finishRun script termination

end Run

/-! ## Preparing a run -/

/-- The scope `RunLifecycle` is registered with. -/
def RunLifecycle.scope : KeyScope := .run

/-- `restore_thread_scoped` at the lifecycle key: only thread-scoped keys are read. -/
def restoreThreadScoped (persisted : Option RunLifecycleState) (lifecycle : RunLifecycleState) :
    RunLifecycleState :=
  if RunLifecycle.scope ≠ .thread then lifecycle else persisted.getD lifecycle

/-- `prepare_local_root_execution`: a new store, with what is restored from the run record and
    the thread state. -/
def prepareLocalRootExecution (recordState threadState : Option RunLifecycleState) : LoopRun where
  lifecycle := restoreThreadScoped threadState (restoreThreadScoped recordState .default)
  totalInputTokens := 0
  totalOutputTokens := 0
  steps := 0
  entries := []

end AgentLoop

end Remo
