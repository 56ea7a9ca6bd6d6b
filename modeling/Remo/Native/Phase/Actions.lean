import Remo.ForStd.WorkQueue
import Remo.Native.Phase.Engine

/-!
# Scheduled actions

The execute stage of a phase. The queued actions of the phase that have a handler are handled in
rounds until none is left. An action whose handler or command fails is moved to the failed
actions.
-/

namespace Remo

/-! ## The failed actions -/

structure FailedScheduledAction where
  id : Nat
  action : ScheduledAction
  error : String

inductive FailedScheduledActionUpdate where
  | push (entry : FailedScheduledAction)
  | remove (id : Nat)

/-- `FailedScheduledActions::apply`. -/
def applyFailedUpdate (value : List FailedScheduledAction) :
    FailedScheduledActionUpdate → List FailedScheduledAction
  | .push entry => value ++ [entry]
  | .remove id => value.filter fun entry => entry.id != id

/-- The state keys with `FailedScheduledActions`, which is `none`, and the keys of the
    program. -/
def withFailedKey (keys : StateKeys) : StateKeys where
  Key := Option keys.Key
  decEq := inferInstance
  key
    | none => "__runtime.failed_scheduled_actions"
    | some K => keys.key K
  merge
    | none => .exclusive
    | some K => keys.merge K
  Value
    | none => List FailedScheduledAction
    | some K => keys.Value K
  Update
    | none => FailedScheduledActionUpdate
    | some K => keys.Update K
  default
    | none => ([] : List FailedScheduledAction)
    | some K => keys.default K
  apply
    | none => applyFailedUpdate
    | some K => keys.apply K

/-- The state keys under the execute stage: the queue, the failed actions, and the keys of the
    program. -/
abbrev actionKeys (keys : StateKeys) : StateKeys := runtimeKeys (withFailedKey keys)

variable {keys : StateKeys}

/-- The key of the failed actions. -/
def failedScheduledActions (keys : StateKeys) : (actionKeys keys).Key :=
  @programKey (withFailedKey keys) (none : Option keys.Key)

/-- An update of the failed actions. -/
def failedUpdate (keys : StateKeys) (update : FailedScheduledActionUpdate) :
    (actionKeys keys).Update (failedScheduledActions keys) :=
  update

/-- The failed actions. -/
def failedEntries (map : StateMap (actionKeys keys)) : List FailedScheduledAction :=
  (map (failedScheduledActions keys)).getD ((actionKeys keys).default _)

/-! ## Handlers -/

/-- What a handler does with a payload. The number counts the calls of the run before, so that a
    handler may answer every call differently. -/
abbrev ActionHandler (keys : StateKeys) : Type :=
  Nat → PhaseContext (withFailedKey keys) → Value → Except StateError (StateCommand (actionKeys keys))

/-- Per-run execution environment, with the handlers of scheduled actions. -/
structure ActionEnv (keys : StateKeys) where
  phaseHooks : Phase → List (TaggedPhaseHook (withFailedKey keys))
  scheduledActionHandlers : String → Option (ActionHandler keys)
  effectHandlers : String → Option (Value → Snapshot (actionKeys keys) → Bool)

/-- What submitting reads of the environment. -/
def ActionEnv.toExecutionEnv (self : ActionEnv keys) : ExecutionEnv (withFailedKey keys) where
  phaseHooks := self.phaseHooks
  scheduledActionHandlers key := (self.scheduledActionHandlers key).isSome
  effectHandlers := self.effectHandlers

/-! ## Errors -/

/-- The debug text of a phase. -/
def Phase.debug : Phase → String
  | .runStart => "RunStart"
  | .stepStart => "StepStart"
  | .beforeInference => "BeforeInference"
  | .afterInference => "AfterInference"
  | .toolGate => "ToolGate"
  | .beforeToolExecute => "BeforeToolExecute"
  | .afterToolExecute => "AfterToolExecute"
  | .stepEnd => "StepEnd"
  | .runEnd => "RunEnd"

/-- `StateError::to_string`. -/
def StateError.text : StateError → String
  | .revisionConflict expected actual =>
    s!"revision conflict: expected {expected}, actual {actual}"
  | .mutationBaseRevisionMismatch left right =>
    s!"patch base revision mismatch: {left} vs {right}"
  | .unknownKey key => s!"unknown key: {key}"
  | .phaseRunLoopExceeded phase maxRounds =>
    "phase " ++ phase.debug ++ s!" did not converge after {maxRounds} rounds"
  | .unknownScheduledActionHandler key => s!"no scheduled action handler registered for {key}"
  | .unknownEffectHandler key => s!"no effect handler registered for {key}"
  | .parallelMergeConflict key => s!"parallel merge conflict on exclusive key: {key}"
  | .cancelled => "operation cancelled"

/-! ## The execute stage -/

/-- A handled action with the queue it was found in, the actions that it queued, and its error.
    The code keeps the counts only. -/
structure HandledAction where
  step : WorkQueue.Handled ScheduledActionEnvelope
  error : Option String

structure PhaseRunReport where
  phase : Phase
  rounds : Nat
  processedScheduledActions : Nat
  skippedScheduledActions : Nat
  failedScheduledActions : Nat
  generatedEffects : Nat
  effectReport : EffectDispatchReport
deriving Repr, DecidableEq

/-- The totals of the stage so far, and the actions handled so far. -/
structure ExecuteTotals where
  processed : Nat
  failed : Nat
  effects : Nat
  effectReport : EffectDispatchReport
  handled : List HandledAction

namespace ExecuteTotals

def zero : ExecuteTotals := ⟨0, 0, 0, .zero, []⟩

/-- One more action has been processed. -/
def addProcessed (self : ExecuteTotals) (report : EffectDispatchReport)
    (step : WorkQueue.Handled ScheduledActionEnvelope) : ExecuteTotals :=
  { self with
    processed := self.processed + 1
    effectReport := self.effectReport.add report
    handled := self.handled ++ [⟨step, none⟩] }

/-- One more action has failed. -/
def addFailed (self : ExecuteTotals) (error : String)
    (step : WorkQueue.Handled ScheduledActionEnvelope) : ExecuteTotals :=
  { self with failed := self.failed + 1, handled := self.handled ++ [⟨step, some error⟩] }

end ExecuteTotals

/-- Move an action from the queue to the failed actions. -/
def deadLetter (envelope : ScheduledActionEnvelope) (error : String) :
    PhaseMethod (withFailedKey keys) Unit := fun runtime =>
  let patch := (MutationBatch.new.update (pendingScheduledActions (withFailedKey keys))
    (queueUpdate (withFailedKey keys) (.remove envelope.id))).update (failedScheduledActions keys)
      (failedUpdate keys (.push ⟨envelope.id, envelope.action, error⟩))
  match runtime.store.commit patch with
  | .error e => (.error e, runtime)
  | .ok (_, store) => (.ok (), { runtime with store })

/-- The queued actions of the phase with their handlers. -/
def matchingActions (env : ActionEnv keys) (phase : Phase)
    (queued : List ScheduledActionEnvelope) :
    List (ScheduledActionEnvelope × ActionHandler keys) :=
  queued.filterMap fun envelope =>
    if envelope.action.phase = phase then
      (env.scheduledActionHandlers envelope.action.key).map fun handler => (envelope, handler)
    else none

/-- Handle one action: run its handler, take it out of the queue, and commit. -/
def executeAction (env : ActionEnv keys) (baseCtx : PhaseContext (withFailedKey keys))
    (envelope : ScheduledActionEnvelope) (handler : ActionHandler keys) (totals : ExecuteTotals) :
    PhaseMethod (withFailedKey keys) ExecuteTotals := fun runtime =>
  let found := queueEntries runtime.store.inner.ext
  let ctx := baseCtx.withSnapshot runtime.store.snapshot
  match handler totals.handled.length ctx envelope.action.payload with
  | .error err =>
    Method.map (fun _ => totals.addFailed err.text ⟨envelope, found, []⟩)
      (deadLetter envelope err.text) runtime
  | .ok command =>
    let totals := { totals with effects := totals.effects + command.effects.length }
    let patch := command.patch.update (pendingScheduledActions (withFailedKey keys))
      (queueUpdate (withFailedKey keys) (.remove envelope.id))
    match submitCommandInner env.toExecutionEnv { command with patch } runtime with
    | (.ok report, after) =>
      (.ok (totals.addProcessed report.effectReport
        ⟨envelope, found, envelopes runtime.nextId command.scheduledActions⟩), after)
    | (.error err, after) =>
      let error := "failed to submit action command: " ++ err.text
      Method.map (fun _ => totals.addFailed error ⟨envelope, found, []⟩)
        (deadLetter envelope error) after

/-- Handle the actions of a round in order. -/
def executeMatching (env : ActionEnv keys) (baseCtx : PhaseContext (withFailedKey keys)) :
    List (ScheduledActionEnvelope × ActionHandler keys) → ExecuteTotals →
      PhaseMethod (withFailedKey keys) ExecuteTotals
  | [], totals => fun runtime => (.ok totals, runtime)
  | (envelope, handler) :: rest, totals =>
    Method.bind (executeAction env baseCtx envelope handler totals) fun totals =>
      executeMatching env baseCtx rest totals

/-- The rounds, with the number of rounds that are left. -/
def executeRounds (env : ActionEnv keys) (baseCtx : PhaseContext (withFailedKey keys))
    (maxRounds : Nat) : Nat → ExecuteTotals →
      PhaseMethod (withFailedKey keys) (PhaseRunReport × List HandledAction)
  | 0, _ => fun runtime => (.error (.phaseRunLoopExceeded baseCtx.phase maxRounds), runtime)
  | left + 1, totals => fun runtime =>
    let rounds := maxRounds - left
    let queued := queueEntries runtime.store.inner.ext
    let actions := matchingActions env baseCtx.phase queued
    if actions.isEmpty then
      let skipped :=
        if rounds = 1 then (queued.filter fun e => e.action.phase ≠ baseCtx.phase).length else 0
      (.ok ({ phase := baseCtx.phase
              rounds := rounds
              processedScheduledActions := totals.processed
              skippedScheduledActions := skipped
              failedScheduledActions := totals.failed
              generatedEffects := totals.effects
              effectReport := totals.effectReport }, totals.handled), runtime)
    else
      Method.bind (executeMatching env baseCtx actions totals)
        (fun totals => executeRounds env baseCtx maxRounds left totals) runtime

/-- Convergence loop that processes pending scheduled actions matching the phase until no more
    remain. -/
def executeScheduledActions (env : ActionEnv keys) (baseCtx : PhaseContext (withFailedKey keys))
    (maxRounds : Nat) :
    PhaseMethod (withFailedKey keys) (PhaseRunReport × List HandledAction) :=
  executeRounds env baseCtx maxRounds maxRounds .zero

end Remo
