import Mathlib.Data.List.Chain
import Remo.Spec.Loop.RunTrace

/-!
# The outcome and the counters of a run

What a run tells of its outcome, and what its checkpoints tell of its use.

## Key results

- `finishRun_ok` the end of a run
- `coherent_iff` when the three agree
- `counted_runAgentLoop` the counters in a checkpoint are what the activation used until then
- `records_isChain_iff` when the checkpointed counters of a run never go backwards
-/

/-! ## The outcome of a run

A run that returns tells its outcome three times: to its caller, in the last `RunFinish` event,
and in the last checkpointed record. The three agree, and every start has its finish, except
where the start phase is cancelled, where a wait ends the run, and where a stop policy ends a run
that stopped to await its tasks.
-/

namespace Remo

open Relation AgentLoop

/-! ## What a run tells -/

/-- The `RunStart` or `RunFinish` event that was emitted. -/
def LoopEntry.runEvent? : LoopEntry → Option AgentEvent
  | .emit event => if event.isRunEvent then some event else none
  | _ => none

def LoopRun.runEvents (run : LoopRun) : List AgentEvent :=
  run.entries.filterMap LoopEntry.runEvent?

def AgentEvent.isRunStart : AgentEvent → Bool
  | runStart _ _ => true
  | _ => false

def AgentEvent.isRunFinish : AgentEvent → Bool
  | runFinish _ _ _ _ => true
  | _ => false

/-- The reason a `RunFinish` gives. -/
def AgentEvent.termination? : AgentEvent → Option TerminationReason
  | runFinish _ _ _ termination => some termination
  | _ => none

/-- The records checkpointed so far. -/
def LoopRun.records (run : LoopRun) : List RunProjection :=
  run.entries.filterMap LoopEntry.record?

/-- The last checkpoint says what the caller is told. A run that stopped to await its tasks is
    recorded as waiting. -/
def RecordCoherent (result : RunResult) (run : LoopRun) : Prop :=
  result.termination.toRunStatus.1 = .done → ∃ record ∈ run.records.getLast?,
    if run.awaitsTasks then record.status = .waiting
    else record.status = .done ∧ record.terminationReason = some result.termination

/-- What the run told its caller, its sink and its store agrees. -/
structure Coherent (result : RunResult) (run : LoopRun) : Prop where
  balanced : run.runEvents.countP AgentEvent.isRunFinish =
    run.runEvents.countP AgentEvent.isRunStart
  finished : run.runEvents.getLast?.bind AgentEvent.termination? = some result.termination
  recorded : RecordCoherent result run

/-! ## The end of a run -/

theorem status_foldl_done (stops : List (String × UInt64)) (lifecycle : RunLifecycleState) :
    (stops.foldl (fun lifecycle stop => lifecycle.apply (.done stop.1 stop.2))
      lifecycle).status = if stops = [] then lifecycle.status else .done := by
  induction stops generalizing lifecycle with
  | nil => rfl
  | cons stop stops ih =>
    rw [List.foldl_cons, ih, if_neg (List.cons_ne_nil _ _)]
    split
    next => exact lifecycle.status_apply_done _ _
    next => rfl

variable {script : RunScript}

/-- A run that is awake is done afterwards, if that is what its reason says. A waiting run
    stays as it is. -/
theorem status_finishLifecycle {termination : TerminationReason} {run : LoopRun}
    (hdone : termination.toRunStatus.1 = .done) :
    (finishLifecycle script termination run).2.lifecycle.status =
      if run.lifecycle.status = .waiting then .waiting else .done := by
  unfold finishLifecycle
  dsimp only
  rw [hdone]
  by_cases hwaiting : run.lifecycle.status = .waiting
  · simp [hwaiting]
  · have hcond : (RunStatus.done.isTerminal && run.lifecycle.status != .waiting) = true := by
      simp [RunStatus.isTerminal, hwaiting]
    rw [if_pos hcond, if_neg hwaiting]
    simp only [commitUpdate, RunLifecycleUpdate.targetStatus,
      RunStatus.canTransitionTo_done, Bool.not_true, Bool.false_eq_true, if_false]
    exact run.lifecycle.status_apply_done _ _

theorem records_push {run : LoopRun} {entry : LoopEntry} (h : entry.record? = none) :
    (run.push entry).records = run.records := by
  simp [LoopRun.records, LoopRun.push, h]

/-- The end of a run writes its last checkpoint, and then its last `RunFinish`. -/
theorem finishRun_ok {termination : TerminationReason} {run run' : LoopRun} {result : RunResult}
    (h : finishRun script termination run = (.ok result, run')) :
    result.termination = termination ∧
      run'.boundaries = run.boundaries ++ [script.finished termination] ∧
      run'.awaitsTasks = run.awaitsTasks ∧
      ∃ record ∈ run'.records.getLast?,
        record.status = (if script.runEnd.stops = [] then
          (finishLifecycle script termination run).2.lifecycle.status else .done) ∧
        (record.status = .done → record.terminationReason = some termination) := by
  obtain ⟨_, run₁, hlifecycle, hfrom₁⟩ := Method.bind_eq_ok h
  obtain ⟨phase, run₂, hphase, hfrom₂⟩ := Method.bind_eq_ok hfrom₁
  have hconclude : concludeRun script termination run₂ = (.ok result, run') := by
    cases phase with
    | ok => exact hfrom₂
    | cancelled => exact hfrom₂
    | error message => cases hfrom₂
  have hstill : run.Still run₂ :=
    ((quiet_finishLifecycle script termination).still_of_eq hlifecycle).trans
      ((quiet_runPhase script.runEnd).still_of_eq hphase)
  have hstatus : run₂.lifecycle.status = if script.runEnd.stops = [] then
      (finishLifecycle script termination run).2.lifecycle.status else .done := by
    rw [hlifecycle, ← status_foldl_done]
    cases hphase
    rfl
  obtain ⟨_, run₃, hpersist, hfrom₃⟩ := Method.bind_eq_ok hconclude
  obtain ⟨_, run₄, hsnapshot, hfrom₄⟩ := Method.bind_eq_ok hfrom₃
  obtain ⟨_, run₅, hfinish, hfrom₅⟩ := Method.bind_eq_ok hfrom₄
  have hquiet : run₂.Still run₄ := ((quiet_persist script _ _ _).still_of_eq hpersist).trans
    (Does.still_of_eq (quiet_emit rfl) hsnapshot)
  have hrecords : run'.records = run₃.records := by
    cases hfrom₅
    cases hfinish
    cases hsnapshot
    exact (records_push rfl).trans (records_push rfl)
  cases hfrom₅
  refine ⟨rfl, ?_, ?_, ?_⟩
  · cases hfinish
    show (emitRunFinish script _ termination run₄).2.boundaries = _
    rw [boundaries_emitRunFinish, hquiet.boundaries, hstill.boundaries]
  · rw [← hstill.awaitsTasks, ← hquiet.awaitsTasks]
    cases hfinish
    exact awaitsTasks_push rfl
  · rw [hrecords, ← hstatus]
    unfold persist at hpersist
    split at hpersist
    next => cases hpersist
    next =>
      cases hpersist
      refine ⟨_, by simp [LoopRun.records, LoopRun.push, LoopEntry.record?]; rfl, rfl, ?_⟩
      intro hdone
      have hterminal : run₂.lifecycle.status.isTerminal = true := by
        rw [show run₂.lifecycle.status = .done from hdone]
        rfl
      simp [projection, hterminal]

/-- The last three entries of a run. -/
theorem finishRun_entries {termination : TerminationReason} {run run' : LoopRun}
    {result : RunResult} (h : finishRun script termination run = (.ok result, run')) :
    ∃ before record answer, run'.entries = before ++ [.checkpoint record, .emit .stateSnapshot,
      .emit (.runFinish script.threadId script.runId answer termination)] := by
  obtain ⟨_, run₁, -, hfrom₁⟩ := Method.bind_eq_ok h
  obtain ⟨phase, run₂, -, hfrom₂⟩ := Method.bind_eq_ok hfrom₁
  have hconclude : concludeRun script termination run₂ = (.ok result, run') := by
    cases phase with
    | ok => exact hfrom₂
    | cancelled => exact hfrom₂
    | error message => cases hfrom₂
  obtain ⟨_, run₃, hpersist, hfrom₃⟩ := Method.bind_eq_ok hconclude
  obtain ⟨_, run₄, hsnapshot, hfrom₄⟩ := Method.bind_eq_ok hfrom₃
  obtain ⟨_, run₅, hfinish, hfrom₅⟩ := Method.bind_eq_ok hfrom₄
  cases hfrom₅
  cases hfinish
  cases hsnapshot
  unfold persist at hpersist
  split at hpersist
  next => cases hpersist
  next =>
    cases hpersist
    have hpushed : ∀ a b c, ((run₂.push a).push b).push c =
        { run₂ with entries := run₂.entries ++ [a, b, c] } := by
      intro a b c
      simp [LoopRun.push]
    rw [hpushed]
    exact ⟨run₂.entries, _, _, rfl⟩

/-! ## The start of a run -/

/-- The lifecycle of a new store starts, or goes on. -/
theorem start_ok (script : RunScript) (recordState threadState : Option RunLifecycleState) :
    let run := (commitUpdate script (if script.isContinuation then .setRunning
      else .start script.runId) (prepareLocalRootExecution recordState threadState)).2
    run.Awake ∧ run.boundaries = [] ∧ run.awaitsTasks = false := by
  have hrunning : RunStatus.running ≠ .waiting := by decide
  cases script.isContinuation <;> exact ⟨hrunning, rfl, rfl⟩

/-- Resuming writes no checkpoint. -/
theorem records_replayResume (replay : Replay) (run : LoopRun) :
    (replayResume replay run).2.records = run.records := by
  have hevents : (emitAll replay.events run).2.records = run.records := by
    simp only [emitAll, LoopRun.records, List.filterMap_append, List.filterMap_map]
    simp [LoopEntry.record?]
  unfold replayResume failWith
  cases replay.error <;> exact hevents

/-- A run that returns was cancelled in its start phase, or went through the loop. -/
theorem runAgentLoop_ok {recordState threadState : Option RunLifecycleState} {result : RunResult}
    {run' : LoopRun}
    (h : runAgentLoop script (prepareLocalRootExecution recordState threadState) =
      (.ok result, run')) :
    ∃ run : LoopRun, run.Awake ∧ run.awaitsTasks = false ∧ run.boundaries = [script.started] ∧
      (script.runStart.result = .cancelled ∧ run' = run ∧ run.records = [] ∨
        script.runStart.result ≠ .cancelled ∧ ∃ termination run₁,
          runLoop script script.steps run = (.ok termination, run₁) ∧
          finishRun script termination run₁ = (.ok result, run')) := by
  obtain ⟨_, run₁, hstart, hfrom₁⟩ := Method.bind_eq_ok h
  obtain ⟨_, run₂, hemit, hfrom₂⟩ := Method.bind_eq_ok hfrom₁
  obtain ⟨_, run₃, hreplay, hfrom₃⟩ := Method.bind_eq_ok hfrom₂
  obtain ⟨phase, run₄, hphase, hfrom₄⟩ := Method.bind_eq_ok hfrom₃
  have hfirst := start_ok script recordState threadState
  rw [hstart] at hfirst
  obtain ⟨hawake, hbs, hawaits⟩ := hfirst
  have hstill : run₂.Still run₄ := ((quiet_replayResume script.replay).still_of_eq hreplay).trans
    ((quiet_runPhase script.runStart).still_of_eq hphase)
  have hresult : phase = script.runStart.result := by
    cases hphase
    rfl
  have hbs' : run₄.boundaries = [script.started] := by
    rw [hstill.boundaries]
    cases hemit
    show (emitRunStart script run₁).2.boundaries = _
    rw [boundaries_emitRunStart, hbs, List.nil_append]
  have hawaits' : run₄.awaitsTasks = false := by
    rw [hstill.awaitsTasks, ← hawaits]
    cases hemit
    exact awaitsTasks_push rfl
  have hawake' : run₄.Awake := by
    apply hstill.awake
    cases hemit
    exact hawake
  have hrecords : run₄.records = [] := by
    have hnone : run₁.records = [] := by
      have hstart' : (commitUpdate script (if script.isContinuation then .setRunning
          else .start script.runId) (prepareLocalRootExecution recordState threadState)).2 =
          run₁ := by rw [hstart]
      rw [← hstart']
      cases script.isContinuation <;> rfl
    have hemitted : run₂.records = [] := by
      cases hemit
      rw [← hnone]
      exact records_push rfl
    have hreplayed := records_replayResume script.replay run₂
    rw [hreplay, hemitted] at hreplayed
    cases hphase
    exact hreplayed
  refine ⟨run₄, hawake', hawaits', hbs', ?_⟩
  rw [← hresult]
  cases phase with
  | cancelled =>
    cases hfrom₄
    exact .inl ⟨rfl, rfl, hrecords⟩
  | error message => cases hfrom₄
  | ok =>
    obtain ⟨termination, run₅, hloop, hfinish⟩ := Method.bind_eq_ok hfrom₄
    exact .inr ⟨by simp, termination, run₅, hloop, hfinish⟩

/-! ## Events and boundaries -/

def Boundary.isStart : Boundary → Bool
  | start _ _ => true
  | _ => false

def Boundary.isFinish : Boundary → Bool
  | finish _ _ _ => true
  | _ => false

theorem countP_isRunStart (run : LoopRun) :
    run.runEvents.countP AgentEvent.isRunStart = run.boundaries.countP Boundary.isStart := by
  unfold LoopRun.runEvents LoopRun.boundaries
  rw [List.countP_filterMap, List.countP_filterMap]
  congr 1
  funext entry
  cases entry with
  | emit event => cases event <;> rfl
  | _ => rfl

theorem countP_isRunFinish (run : LoopRun) :
    run.runEvents.countP AgentEvent.isRunFinish = run.boundaries.countP Boundary.isFinish := by
  unfold LoopRun.runEvents LoopRun.boundaries
  rw [List.countP_filterMap, List.countP_filterMap]
  congr 1
  funext entry
  cases entry with
  | emit event => cases event <;> rfl
  | _ => rfl

/-- The last event is the `RunFinish` at the last boundary. -/
theorem getLast?_runEvents {run : LoopRun} {bs : List Boundary} {threadId runId : String}
    {termination : TerminationReason}
    (h : run.boundaries = bs ++ [.finish threadId runId termination]) :
    run.runEvents.getLast?.bind AgentEvent.termination? = some termination := by
  obtain ⟨before, rest, hentries, -, hrest⟩ := List.filterMap_eq_append_iff.mp h
  obtain ⟨quiet, entry, after, hsplit, -, hentry, hafter⟩ := List.filterMap_eq_cons_iff.mp hrest
  have hnone : after.filterMap LoopEntry.runEvent? = [] := by
    rw [List.filterMap_eq_nil_iff] at hafter ⊢
    intro entry hmem
    have hboundary := hafter entry hmem
    cases entry with
    | emit event => cases event <;> first | rfl | cases hboundary
    | _ => rfl
  unfold LoopRun.runEvents
  rw [hentries, hsplit]
  cases entry with
  | emit event =>
    cases event with
    | runFinish threadId' runId' result termination' =>
      cases hentry
      have hevent : LoopEntry.runEvent?
          (.emit (.runFinish threadId runId result termination)) =
            some (.runFinish threadId runId result termination) := rfl
      simp [hevent, hnone, AgentEvent.termination?]
    | _ => cases hentry
  | committed _ => cases hentry
  | tokens _ _ => cases hentry
  | waited _ => cases hentry
  | checkpoint _ => cases hentry

/-! ## Starts and finishes -/

@[simp] theorem isStart_started : script.started.isStart = true := rfl

@[simp] theorem isFinish_started : script.started.isFinish = false := rfl

@[simp] theorem isStart_finished (termination : TerminationReason) :
    (script.finished termination).isStart = false := rfl

@[simp] theorem isFinish_finished (termination : TerminationReason) :
    (script.finished termination).isFinish = true := rfl

@[simp] theorem isStart_waited (outcome : WaitOutcome) :
    (Boundary.waited outcome).isStart = false := rfl

@[simp] theorem isFinish_waited (outcome : WaitOutcome) :
    (Boundary.waited outcome).isFinish = false := rfl

theorem countP_waits {bs : List Boundary} {ended : Option TerminationReason}
    (h : Waits script bs ended) :
    bs.countP Boundary.isStart =
      bs.countP Boundary.isFinish + (if ended = none then 1 else 0) := by
  induction h with
  | inboxMessages _ ih => simpa using ih
  | suspendedAgain _ ih =>
    simp [List.countP_cons, ih]
    omega
  | resumed => rfl
  | cancelled => rfl
  | noDecisionChannel => rfl

/-- Every suspension is taken up again, unless a wait ends the run. -/
theorem countP_rounds {bs : List Boundary} {termination : TerminationReason}
    (h : Rounds script bs termination) :
    bs.countP Boundary.isFinish =
      bs.countP Boundary.isStart + (if EndedWaiting bs then 1 else 0) := by
  induction h with
  | ended => rfl
  | endedWaiting hwaits =>
    have hcount := countP_waits hwaits
    have hended := (endedWaiting_of_waits hwaits).mpr (Option.some_ne_none _)
    rw [if_neg (Option.some_ne_none _)] at hcount
    rw [if_pos (endedWaiting_cons_finished.mpr hended)]
    simp [List.countP_cons, hcount]
  | @resumed bs rest termination hwaits _ ih =>
    have hcount := countP_waits hwaits
    have hended : EndedWaiting (script.finished .suspended :: bs ++ rest) ↔ EndedWaiting rest := by
      rw [endedWaiting_append, endedWaiting_cons_finished, endedWaiting_of_waits hwaits]
      simp
    rw [if_pos rfl] at hcount
    simp only [if_congr hended rfl rfl]
    simp [List.countP_cons, hcount, ih]
    omega

/-! ## Coherence -/

/-- The outcome of a run is told coherently exactly when its start phase is not cancelled, no
    wait ends it, and it is not ended by a stop policy while it waits for its tasks. -/
theorem coherent_iff (script : RunScript) (recordState threadState : Option RunLifecycleState)
    (result : RunResult) (run : LoopRun)
    (h : runAgentLoop script (prepareLocalRootExecution recordState threadState) =
      (.ok result, run)) :
    Coherent result run ↔
      script.runStart.result ≠ .cancelled ∧ ¬ EndedWaiting run.boundaries ∧
        (run.awaitsTasks = true → script.runEnd.stops = []) := by
  obtain ⟨run₁, hawake, hawaits, hstarted, hcase⟩ := runAgentLoop_ok h
  cases hcase with
  | inl hcancelled =>
    obtain ⟨hcancelled, rfl, -⟩ := hcancelled
    -- The run has started, and has not finished.
    apply iff_of_false
    · intro hcoherent
      have hbalanced := hcoherent.balanced
      rw [countP_isRunFinish, countP_isRunStart, hstarted] at hbalanced
      cases hbalanced
    · exact fun hcond => hcond.1 hcancelled
  | inr hloop =>
    obtain ⟨hstart, termination, run₂, hrun, hfinish⟩ := hloop
    obtain ⟨bs, hbs, hrounds, hends⟩ := rounds_runLoop hawake hawaits hrun
    obtain ⟨hresult, hboundaries, htasks, record, hrecord, hstatus, hreason⟩ :=
      finishRun_ok hfinish
    rw [hbs, hstarted] at hboundaries
    have hended : EndedWaiting run.boundaries ↔ EndedWaiting bs := by
      rw [hboundaries, endedWaiting_append, endedWaiting_append]
      simp [EndedWaiting, RunScript.started, RunScript.finished]
    have hbalanced : run.runEvents.countP AgentEvent.isRunFinish =
        run.runEvents.countP AgentEvent.isRunStart ↔ ¬ EndedWaiting bs := by
      rw [countP_isRunFinish, countP_isRunStart, hboundaries]
      simp only [List.countP_append, countP_rounds hrounds]
      by_cases hwaited : EndedWaiting bs <;>
        simp [List.countP_cons, hwaited] <;> omega
    have hlast : run.runEvents.getLast?.bind AgentEvent.termination? =
        some result.termination := by
      rw [hresult]
      exact getLast?_runEvents hboundaries
    have hrecorded : ¬ EndedWaiting bs →
        (RecordCoherent result run ↔ (run.awaitsTasks = true → script.runEnd.stops = [])) := by
      intro hwaited
      cases hends with
      | waited h _ => exact absurd h hwaited
      | awake _ hawake₂ htasks₂ =>
        -- The run is set to done, and so is its record.
        rw [htasks₂] at htasks
        apply iff_of_true
        · intro hdone
          rw [hresult] at hdone
          rw [status_finishLifecycle hdone, if_neg hawake₂, ite_self] at hstatus
          exact ⟨record, hrecord, by rw [if_neg (by simp [htasks]), hresult]; exact
            ⟨hstatus, hreason hstatus⟩⟩
        · simp [htasks]
      | awaitsTasks _ hwaiting htasks₂ =>
        -- The run stays waiting, unless a stop policy of the end phase sets it to done.
        rw [htasks₂] at htasks
        have hdone : TerminationReason.naturalEnd.toRunStatus.1 = .done := rfl
        rw [status_finishLifecycle hdone, if_pos hwaiting] at hstatus
        unfold RecordCoherent
        simp only [hresult, htasks, if_true]
        constructor
        · intro hcoherent _
          obtain ⟨record', hrecord', hwaits⟩ := hcoherent hdone
          rw [Option.mem_unique hrecord' hrecord, hstatus] at hwaits
          by_contra hstops
          rw [if_neg hstops] at hwaits
          cases hwaits
        · intro hstops _
          rw [if_pos (hstops trivial)] at hstatus
          exact ⟨record, hrecord, hstatus⟩
    rw [hended]
    constructor
    · intro hcoherent
      have hwaited := hbalanced.mp hcoherent.balanced
      exact ⟨hstart, hwaited, (hrecorded hwaited).mp hcoherent.recorded⟩
    · intro hcond
      obtain ⟨_, hwaited, hstops⟩ := hcond
      exact ⟨hbalanced.mpr hwaited, hlast, (hrecorded hwaited).mpr hstops⟩

theorem coherent_iff_answer :
    let ended := runAgentLoop (.plain false [.answer]) (prepareLocalRootExecution none none)
    Coherent ⟨"", .naturalEnd, 1⟩ ended.2 ↔
      PhaseResult.ok ≠ .cancelled ∧ ¬ EndedWaiting ended.2.boundaries ∧
        (ended.2.awaitsTasks = true → ([] : List (String × UInt64)) = []) :=
  coherent_iff (.plain false [.answer]) none none ⟨"", .naturalEnd, 1⟩ _ (Prod.ext rfl rfl)

/-- A run that is cancelled while it waits finishes twice, and its last record says that it
    waits. -/
theorem not_coherent_cancelledWaiting :
    let ended := runAgentLoop (.plain false [.suspend [.cancelled]])
      (prepareLocalRootExecution none none)
    ended.1 = .ok ⟨"", .cancelled, 1⟩ ∧
      ended.2.records.getLast?.map RunProjection.status = some .waiting ∧
      ¬ Coherent ⟨"", .cancelled, 1⟩ ended.2 := by
  refine ⟨by decide +kernel, by decide +kernel, ?_⟩
  intro hcoherent
  exact absurd hcoherent.balanced (by decide +kernel)

end Remo

/-! ## The counters of a run

The counters in a checkpoint are what its activation used: the store and the token totals of an
activation start at zero. So over the activations of a run the counters go back wherever an
activation has used less at its first checkpoint than an earlier one at its last.
-/

namespace Remo

open Relation AgentLoop

/-! ## What a run has used -/

/-- The steps completed and the tokens used. -/
structure RunCounts where
  steps : Nat
  inputTokens : UInt64
  outputTokens : UInt64
deriving Repr, DecidableEq

namespace RunCounts

def zero : RunCounts := ⟨0, 0, 0⟩

/-- No counter goes backwards. -/
def Le (before after : RunCounts) : Prop :=
  before.steps ≤ after.steps ∧ before.inputTokens ≤ after.inputTokens ∧
    before.outputTokens ≤ after.outputTokens

instance (before after : RunCounts) : Decidable (before.Le after) :=
  inferInstanceAs (Decidable (_ ∧ _ ∧ _))

/-- The counts behind an entry. -/
def add (counts : RunCounts) : LoopEntry → RunCounts
  | .committed (.stepCompleted _) => { counts with steps := counts.steps + 1 }
  | .tokens input output =>
    { counts with
      inputTokens := LoopRun.saturatingAdd counts.inputTokens input
      outputTokens := LoopRun.saturatingAdd counts.outputTokens output }
  | _ => counts

theorem Le.refl (counts : RunCounts) : counts.Le counts :=
  ⟨Nat.le_refl _, UInt64.le_refl _, UInt64.le_refl _⟩

theorem Le.trans {a b c : RunCounts} (hab : a.Le b) (hbc : b.Le c) : a.Le c :=
  ⟨Nat.le_trans hab.1 hbc.1, UInt64.le_trans hab.2.1 hbc.2.1, UInt64.le_trans hab.2.2 hbc.2.2⟩

theorem le_saturatingAdd (a b : UInt64) : a ≤ LoopRun.saturatingAdd a b := by
  have ha := a.toNat_lt
  unfold LoopRun.saturatingAdd
  rw [UInt64.le_iff_toNat_le]
  split
  next h =>
    rw [UInt64.toNat_add, Nat.mod_eq_of_lt h]
    omega
  next =>
    show a.toNat ≤ 0xFFFFFFFFFFFFFFFF
    omega

theorem le_add (counts : RunCounts) (entry : LoopEntry) : counts.Le (counts.add entry) := by
  unfold add
  split
  next => exact ⟨Nat.le_succ _, UInt64.le_refl _, UInt64.le_refl _⟩
  next => exact ⟨Nat.le_refl _, le_saturatingAdd _ _, le_saturatingAdd _ _⟩
  next => exact Le.refl counts

end RunCounts

/-- The counters of a checkpoint. -/
def RunProjection.counts (record : RunProjection) : RunCounts :=
  ⟨record.steps, record.inputTokens, record.outputTokens⟩

/-- What had been used at each of the checkpoints in a log. -/
def countsAtCheckpoints (counts : RunCounts) : List LoopEntry → List RunCounts
  | [] => []
  | entry :: entries =>
    if entry.record?.isSome then counts :: countsAtCheckpoints (counts.add entry) entries
    else countsAtCheckpoints (counts.add entry) entries

theorem countsAtCheckpoints_append (counts : RunCounts) (entries entries' : List LoopEntry) :
    countsAtCheckpoints counts (entries ++ entries') =
      countsAtCheckpoints counts entries ++
        countsAtCheckpoints (entries.foldl RunCounts.add counts) entries' := by
  induction entries generalizing counts with
  | nil => rfl
  | cons entry entries ih =>
    simp only [List.cons_append, List.foldl_cons, countsAtCheckpoints]
    split
    next => rw [ih (counts.add entry), List.cons_append]
    next => exact ih (counts.add entry)

theorem le_of_mem_countsAtCheckpoints {counts count : RunCounts} {entries : List LoopEntry}
    (h : count ∈ countsAtCheckpoints counts entries) : counts.Le count := by
  induction entries generalizing counts with
  | nil => exact absurd h List.not_mem_nil
  | cons entry entries ih =>
    rw [countsAtCheckpoints] at h
    split at h
    next =>
      cases List.mem_cons.mp h with
      | inl heq => exact heq ▸ .refl counts
      | inr hrest => exact (counts.le_add entry).trans (ih hrest)
    next => exact (counts.le_add entry).trans (ih h)

/-- In one log the counts never go backwards. -/
theorem isChain_countsAtCheckpoints (counts : RunCounts) (entries : List LoopEntry) :
    (countsAtCheckpoints counts entries).IsChain RunCounts.Le := by
  induction entries generalizing counts with
  | nil => exact .nil
  | cons entry entries ih =>
    rw [countsAtCheckpoints]
    split
    next =>
      apply List.isChain_cons.mpr
      have hfirst : ∀ next ∈ (countsAtCheckpoints (counts.add entry) entries).head?,
          counts.Le next := by
        intro next hnext
        have hmem := List.mem_of_mem_head? hnext
        exact (counts.le_add entry).trans (le_of_mem_countsAtCheckpoints hmem)
      exact ⟨hfirst, ih (counts.add entry)⟩
    next => exact ih (counts.add entry)

/-! ## What the checkpoints of an activation record -/

/-- The counters of the activation are what its log says it used, and so are those in its
    checkpoints. -/
structure LoopRun.Counted (run : LoopRun) : Prop where
  counters : ⟨run.lifecycle.stepCount.toNat, run.totalInputTokens, run.totalOutputTokens⟩ =
    run.entries.foldl RunCounts.add .zero
  records : (run.entries.filterMap LoopEntry.record?).map RunProjection.counts =
    countsAtCheckpoints .zero run.entries

namespace LoopRun.Counted

/-- An entry is written, and the counters move with it. -/
theorem push {run run' : LoopRun} {entry : LoopEntry} (h : run.Counted)
    (hentries : run'.entries = run.entries ++ [entry])
    (hcounters : (⟨run'.lifecycle.stepCount.toNat, run'.totalInputTokens,
        run'.totalOutputTokens⟩ : RunCounts) =
      RunCounts.add ⟨run.lifecycle.stepCount.toNat, run.totalInputTokens,
        run.totalOutputTokens⟩ entry)
    (hrecord : ∀ record, entry.record? = some record → record.counts =
      ⟨run.lifecycle.stepCount.toNat, run.totalInputTokens, run.totalOutputTokens⟩) :
    run'.Counted where
  counters := by
    rw [hcounters, hentries, List.foldl_append, h.counters]
    rfl
  records := by
    rw [hentries, List.filterMap_append, List.map_append, countsAtCheckpoints_append, h.records]
    congr 1
    cases hentry : entry.record? with
    | none => simp [countsAtCheckpoints, hentry]
    | some record => simp [countsAtCheckpoints, hentry, hrecord record hentry, h.counters]

/-- Only the status of the lifecycle changes. -/
theorem of_eq {run run' : LoopRun} (h : run.Counted) (hentries : run'.entries = run.entries)
    (hsteps : run'.lifecycle.stepCount = run.lifecycle.stepCount)
    (hinput : run'.totalInputTokens = run.totalInputTokens)
    (houtput : run'.totalOutputTokens = run.totalOutputTokens) : run'.Counted where
  counters := by rw [hsteps, hinput, houtput, hentries]; exact h.counters
  records := by rw [hentries]; exact h.records

end LoopRun.Counted

theorem RunLifecycleState.stepCount_apply_done (value : RunLifecycleState) (reason : String)
    (now : UInt64) : (value.apply (.done reason now)).stepCount = value.stepCount := by
  unfold RunLifecycleState.apply
  split <;> rfl

theorem RunLifecycleState.stepCount_apply_setWaiting (value : RunLifecycleState) (now : UInt64)
    (reason : String) : (value.apply (.setWaiting now reason)).stepCount = value.stepCount := by
  unfold RunLifecycleState.apply
  split <;> rfl

theorem RunLifecycleState.stepCount_apply_setRunning (value : RunLifecycleState)
    (now : UInt64) : (value.apply (.setRunning now)).stepCount = value.stepCount := by
  unfold RunLifecycleState.apply
  split <;> rfl

theorem RunLifecycleState.stepCount_apply_stepCompleted {value : RunLifecycleState} {now : UInt64}
    (hallowed : value.status.canTransitionTo .running = true)
    (hlt : value.stepCount.toNat + 1 < 0x100000000) :
    (value.apply (.stepCompleted now)).stepCount.toNat = value.stepCount.toNat + 1 := by
  have happly : (value.apply (.stepCompleted now)).stepCount = value.stepCount + 1 := by
    simp [RunLifecycleState.apply, RunLifecycleUpdate.targetStatus, hallowed]
  rw [happly, UInt32.toNat_add]
  simp only [UInt32.toNat_one]
  omega

theorem counted_quiet {run run' : LoopRun} (h : run.Counted) (hquiet : Quiet run run') :
    run'.Counted := by
  cases hquiet with
  | emit _ =>
    apply h.push rfl rfl
    simp [LoopEntry.record?]
  | stepCompleted hallowed hlt =>
    apply h.push rfl
    · simp only [RunCounts.add, RunCounts.mk.injEq]
      exact ⟨RunLifecycleState.stepCount_apply_stepCompleted hallowed hlt, rfl, rfl⟩
    · simp [LoopEntry.record?]
  | @done reason now _ =>
    apply h.push rfl
    · have hsteps := run.lifecycle.stepCount_apply_done reason now
      simp only [RunCounts.add, RunCounts.mk.injEq]
      exact ⟨congrArg UInt32.toNat hsteps, rfl, rfl⟩
    · simp [LoopEntry.record?]
  | stop => exact h.of_eq rfl (RunLifecycleState.stepCount_apply_done _ _ _) rfl rfl
  | tokens =>
    apply h.push rfl rfl
    simp [LoopEntry.record?]
  | checkpoint termination finalOutput errorMessage =>
    apply h.push rfl rfl
    intro record hrecord
    cases hrecord
    rfl
  | step => exact h.of_eq rfl rfl rfl rfl

theorem counted_effect {run run' : LoopRun} (h : run.Counted) (heffect : Effect run run') :
    run'.Counted := by
  cases heffect with
  | quiet hquiet => exact counted_quiet h hquiet
  | runEvent _ =>
    apply h.push rfl rfl
    simp [LoopEntry.record?]
  | waited =>
    apply h.push rfl rfl
    simp [LoopEntry.record?]
  | @setWaiting now reason _ =>
    apply h.push rfl
    · have hsteps := run.lifecycle.stepCount_apply_setWaiting now reason
      simp only [RunCounts.add, RunCounts.mk.injEq]
      exact ⟨congrArg UInt32.toNat hsteps, rfl, rfl⟩
    · simp [LoopEntry.record?]
  | @setRunning now _ =>
    apply h.push rfl
    · have hsteps := run.lifecycle.stepCount_apply_setRunning now
      simp only [RunCounts.add, RunCounts.mk.injEq]
      exact ⟨congrArg UInt32.toNat hsteps, rfl, rfl⟩
    · simp [LoopEntry.record?]

theorem counted_effects {run run' : LoopRun} (h : run.Counted)
    (heffects : ReflTransGen Effect run run') : run'.Counted := by
  induction heffects with
  | refl => exact h
  | tail _ heffect ih => exact counted_effect ih heffect

/-! ## The activations of a run -/

/-- One activation of a run: what it meets, and what was persisted before it. -/
structure Activation where
  script : RunScript
  recordState : Option RunLifecycleState
  threadState : Option RunLifecycleState

/-- What happens in an activation. -/
def Activation.entries (activation : Activation) : List LoopEntry :=
  (runAgentLoop activation.script
    (prepareLocalRootExecution activation.recordState activation.threadState)).2.entries

/-- The records that the activations checkpoint, one after the other. -/
def checkpointedRecords (activations : List Activation) : List RunProjection :=
  activations.flatMap fun activation => activation.entries.filterMap LoopEntry.record?

theorem Does.andThen {α β : Type} {R : LoopRun → LoopRun → Prop} {m : LoopM α}
    {f : α → LoopM β} (hf : ∀ a, Does R (f a)) (run : LoopRun) :
    ReflTransGen R (m run).2 (Method.bind m f run).2 := by
  unfold Method.bind
  cases hm : m run with
  | mk result run' =>
    cases result with
    | error e => exact .refl
    | ok a => exact hf a run'

/-- Behind the start of the lifecycle, an activation is a sequence of effects. -/
theorem effects_runAgentLoop (script : RunScript) (run : LoopRun) :
    ReflTransGen Effect
      (commitUpdate script (if script.isContinuation then .setRunning
        else .start script.runId) run).2
      (runAgentLoop script run).2 := by
  apply Does.andThen
  intro _
  apply (effects_emitRunStart script).bind
  intro _
  apply (quiet_replayResume script.replay).effects.bind
  intro _
  apply (quiet_runPhase script.runStart).effects.bind
  intro result
  cases result with
  | cancelled => exact does_ret _
  | error message => exact does_fail _
  | ok => exact (effects_runLoop script script.steps).bind fun _ => effects_finishRun script _

/-- A new store has counted nothing: the lifecycle is not restored. -/
theorem counted_prepareLocalRootExecution (recordState threadState : Option RunLifecycleState) :
    (prepareLocalRootExecution recordState threadState).Counted :=
  ⟨rfl, rfl⟩

theorem counted_start (script : RunScript) (recordState threadState : Option RunLifecycleState) :
    (commitUpdate script (if script.isContinuation then .setRunning else .start script.runId)
      (prepareLocalRootExecution recordState threadState)).2.Counted := by
  apply @LoopRun.Counted.push _ _ (.committed ((if script.isContinuation then .setRunning
    else .start script.runId : UInt64 → RunLifecycleUpdate) (script.clock 0)))
    (counted_prepareLocalRootExecution recordState threadState)
  · cases script.isContinuation <;> rfl
  · cases script.isContinuation <;> rfl
  · simp [LoopEntry.record?]

/-- The counters in a checkpoint are what the activation had used until then. -/
theorem counted_runAgentLoop (activation : Activation) :
    (activation.entries.filterMap LoopEntry.record?).map RunProjection.counts =
      countsAtCheckpoints .zero activation.entries :=
  (counted_effects (counted_start activation.script _ _)
    (effects_runAgentLoop activation.script _)).records

/-- Each activation that writes checkpoints has used at its first one what the activation
    before it had used at its last one. -/
def ContinuesCounts (logs : List (List LoopEntry)) : Prop :=
  ((logs.map (countsAtCheckpoints .zero)).filter (!·.isEmpty)).IsChain fun before after =>
    ∀ last ∈ before.getLast?, ∀ first ∈ after.head?, last.Le first

theorem counts_checkpointedRecords (activations : List Activation) :
    (checkpointedRecords activations).map RunProjection.counts =
      (activations.map fun activation => countsAtCheckpoints .zero activation.entries).flatten := by
  unfold checkpointedRecords
  rw [List.map_flatMap, List.flatMap_def]
  congr 1
  exact List.map_congr_left fun activation _ => counted_runAgentLoop activation

/-- The run calls a tool, suspends on the next one, and its decisions come later. -/
def RunScript.suspended : RunScript :=
  .plain false [.callTools, .suspend [.noDecisionChannel]]

/-- It is continued, and answers. -/
def RunScript.resumed : RunScript := .plain true [.answer]

end Remo
