import Remo.ForStd.Machine
import Remo.Spec.Background.Registry

/-!
# Cancelling a run reaches its descendants

The sweep of a run reads the live roots once and follows the tree below each of them. A spawn whose
handle comes late is stopped by its own run id only. So the sweep reaches all descendants as long
as each of them is below a live root when the roots are read, or is caught by its own run id.

## Key results

- `BackgroundProcess.step_moves`: what a step of a process does to tasks, handles and spawns
- `run_cancelsDescendants`: whole runs of a process with a sweep
-/

namespace Remo

/-! ## A process with a sweep -/

/-- A process and a sweep in it, with the tasks that the process has started from and the number of
    ids it has handed out. -/
structure Sweeping where
  process : BackgroundProcess
  stage : SweepStage
  restored : AssocMap TaskId PersistedTaskMeta
  issued : Nat

/-- A step of the process, or the next access of the sweep. -/
inductive SweepOp where
  | run (op : ProcessOp)
  | sweep

namespace Sweeping

def step (parentRunId : String) (self : Sweeping) : SweepOp → Sweeping
  | .run op =>
    { self with
      process := self.process.step op
      issued := self.process.issuedAfter self.issued op }
  | .sweep =>
    { self with
      stage := (self.stage.advance parentRunId self.process.manager).1
      process :=
        { self.process with
          manager := (self.stage.advance parentRunId self.process.manager).2 } }

/-- The metadata in the store. -/
def tasks (self : Sweeping) : AssocMap TaskId PersistedTaskMeta := self.process.manager.tasks

end Sweeping

def sweepMachine (parentRunId : String) : Machine Sweeping SweepOp Unit where
  step self op := ((), self.step parentRunId op)

/-! ## Lineage -/

section Lineage

variable (tasks : AssocMap TaskId PersistedTaskMeta)

/-- A task is another one or one of its descendants. -/
def IsBelow (ancestor taskId : TaskId) : Prop :=
  ParentTree.Below PersistedTaskMeta.taskId (fun taskMeta => taskMeta.parentContext.taskId)
    tasks.values ancestor taskId

/-- A task is below a task that the run has spawned. -/
def LeadsTo (parentRunId : String) (taskId : TaskId) : Prop :=
  ∃ taskMeta ∈ tasks.values, taskMeta.parentContext.runId = some parentRunId ∧
    IsBelow tasks taskMeta.taskId taskId

/-- The task is not terminal. -/
def Running (taskId : TaskId) : Prop :=
  (tasks.get? taskId).map PersistedTaskMeta.status = some .running

instance (ancestor taskId : TaskId) : Decidable (IsBelow tasks ancestor taskId) :=
  inferInstanceAs (Decidable (ParentTree.Below _ _ _ _ _))

instance (parentRunId : String) (taskId : TaskId) : Decidable (LeadsTo tasks parentRunId taskId) :=
  inferInstanceAs (Decidable (∃ _ ∈ _, _))

instance (taskId : TaskId) : Decidable (Running tasks taskId) :=
  inferInstanceAs (Decidable (_ = _))

end Lineage

/-- The task that a spawn has committed without having inserted its handle. -/
def Spawning.inFlightId (self : Spawning) : Option TaskId :=
  match self.stage with
  | .committed taskMeta => some taskMeta.taskId
  | .started taskMeta => some taskMeta.taskId
  | _ => none

namespace BackgroundProcess

/-- The tasks whose spawns have not returned. -/
def inFlightIds (self : BackgroundProcess) : List TaskId :=
  self.spawning.filterMap Spawning.inFlightId

/-- The cancellation token of the task is signalled. -/
def Signalled (self : BackgroundProcess) (taskId : TaskId) : Prop :=
  (self.manager.handles.get? taskId).map TaskHandle.cancelled = some true

instance (self : BackgroundProcess) (taskId : TaskId) : Decidable (self.Signalled taskId) :=
  inferInstanceAs (Decidable (_ = _))

/-! ## Steps of the process -/

/-- What a step of a process does to the tasks, the handles and the spawns on their way. -/
inductive Moves (self : BackgroundProcess) : ProcessOp → BackgroundProcess → Prop where
  | quiet {op : ProcessOp} {after : BackgroundProcess}
      (htasks : after.manager.tasks = self.manager.tasks)
      (hhandles : after.manager.handles = self.manager.handles)
      (hruns : after.manager.cancelledRunIds = self.manager.cancelledRunIds)
      (hflight : ∀ taskId, taskId ∈ self.inFlightIds → taskId ∈ after.inFlightIds) :
    Moves self op after
  | commits {index : Nat} {now : UInt64} {after : BackgroundProcess} (s : Spawning)
      (taskMeta : PersistedTaskMeta) (hget : self.spawning[index]? = some s)
      (hstage : s.stage = .checked) (hid : s.taskId = some taskMeta.taskId)
      (hnew : self.manager.tasks.get? taskMeta.taskId = none)
      (htasks : after.manager.tasks = self.manager.tasks.insert taskMeta.taskId taskMeta)
      (hhandles : after.manager.handles = self.manager.handles)
      (hruns : after.manager.cancelledRunIds = self.manager.cancelledRunIds)
      (hflight : ∀ taskId, taskId = taskMeta.taskId ∨ taskId ∈ self.inFlightIds →
        taskId ∈ after.inFlightIds) :
    Moves self (.advance index now) after
  | inserts {index : Nat} {now : UInt64} {after : BackgroundProcess} (s : Spawning)
      (taskMeta : PersistedTaskMeta) (hget : self.spawning[index]? = some s)
      (hstage : s.stage = .started taskMeta)
      (hmanager : after.manager = self.manager.insertHandleAndCancelIfParentRunCancelled
        taskMeta.taskId ⟨taskMeta.taskId, taskMeta.ownerThreadId, false⟩ taskMeta.parentContext)
      (hflight : ∀ taskId, taskId ∈ self.inFlightIds → taskId = taskMeta.taskId ∨
        taskId ∈ after.inFlightIds) :
    Moves self (.advance index now) after
  | completes {index : Nat} {result : TaskResult} {now : UInt64} {after : BackgroundProcess}
      (taskMeta : PersistedTaskMeta)
      (hstored : self.manager.tasks.get? taskMeta.taskId = some taskMeta)
      (htasks : after.manager.tasks =
        self.manager.tasks.insert taskMeta.taskId (taskMeta.ended result now))
      (hhandles : after.manager.handles = self.manager.handles)
      (hruns : after.manager.cancelledRunIds = self.manager.cancelledRunIds)
      (hflight : ∀ taskId, taskId ∈ self.inFlightIds → taskId ∈ after.inFlightIds) :
    Moves self (.complete index result now) after

variable {self : BackgroundProcess} {restored : AssocMap TaskId PersistedTaskMeta} {issued : Nat}

/-- A spawn that goes on stays in flight. -/
private theorem mem_inFlight_set {spawning : List Spawning} {index : Nat} {s next : Spawning}
    (hget : spawning[index]? = some s) (hkeep : s.inFlightId = none ∨ next.inFlightId = s.inFlightId)
    {taskId : TaskId} (hmem : taskId ∈ spawning.filterMap Spawning.inFlightId) :
    taskId ∈ (spawning.set index next).filterMap Spawning.inFlightId := by
  obtain ⟨rival, hrival, hflight⟩ := List.mem_filterMap.mp hmem
  obtain ⟨i, hi⟩ := List.mem_iff_getElem?.mp hrival
  obtain ⟨hindex, -⟩ := List.getElem?_eq_some_iff.mp hget
  by_cases hsame : i = index
  · have heq : rival = s := by
      rw [hsame, hget] at hi
      exact (Option.some.inj hi).symm
    rw [heq] at hflight
    cases hkeep with
    | inl hnone => simp [hnone] at hflight
    | inr hnext =>
      exact List.mem_filterMap.mpr ⟨next, List.mem_set hindex next, hnext.trans hflight⟩
  · apply List.mem_filterMap.mpr
    refine ⟨rival, List.mem_iff_getElem?.mpr ⟨i, ?_⟩, hflight⟩
    rw [List.getElem?_set_ne (Ne.symm hsame)]
    exact hi

/-- A spawn that returns takes at most its own task out of flight. -/
private theorem mem_inFlight_eraseIdx {spawning : List Spawning} {index : Nat} {s : Spawning}
    (hget : spawning[index]? = some s) {taskId : TaskId}
    (hmem : taskId ∈ spawning.filterMap Spawning.inFlightId) :
    s.inFlightId = some taskId ∨
      taskId ∈ (spawning.eraseIdx index).filterMap Spawning.inFlightId := by
  obtain ⟨hindex, hs⟩ := List.getElem?_eq_some_iff.mp hget
  have hperm := List.getElem_cons_eraseIdx_perm hindex
  rw [hs] at hperm
  obtain ⟨rival, hrival, hflight⟩ := List.mem_filterMap.mp hmem
  cases List.mem_cons.mp (hperm.mem_iff.mpr hrival) with
  | inl heq => exact .inl (heq ▸ hflight)
  | inr hrest => exact .inr (List.mem_filterMap.mpr ⟨rival, hrest, hflight⟩)

theorem step_moves (h : self.Registered restored issued) (op : ProcessOp) :
    self.Moves op (self.step op) := by
  cases op with
  | enter call =>
    have hmanager : (Spawning.enter call self.manager).2.tasks = self.manager.tasks ∧
        (Spawning.enter call self.manager).2.handles = self.manager.handles ∧
        (Spawning.enter call self.manager).2.cancelledRunIds = self.manager.cancelledRunIds := by
      unfold Spawning.enter
      cases call.kind <;> exact ⟨rfl, rfl, rfl⟩
    refine .quiet hmanager.1 hmanager.2.1 hmanager.2.2 fun taskId hmem => ?_
    show taskId ∈ (self.spawning ++ _).filterMap Spawning.inFlightId
    rw [List.filterMap_append]
    exact List.mem_append_left _ hmem
  | complete index result now =>
    show self.Moves _ (self.complete index result now)
    cases complete_cases h index result now with
    | inl hnone =>
      rw [hnone.2]
      exact .quiet rfl rfl rfl fun _ hmem => hmem
    | inr hsome =>
      obtain ⟨taskMeta, manager, hget, hupserts, heq⟩ := hsome
      rw [heq]
      have hmem : taskMeta ∈ liveTasks self.spawning self.executing :=
        List.mem_append_right _ (List.mem_of_getElem? hget)
      have hended : (taskMeta.ended result now).taskId = taskMeta.taskId := by cases result <;> rfl
      have htasks := hupserts.tasks
      rw [hended] at htasks
      exact .completes taskMeta (Remo.Registered.live h taskMeta hmem).2 htasks hupserts.handles
        hupserts.cancelledRunIds fun _ hflight => hflight
  | advance index now =>
    show self.Moves _ (self.advance index now)
    unfold advance
    cases hget : self.spawning[index]? with
    | none => exact .quiet rfl rfl rfl fun _ hmem => hmem
    | some s =>
      have hadvance := s.advance_spec (Remo.Registered.bound h) now
      dsimp only
      cases hstep : s.advance now self.manager with
      | mk progress manager =>
        simp only [hstep] at hadvance
        have hout : s.inFlightId = none → ∀ taskId, taskId ∈ self.inFlightIds →
            taskId ∈ (self.spawning.eraseIdx index).filterMap Spawning.inFlightId := by
          intro hnone taskId hmem
          cases mem_inFlight_eraseIdx hget hmem with
          | inl hown => simp [hnone] at hown
          | inr hrest => exact hrest
        cases hadvance with
        | misnamed e hstage =>
          exact .quiet rfl rfl rfl (hout (by simp [Spawning.inFlightId, hstage]))
        | refused runId hstage hcancelled =>
          exact .quiet rfl rfl rfl (hout (by simp [Spawning.inFlightId, hstage]))
        | named hstage hfree =>
          exact .quiet rfl rfl rfl fun _ =>
            mem_inFlight_set hget (.inl (by simp [Spawning.inFlightId, hstage]))
        | checked hstage hopen =>
          exact .quiet rfl rfl rfl fun _ =>
            mem_inFlight_set hget (.inl (by simp [Spawning.inFlightId, hstage]))
        | reserves hstage htask =>
          exact .quiet rfl rfl rfl fun _ =>
            mem_inFlight_set hget (.inl (by simp [Spawning.inFlightId, hstage]))
        | starts taskMeta hstage =>
          exact .quiet rfl rfl rfl fun _ =>
            mem_inFlight_set hget (.inr (by simp [Spawning.inFlightId, hstage]))
        | commits taskId manager' hstage htask hupserts =>
          have hnew := Remo.Registered.uncommitted h s (List.mem_of_getElem? hget)
            (.inr (.inr hstage)) taskId htask
          refine .commits s (s.call.runningMeta taskId now) hget hstage htask hnew hupserts.tasks
            hupserts.handles hupserts.cancelledRunIds fun other hother => ?_
          cases hother with
          | inl heq =>
            obtain ⟨hindex, -⟩ := List.getElem?_eq_some_iff.mp hget
            exact List.mem_filterMap.mpr ⟨_, List.mem_set hindex _, by rw [heq]; rfl⟩
          | inr hmem =>
            exact mem_inFlight_set hget (.inl (by simp [Spawning.inFlightId, hstage])) hmem
        | inserts taskMeta hstage =>
          refine .inserts s taskMeta hget hstage rfl fun taskId hmem => ?_
          cases mem_inFlight_eraseIdx hget hmem with
          | inl hown =>
            have hid : some taskMeta.taskId = some taskId := by
              simpa [Spawning.inFlightId, hstage] using hown
            exact .inl (Option.some.inj hid).symm
          | inr hrest => exact .inr hrest

end BackgroundProcess

/-! ## Growing tables -/

/-- Every task is still there, with its id and its parent context. -/
structure Grows (tasks tasks' : AssocMap TaskId PersistedTaskMeta) : Prop where
  keys : ∀ taskId ∈ tasks.keys, taskId ∈ tasks'.keys
  values : ∀ taskMeta ∈ tasks.values, ∃ taskMeta' ∈ tasks'.values,
    taskMeta'.taskId = taskMeta.taskId ∧ taskMeta'.parentContext = taskMeta.parentContext

section Tables

variable {tasks tasks' : AssocMap TaskId PersistedTaskMeta} {parentRunId : String}
  {ancestor taskId : TaskId} {taskMeta : PersistedTaskMeta}

theorem IsBelow.grows (h : IsBelow tasks ancestor taskId) (hgrows : Grows tasks tasks') :
    IsBelow tasks' ancestor taskId := by
  apply ParentTree.Below.mono h
  intro r hr
  obtain ⟨r', hr', hid, hparent⟩ := hgrows.values r hr
  exact ⟨r', hr', hid, by rw [hparent]⟩

theorem LeadsTo.grows (h : LeadsTo tasks parentRunId taskId) (hgrows : Grows tasks tasks') :
    LeadsTo tasks' parentRunId taskId := by
  obtain ⟨taskMeta, hmem, hrun, hbelow⟩ := h
  obtain ⟨taskMeta', hmem', hid, hparent⟩ := hgrows.values taskMeta hmem
  exact ⟨taskMeta', hmem', by rw [hparent, hrun], hid ▸ hbelow.grows hgrows⟩

theorem LeadsTo.below (h : LeadsTo tasks parentRunId ancestor)
    (hbelow : IsBelow tasks ancestor taskId) : LeadsTo tasks parentRunId taskId := by
  obtain ⟨taskMeta, hmem, hrun, habove⟩ := h
  exact ⟨taskMeta, hmem, hrun, ParentTree.Below.trans habove hbelow⟩

/-- The values of a table after a write. -/
private theorem mem_values_insert {other : PersistedTaskMeta} :
    other ∈ (tasks.insert taskId taskMeta).values ↔
      other = taskMeta ∨ ∃ id, id ≠ taskId ∧ tasks.get? id = some other := by
  rw [AssocMap.mem_values]
  constructor
  · intro h
    obtain ⟨id, hid⟩ := h
    rw [AssocMap.get?_insert] at hid
    by_cases hsame : id = taskId
    · rw [if_pos hsame] at hid
      exact .inl (Option.some.inj hid).symm
    · rw [if_neg hsame] at hid
      exact .inr ⟨id, hsame, hid⟩
  · intro h
    cases h with
    | inl heq => exact ⟨taskId, by rw [heq, AssocMap.get?_insert_self]⟩
    | inr hold =>
      obtain ⟨id, hne, hid⟩ := hold
      exact ⟨id, by rw [AssocMap.get?_insert_of_ne _ _ hne, hid]⟩

private theorem mem_keys_insert (h : ancestor ∈ tasks.keys) :
    ancestor ∈ (tasks.insert taskId taskMeta).keys := by
  obtain ⟨found, hfound⟩ := AssocMap.mem_keys.mp h
  rw [AssocMap.mem_keys, AssocMap.get?_insert]
  split
  · exact ⟨_, rfl⟩
  · exact ⟨found, hfound⟩

theorem grows_insert_new (hnew : tasks.get? taskId = none) :
    Grows tasks (tasks.insert taskId taskMeta) where
  keys _ hmem := mem_keys_insert hmem
  values other hmem := by
    obtain ⟨id, hid⟩ := AssocMap.mem_values.mp hmem
    have hne : id ≠ taskId := by
      intro heq
      rw [heq, hnew] at hid
      cases hid
    exact ⟨other, mem_values_insert.mpr (.inr ⟨id, hne, hid⟩), rfl, rfl⟩

/-- A write that keeps the id and the parent context of a task changes no lineage. -/
theorem grows_insert_same {next : PersistedTaskMeta} (hget : tasks.get? taskId = some taskMeta)
    (hid : next.taskId = taskMeta.taskId) (hparent : next.parentContext = taskMeta.parentContext) :
    Grows tasks (tasks.insert taskId next) ∧ Grows (tasks.insert taskId next) tasks := by
  constructor
  · refine ⟨fun _ hmem => mem_keys_insert hmem, fun other hmem => ?_⟩
    obtain ⟨id, hother⟩ := AssocMap.mem_values.mp hmem
    by_cases hsame : id = taskId
    · rw [hsame, hget] at hother
      cases hother
      exact ⟨next, mem_values_insert.mpr (.inl rfl), hid, hparent⟩
    · exact ⟨other, mem_values_insert.mpr (.inr ⟨id, hsame, hother⟩), rfl, rfl⟩
  · refine ⟨fun id hmem => ?_, fun other hmem => ?_⟩
    · obtain ⟨found, hfound⟩ := AssocMap.mem_keys.mp hmem
      rw [AssocMap.get?_insert] at hfound
      rw [AssocMap.mem_keys]
      split at hfound
      · rename_i hsame
        exact ⟨taskMeta, hsame ▸ hget⟩
      · exact ⟨found, hfound⟩
    · cases mem_values_insert.mp hmem with
      | inl heq =>
        exact ⟨taskMeta, AssocMap.mem_values.mpr ⟨taskId, hget⟩, by rw [heq, hid],
          by rw [heq, hparent]⟩
      | inr hold =>
        obtain ⟨id, -, hother⟩ := hold
        exact ⟨other, AssocMap.mem_values.mpr ⟨id, hother⟩, rfl, rfl⟩

/-- A new task that nobody names as its parent is in no other lineage. -/
theorem LeadsTo.of_insert_new
    (horphan : ∀ other ∈ tasks.values, other.parentContext.taskId ≠ some taskMeta.taskId)
    (h : LeadsTo (tasks.insert taskMeta.taskId taskMeta) parentRunId taskId)
    (hne : taskId ≠ taskMeta.taskId) : LeadsTo tasks parentRunId taskId := by
  obtain ⟨start, hstart, hrun, hbelow⟩ := h
  have hold : ∀ other ∈ (tasks.insert taskMeta.taskId taskMeta).values,
      other.taskId ≠ taskMeta.taskId → other ∈ tasks.values := by
    intro other hmem hother
    cases mem_values_insert.mp hmem with
    | inl heq => exact absurd (by rw [heq]) hother
    | inr hget =>
      obtain ⟨id, -, hget⟩ := hget
      exact AssocMap.mem_values.mpr ⟨id, hget⟩
  -- no step of the lineage leaves the new task
  have hback : start.taskId ≠ taskMeta.taskId ∧ IsBelow tasks start.taskId taskId := by
    induction hbelow with
    | refl => exact ⟨hne, ParentTree.Below.refl⟩
    | tail _ hchild ih =>
      obtain ⟨child, hmem, hid, hparent⟩ := hchild
      have hchildOld := hold child hmem (by rw [hid]; exact hne)
      obtain ⟨hhead, hinit⟩ := ih fun heq => horphan child hchildOld (heq ▸ hparent)
      exact ⟨hhead, Relation.ReflTransGen.tail hinit ⟨child, hchildOld, hid, hparent⟩⟩
  exact ⟨start, hold start hstart hback.1, hrun, hback.2⟩

end Tables

/-! ## The sweep -/

namespace BackgroundTaskManager

/-- The tree of a task in the store holds what is below it. -/
theorem taskTreeIds_spec (self : BackgroundTaskManager) (root : TaskId) :
    (self.taskTreeIds root = none ∧ root ∉ self.tasks.keys) ∨
      ∃ taskIds, self.taskTreeIds root = some taskIds ∧ root ∈ self.tasks.keys ∧
        ∀ taskId, taskId ∈ taskIds ↔ IsBelow self.tasks root taskId := by
  unfold taskTreeIds tasks
  cases hsnapshot : self.snapshot with
  | none => exact .inl ⟨rfl, List.not_mem_nil⟩
  | some snapshot =>
    dsimp only [Option.map_some, Option.getD_some]
    by_cases hmem : root ∈ snapshot.tasks.keys
    · rw [if_neg (not_not.mpr hmem)]
      exact .inr ⟨_, rfl, hmem, fun taskId => ParentTree.mem_walk_iff (Nat.lt_succ_self _)⟩
    · rw [if_pos hmem]
      exact .inl ⟨rfl, hmem⟩

/-- Nothing but handles changes. -/
theorem signalLive_eq (taskIds : List TaskId) (self : BackgroundTaskManager) :
    (signalLive taskIds self).2 = { self with handles := (signalLive taskIds self).2.handles } := by
  induction taskIds generalizing self with
  | nil => rfl
  | cons taskId taskIds ih =>
    unfold signalLive
    split
    · exact (ih (self.signal taskId)).trans rfl
    · exact ih self

theorem signalLive_handles (taskIds : List TaskId) (self : BackgroundTaskManager)
    (taskId : TaskId) :
    (signalLive taskIds self).2.handles.get? taskId =
      (self.handles.get? taskId).map fun handle =>
        if taskId ∈ taskIds ∧ self.isTerminalTask taskId = false then
          { handle with cancelled := true }
        else handle := by
  induction taskIds generalizing self with
  | nil => simp [signalLive]
  | cons first taskIds ih =>
    unfold signalLive
    split
    · rename_i hlive
      show (signalLive taskIds (self.signal first)).2.handles.get? taskId = _
      have hterminal : (self.signal first).isTerminalTask taskId = self.isTerminalTask taskId := rfl
      rw [ih, hterminal]
      simp only [signal, AssocMap.get?_modify]
      by_cases hsame : taskId = first
      · cases hget : self.handles.get? first with
        | none => simp [hsame, hget]
        | some handle => simp [hsame, hget, hlive.2]
      · simp [hsame]
    · rename_i hlive
      rw [ih]
      by_cases hsame : taskId = first
      · cases hget : self.handles.get? first with
        | none => simp [hsame, hget]
        | some handle =>
          have hterminal : self.isTerminalTask first = true := by
            have hmem : first ∈ self.handles.keys := AssocMap.mem_keys.mpr ⟨handle, hget⟩
            simpa [hmem] using hlive
          simp [hsame, hget, hterminal]
      · simp [hsame]

theorem mem_signalLive_keys (taskIds : List TaskId) (self : BackgroundTaskManager)
    (taskId : TaskId) :
    taskId ∈ (signalLive taskIds self).2.handles.keys ↔ taskId ∈ self.handles.keys := by
  rw [AssocMap.mem_keys, AssocMap.mem_keys, signalLive_handles]
  simp [Option.map_eq_some_iff]

end BackgroundTaskManager

namespace SweepStage

/-- The roots have been read. -/
def HasRead : SweepStage → Prop
  | .idle => False
  | .marked => False
  | _ => True

instance (self : SweepStage) : Decidable self.HasRead := by
  cases self <;> unfold HasRead <;> infer_instance

/-- The sweep is still to signal the task. -/
def Ahead (tasks : AssocMap TaskId PersistedTaskMeta) (taskId : TaskId) : SweepStage → Prop
  | .trees rootTaskIds _ => ∃ root ∈ rootTaskIds, root ∈ tasks.keys ∧ IsBelow tasks root taskId
  | .signalling taskIds rootTaskIds _ => taskId ∈ taskIds ∨
    ∃ root ∈ rootTaskIds, root ∈ tasks.keys ∧ IsBelow tasks root taskId
  | _ => False

instance (tasks : AssocMap TaskId PersistedTaskMeta) (taskId : TaskId) (self : SweepStage) :
    Decidable (self.Ahead tasks taskId) := by
  cases self <;> unfold Ahead <;> infer_instance

/-- The tasks that the sweep has its eye on. -/
def targets : SweepStage → List TaskId
  | .trees rootTaskIds _ => rootTaskIds
  | .signalling taskIds rootTaskIds _ => taskIds ++ rootTaskIds
  | _ => []

theorem Ahead.grows {tasks tasks' : AssocMap TaskId PersistedTaskMeta} {taskId : TaskId}
    {self : SweepStage} (h : self.Ahead tasks taskId) (hgrows : Grows tasks tasks') :
    self.Ahead tasks' taskId := by
  have hroots : ∀ rootTaskIds : List TaskId,
      (∃ root ∈ rootTaskIds, root ∈ tasks.keys ∧ IsBelow tasks root taskId) →
        ∃ root ∈ rootTaskIds, root ∈ tasks'.keys ∧ IsBelow tasks' root taskId := by
    intro rootTaskIds hbelow
    obtain ⟨root, hmem, hkey, hbelow⟩ := hbelow
    exact ⟨root, hmem, hgrows.keys root hkey, hbelow.grows hgrows⟩
  cases self with
  | trees rootTaskIds _ => exact hroots rootTaskIds h
  | signalling taskIds rootTaskIds _ => exact h.imp_right (hroots rootTaskIds)
  | _ => exact h

end SweepStage

/-! ## Conditions -/

namespace Sweeping

variable (parentRunId : String) (self : Sweeping)

/-- A live task that the run has spawned itself is above the task. -/
def UnderLiveRoot (taskId : TaskId) : Prop :=
  ∃ root ∈ self.tasks.keys, (∃ taskMeta ∈ self.tasks.get? root, taskMeta.taskId = root ∧
    taskMeta.status = .running ∧ taskMeta.parentContext.runId = some parentRunId ∧
    taskMeta.parentContext.taskId = none) ∧ IsBelow self.tasks root taskId

/-- Every live descendant has been signalled, is in flight, or has a handle and a live root. -/
def Reachable : Prop :=
  ∀ taskId ∈ self.tasks.keys, Running self.tasks taskId → LeadsTo self.tasks parentRunId taskId →
    taskId ∈ self.process.inFlightIds ∨ self.process.Signalled taskId ∨
      taskId ∈ self.process.manager.handles.keys ∧ self.UnderLiveRoot parentRunId taskId

/-- A spawn commits a task that no task names as its parent, and inserts the handle of a descendant
    only with the run as its own parent run or before the sweep gets there. -/
def Contains (s : Spawning) : Prop :=
  match s.stage with
  | .checked => ∀ taskId ∈ s.taskId, ∀ other ∈ self.tasks.values,
    other.parentContext.taskId ≠ some taskId
  | .started taskMeta => LeadsTo self.tasks parentRunId taskMeta.taskId →
    BackgroundTaskManager.parentRunId taskMeta.parentContext = some parentRunId ∨
      self.stage.Ahead self.tasks taskMeta.taskId
  | _ => True

/-- What a step has to meet. Ids are handed out once; when the roots are read, every live descendant
    is in reach; from then on spawns stay contained. -/
def Allows (self : Sweeping) : SweepOp → Prop
  | .run op => self.process.HandsOutNew self.restored self.issued op ∧
    match op with
    | .advance index _ => self.stage.HasRead → ∀ s ∈ self.process.spawning[index]?,
      self.Contains parentRunId s
    | _ => True
  | .sweep => self.stage = .marked → self.Reachable parentRunId

instance (taskId : TaskId) : Decidable (self.UnderLiveRoot parentRunId taskId) :=
  inferInstanceAs (Decidable (∃ _ ∈ _, _))

instance : Decidable (self.Reachable parentRunId) :=
  inferInstanceAs (Decidable (∀ _ ∈ _, _))

instance (s : Spawning) : Decidable (self.Contains parentRunId s) := by
  unfold Contains
  split <;> infer_instance

instance (op : SweepOp) : Decidable (Allows parentRunId self op) := by
  unfold Allows
  split
  · rename_i op
    cases op <;> infer_instance
  · infer_instance

end Sweeping

/-! ## One step -/

/-- What a step shows of the sweep. -/
structure CancelsDescendants (parentRunId : String) (t : Machine.Step Sweeping SweepOp Unit) :
    Prop where
  /-- Behind the sweep, every live descendant whose spawn has returned is signalled. -/
  swept : ∀ cancelled, t.after.stage = .returned cancelled →
    ∀ taskId, Running t.after.tasks taskId → LeadsTo t.after.tasks parentRunId taskId →
      taskId ∈ t.after.process.inFlightIds ∨ t.after.process.Signalled taskId
  /-- A spawn of a descendant that returns behind the sweep leaves its task signalled. -/
  late : ∀ cancelled, t.before.stage = .returned cancelled →
    ∀ index now, t.event = .run (.advance index now) →
      ∀ s ∈ t.before.process.spawning[index]?, ∀ taskMeta, s.stage = .started taskMeta →
        LeadsTo t.before.tasks parentRunId taskMeta.taskId →
          t.after.process.Signalled taskMeta.taskId
  /-- The sweep signals descendants only. -/
  only : t.event = .sweep → ∀ taskId, t.after.process.Signalled taskId →
    t.before.process.Signalled taskId ∨ LeadsTo t.before.tasks parentRunId taskId

namespace Sweeping

variable {parentRunId : String} {self : Sweeping}

/-- The process is registered, the run is marked, and behind the reading of the roots every live
    descendant is in flight, signalled or still ahead of the sweep. -/
structure OnCourse (parentRunId : String) (w : Sweeping) : Prop where
  registered : w.process.Registered w.restored w.issued
  marked : w.stage ≠ .idle → parentRunId ∈ w.process.manager.cancelledRunIds
  targets : ∀ taskId ∈ w.stage.targets, LeadsTo w.tasks parentRunId taskId
  covered : w.stage.HasRead → ∀ taskId, Running w.tasks taskId →
    LeadsTo w.tasks parentRunId taskId → taskId ∈ w.process.inFlightIds ∨
      w.process.Signalled taskId ∨
        taskId ∈ w.process.manager.handles.keys ∧ w.stage.Ahead w.tasks taskId

/-- A handle that is inserted under a cancelled run is signalled. -/
theorem signalled_insert {manager : BackgroundTaskManager} {taskMeta : PersistedTaskMeta}
    {handle : TaskHandle} (hmarked : parentRunId ∈ manager.cancelledRunIds)
    (hown : BackgroundTaskManager.parentRunId taskMeta.parentContext = some parentRunId) :
    ((manager.insertHandleAndCancelIfParentRunCancelled taskMeta.taskId handle
      taskMeta.parentContext).handles.get? taskMeta.taskId).map TaskHandle.cancelled =
        some true := by
  have hcancelled : ({ manager with
      handles := manager.handles.insert taskMeta.taskId handle } :
        BackgroundTaskManager).isParentRunCancelled taskMeta.parentContext = some parentRunId := by
    simp [BackgroundTaskManager.isParentRunCancelled, hown, hmarked]
  unfold BackgroundTaskManager.insertHandleAndCancelIfParentRunCancelled
  simp [hcancelled, BackgroundTaskManager.signal]

/-- The handles of the other tasks are as before. -/
theorem get?_insertHandle {manager : BackgroundTaskManager} {taskId other : TaskId}
    {handle : TaskHandle} {parentContext : TaskParentContext} (hne : other ≠ taskId) :
    (manager.insertHandleAndCancelIfParentRunCancelled taskId handle parentContext).handles.get?
      other = manager.handles.get? other := by
  unfold BackgroundTaskManager.insertHandleAndCancelIfParentRunCancelled
  dsimp only
  split
  · simp [BackgroundTaskManager.signal, AssocMap.get?_modify_of_ne _ _ hne,
      AssocMap.get?_insert_of_ne _ _ hne]
  · exact AssocMap.get?_insert_of_ne _ _ hne

theorem mem_keys_insertHandle {manager : BackgroundTaskManager} {taskId : TaskId}
    {handle : TaskHandle} {parentContext : TaskParentContext} :
    taskId ∈ (manager.insertHandleAndCancelIfParentRunCancelled taskId handle
      parentContext).handles.keys := by
  rw [AssocMap.mem_keys]
  unfold BackgroundTaskManager.insertHandleAndCancelIfParentRunCancelled
  dsimp only
  split
  · exact ⟨{ handle with cancelled := true }, by simp [BackgroundTaskManager.signal]⟩
  · exact ⟨handle, AssocMap.get?_insert_self _ _ _⟩

theorem tasks_insertHandle {manager : BackgroundTaskManager} {taskId : TaskId}
    {handle : TaskHandle} {parentContext : TaskParentContext} :
    (manager.insertHandleAndCancelIfParentRunCancelled taskId handle parentContext).tasks =
      manager.tasks ∧
    (manager.insertHandleAndCancelIfParentRunCancelled taskId handle
      parentContext).cancelledRunIds = manager.cancelledRunIds := by
  unfold BackgroundTaskManager.insertHandleAndCancelIfParentRunCancelled
  dsimp only
  split <;> exact ⟨rfl, rfl⟩

/-- What a live descendant needs behind a step, from what it had before. -/
private theorem covered_mono {w w' : Sweeping} {taskId : TaskId} (hstage : w'.stage = w.stage)
    (hflight : ∀ id ∈ w.process.inFlightIds, id ∈ w'.process.inFlightIds)
    (hhandles : w'.process.manager.handles = w.process.manager.handles)
    (hgrows : Grows w.tasks w'.tasks)
    (h : taskId ∈ w.process.inFlightIds ∨ w.process.Signalled taskId ∨
      taskId ∈ w.process.manager.handles.keys ∧ w.stage.Ahead w.tasks taskId) :
    taskId ∈ w'.process.inFlightIds ∨ w'.process.Signalled taskId ∨
      taskId ∈ w'.process.manager.handles.keys ∧ w'.stage.Ahead w'.tasks taskId := by
  cases h with
  | inl hown => exact .inl (hflight taskId hown)
  | inr hrest =>
    refine .inr (hrest.imp ?_ ?_)
    · intro hsignalled
      unfold BackgroundProcess.Signalled
      rw [hhandles]
      exact hsignalled
    · intro hahead
      rw [hhandles, hstage]
      exact ⟨hahead.1, hahead.2.grows hgrows⟩

private theorem Grows.refl (tasks : AssocMap TaskId PersistedTaskMeta) : Grows tasks tasks :=
  ⟨fun _ h => h, fun taskMeta h => ⟨taskMeta, h, rfl, rfl⟩⟩

/-- Every allowed step of the process keeps the sweep on course. -/
theorem onCourse_run (h : OnCourse parentRunId self) {op : ProcessOp}
    (hok : self.Allows parentRunId (.run op)) :
    OnCourse parentRunId (self.step parentRunId (.run op)) := by
  have hregistered := BackgroundProcess.registered_step h.registered hok.1
  have hmoves := BackgroundProcess.step_moves h.registered op
  have hcontains := hok.2
  cases hmoves with
  | quiet htasks hhandles hruns hflight =>
    have hsame : (self.step parentRunId (.run op)).tasks = self.tasks := htasks
    have hgrows : Grows self.tasks (self.step parentRunId (.run op)).tasks :=
      hsame ▸ Grows.refl self.tasks
    refine ⟨hregistered, fun hstage => ?_, fun id hid => ?_, fun hread id hrunning hleads => ?_⟩
    · exact (congrArg (parentRunId ∈ ·) hruns).mpr (h.marked hstage)
    · exact (h.targets id hid).grows hgrows
    · rw [hsame] at hrunning hleads
      exact covered_mono (w := self) rfl hflight hhandles hgrows (h.covered hread id hrunning hleads)
  | commits s taskMeta hget hstage hid hnew htasks hhandles hruns hflight =>
    have hsame : (self.step parentRunId (.run (.advance _ _))).tasks =
      self.tasks.insert taskMeta.taskId taskMeta := htasks
    have hgrows : Grows self.tasks (self.step parentRunId (.run (.advance _ _))).tasks :=
      hsame ▸ grows_insert_new hnew
    refine ⟨hregistered, fun hstage => ?_, fun id hid => ?_, fun hread id hrunning hleads => ?_⟩
    · exact (congrArg (parentRunId ∈ ·) hruns).mpr (h.marked hstage)
    · exact (h.targets id hid).grows hgrows
    · by_cases hown : id = taskMeta.taskId
      · exact .inl (hflight id (.inl hown))
      · have horphan : ∀ other ∈ self.tasks.values,
            other.parentContext.taskId ≠ some taskMeta.taskId := by
          have hs := hcontains hread s hget
          rw [Contains, hstage] at hs
          exact hs taskMeta.taskId hid
        rw [hsame, Running, AssocMap.get?_insert_of_ne _ _ hown] at hrunning
        rw [hsame] at hleads
        exact covered_mono (w := self) rfl (fun other hother => hflight other (.inr hother)) hhandles hgrows
          (h.covered hread id hrunning (hleads.of_insert_new horphan hown))
  | @inserts index now _ s taskMeta hget hstage hmanager hflight =>
    have hsame : (self.step parentRunId (.run (.advance index now))).tasks = self.tasks := by
      show BackgroundTaskManager.tasks (self.process.step (.advance index now)).manager = _
      rw [hmanager]
      exact tasks_insertHandle.1
    have hruns : (self.step parentRunId (.run (.advance index now))).process.manager.cancelledRunIds =
        self.process.manager.cancelledRunIds := by
      show (self.process.step (.advance index now)).manager.cancelledRunIds = _
      rw [hmanager]
      exact tasks_insertHandle.2
    have hgrows : Grows self.tasks (self.step parentRunId (.run (.advance index now))).tasks :=
      hsame ▸ Grows.refl self.tasks
    refine ⟨hregistered, fun hstage => ?_, fun id hid => ?_, fun hread id hrunning hleads => ?_⟩
    · exact (congrArg (parentRunId ∈ ·) hruns).mpr (h.marked hstage)
    · exact (h.targets id hid).grows hgrows
    · rw [hsame] at hrunning hleads
      by_cases hown : id = taskMeta.taskId
      · have hs := hcontains hread s hget
        rw [Contains, hstage] at hs
        cases hs (hown ▸ hleads) with
        | inl hrun =>
          have hmarked : parentRunId ∈ self.process.manager.cancelledRunIds := by
            apply h.marked
            intro hidle
            rw [show (self.step parentRunId (.run (.advance index now))).stage = self.stage from rfl,
              hidle] at hread
            exact hread
          refine .inr (.inl ?_)
          show (AssocMap.get? (self.process.step (.advance index now)).manager.handles id).map _ = _
          rw [hmanager, hown]
          exact signalled_insert hmarked hrun
        | inr hahead =>
          refine .inr (.inr ⟨?_, ?_⟩)
          · show id ∈ AssocMap.keys (self.process.step (.advance index now)).manager.handles
            rw [hmanager, hown]
            exact mem_keys_insertHandle
          · rw [hown]
            exact hahead.grows hgrows
      · have hhandle : (self.step parentRunId (.run (.advance index now))).process.manager.handles.get?
            id = self.process.manager.handles.get? id := by
          show AssocMap.get? (self.process.step (.advance index now)).manager.handles id = _
          rw [hmanager]
          exact get?_insertHandle hown
        cases h.covered hread id hrunning hleads with
        | inl hbefore => exact .inl ((hflight id hbefore).resolve_left hown)
        | inr hrest =>
          refine .inr (hrest.imp ?_ ?_)
          · intro hsignalled
            unfold BackgroundProcess.Signalled
            rw [hhandle]
            exact hsignalled
          · intro hahead
            rw [AssocMap.mem_keys, hhandle, ← AssocMap.mem_keys]
            exact ⟨hahead.1, hahead.2.grows hgrows⟩
  | @completes _ result now _ taskMeta hstored htasks hhandles hruns hflight =>
    have hended : (taskMeta.ended result now).taskId = taskMeta.taskId ∧
        (taskMeta.ended result now).parentContext = taskMeta.parentContext ∧
        (taskMeta.ended result now).status ≠ .running := by
      cases result <;> exact ⟨rfl, rfl, by simp [PersistedTaskMeta.ended]⟩
    have hboth := grows_insert_same hstored hended.1 hended.2.1
    have hsame : (self.step parentRunId (.run (.complete _ _ _))).tasks =
      self.tasks.insert taskMeta.taskId (taskMeta.ended result now) := htasks
    have hgrows : Grows self.tasks (self.step parentRunId (.run (.complete _ _ _))).tasks :=
      hsame ▸ hboth.1
    refine ⟨hregistered, fun hstage => ?_, fun id hid => ?_, fun hread id hrunning hleads => ?_⟩
    · exact (congrArg (parentRunId ∈ ·) hruns).mpr (h.marked hstage)
    · exact (h.targets id hid).grows hgrows
    · have hother : id ≠ taskMeta.taskId := by
        intro heq
        rw [hsame, Running, heq, AssocMap.get?_insert_self] at hrunning
        exact hended.2.2 (Option.some.inj hrunning)
      rw [hsame, Running, AssocMap.get?_insert_of_ne _ _ hother] at hrunning
      rw [hsame] at hleads
      exact covered_mono (w := self) rfl hflight hhandles hgrows
        (h.covered hread id hrunning (hleads.grows hboth.2))

/-- Handles are all that a sweep changes behind its mark. -/
private theorem registered_handles {manager : BackgroundTaskManager} {process : BackgroundProcess}
    {restored : AssocMap TaskId PersistedTaskMeta} {issued : Nat}
    (h : process.Registered restored issued) {handles : AssocMap TaskId TaskHandle}
    (heq : manager = { process.manager with handles := handles })
    (hkeys : ∀ taskId, taskId ∈ handles.keys ↔ taskId ∈ process.manager.handles.keys) :
    BackgroundProcess.Registered { process with manager := manager } restored issued := by
  subst heq
  exact { h with handles := fun taskId hmem => Registered.handles h taskId ((hkeys taskId).mp hmem) }

/-- A root that is read is in the store, is running and was spawned by the run. -/
theorem mem_rootTaskIds {manager : BackgroundTaskManager} {root : TaskId} :
    root ∈ manager.rootTaskIds parentRunId ↔ ∃ taskMeta ∈ manager.tasks.values,
      taskMeta.taskId = root ∧ taskMeta.status = .running ∧
        taskMeta.parentContext.runId = some parentRunId ∧ taskMeta.parentContext.taskId = none := by
  have hstatus : ∀ status : TaskStatus, status.isTerminal = false ↔ status = .running := by
    intro status
    cases status <;> simp [TaskStatus.isTerminal]
  simp only [BackgroundTaskManager.rootTaskIds, List.mem_map, List.mem_filter, Bool.and_eq_true,
    Bool.not_eq_true', beq_iff_eq, Option.isNone_iff_eq_none, hstatus]
  exact exists_congr fun taskMeta => by tauto

/-- Every access of the sweep keeps it on course. -/
theorem onCourse_sweep (h : OnCourse parentRunId self) (hok : self.Allows parentRunId .sweep) :
    OnCourse parentRunId (self.step parentRunId .sweep) ∧
      ∀ taskId, (self.step parentRunId .sweep).process.Signalled taskId →
        self.process.Signalled taskId ∨ LeadsTo self.tasks parentRunId taskId := by
  obtain ⟨process, stage, restored, issued⟩ := self
  obtain ⟨hregistered, hmarked, htargets, hcovered⟩ := h
  cases stage with
  | idle =>
    refine ⟨⟨?_, fun _ => List.mem_insert_self, fun _ hid => absurd hid List.not_mem_nil,
      fun hread => hread.elim⟩, fun taskId hsignalled => .inl hsignalled⟩
    exact { hregistered with }
  | marked =>
    refine ⟨⟨hregistered, fun _ => hmarked (by simp), fun root hroot => ?_,
      fun _ id hrunning hleads => ?_⟩, fun taskId hsignalled => .inl hsignalled⟩
    · obtain ⟨taskMeta, hmem, hid, -, hrun, -⟩ := mem_rootTaskIds.mp hroot
      exact ⟨taskMeta, hmem, hrun, hid ▸ ParentTree.Below.refl⟩
    · have hkey : id ∈ process.manager.tasks.keys := by
        obtain ⟨taskMeta, hget, -⟩ := Option.map_eq_some_iff.mp hrunning
        exact AssocMap.mem_keys.mpr ⟨taskMeta, hget⟩
      refine (hok rfl id hkey hrunning hleads).imp_right (Or.imp_right (And.imp_right ?_))
      intro hroot
      obtain ⟨root, hmem, ⟨taskMeta, hget, hid, hlive, hrun, hnone⟩, hbelow⟩ := hroot
      exact ⟨root, mem_rootTaskIds.mpr ⟨taskMeta, AssocMap.mem_values.mpr ⟨root, hget⟩, hid, hlive,
        hrun, hnone⟩, hmem, hbelow⟩
  | trees rootTaskIds cancelled =>
    cases rootTaskIds with
    | nil =>
      refine ⟨⟨hregistered, fun _ => hmarked (by simp), fun _ hid => absurd hid List.not_mem_nil,
        fun _ id hrunning hleads => ?_⟩, fun taskId hsignalled => .inl hsignalled⟩
      refine (hcovered trivial id hrunning hleads).imp_right (Or.imp_right (And.imp_right ?_))
      intro hahead
      obtain ⟨root, hroot, -⟩ := hahead
      exact absurd hroot List.not_mem_nil
    | cons root rootTaskIds =>
      have hroot : LeadsTo process.manager.tasks parentRunId root :=
        htargets root List.mem_cons_self
      cases process.manager.taskTreeIds_spec root with
      | inl hnone =>
        have hstep : step parentRunId
            ⟨process, .trees (root :: rootTaskIds) cancelled, restored, issued⟩ .sweep =
            ⟨process, .trees rootTaskIds cancelled, restored, issued⟩ := by
          simp only [step, SweepStage.advance, hnone.1]
        rw [hstep]
        refine ⟨⟨hregistered, fun _ => hmarked (by simp),
          fun id hid => htargets id (List.mem_cons_of_mem _ hid),
          fun _ id hrunning hleads => ?_⟩, fun taskId hsignalled => .inl hsignalled⟩
        refine (hcovered trivial id hrunning hleads).imp_right (Or.imp_right (And.imp_right ?_))
        intro hahead
        obtain ⟨above, habove, hkey, hbelow⟩ := hahead
        cases List.mem_cons.mp habove with
        | inl heq => exact absurd (heq ▸ hkey) hnone.2
        | inr hrest => exact ⟨above, hrest, hkey, hbelow⟩
      | inr hsome =>
        obtain ⟨taskIds, htree, -, hmem⟩ := hsome
        have hstep : step parentRunId
            ⟨process, .trees (root :: rootTaskIds) cancelled, restored, issued⟩ .sweep =
            ⟨process, .signalling taskIds rootTaskIds cancelled, restored, issued⟩ := by
          simp only [step, SweepStage.advance, htree]
        rw [hstep]
        refine ⟨⟨hregistered, fun _ => hmarked (by simp), fun id hid => ?_,
          fun _ id hrunning hleads => ?_⟩, fun taskId hsignalled => .inl hsignalled⟩
        · cases List.mem_append.mp hid with
          | inl htreeId => exact hroot.below ((hmem id).mp htreeId)
          | inr hrest => exact htargets id (List.mem_cons_of_mem _ hrest)
        · refine (hcovered trivial id hrunning hleads).imp_right (Or.imp_right (And.imp_right ?_))
          intro hahead
          obtain ⟨above, habove, hkey, hbelow⟩ := hahead
          cases List.mem_cons.mp habove with
          | inl heq => exact .inl ((hmem id).mpr (heq ▸ hbelow))
          | inr hrest => exact .inr ⟨above, hrest, hkey, hbelow⟩
  | signalling taskIds rootTaskIds cancelled =>
    have heq := BackgroundTaskManager.signalLive_eq taskIds process.manager
    have hkeys := BackgroundTaskManager.mem_signalLive_keys taskIds process.manager
    have hhandles := BackgroundTaskManager.signalLive_handles taskIds process.manager
    have hsame : BackgroundTaskManager.tasks
        (BackgroundTaskManager.signalLive taskIds process.manager).2 = process.manager.tasks := by
      rw [heq]
      rfl
    refine ⟨⟨registered_handles hregistered heq hkeys, fun _ => ?_, fun id hid => ?_,
      fun _ id hrunning hleads => ?_⟩, fun taskId hsignalled => ?_⟩
    · show parentRunId ∈ (BackgroundTaskManager.signalLive taskIds process.manager).2.cancelledRunIds
      rw [heq]
      exact hmarked (by simp)
    · show LeadsTo (BackgroundTaskManager.signalLive taskIds process.manager).2.tasks
        parentRunId id
      rw [hsame]
      exact htargets id (List.mem_append_right _ hid)
    · replace hrunning : Running process.manager.tasks id := hsame ▸ hrunning
      replace hleads : LeadsTo process.manager.tasks parentRunId id := hsame ▸ hleads
      have hafter : ∀ handle, process.manager.handles.get? id = some handle →
          (handle.cancelled = true ∨ id ∈ taskIds) →
          (AssocMap.get? (BackgroundTaskManager.signalLive taskIds process.manager).2.handles
            id).map TaskHandle.cancelled = some true := by
        intro handle hget hcancelled
        have hlive : process.manager.isTerminalTask id = false := by
          obtain ⟨taskMeta, hmeta, hstatus⟩ := Option.map_eq_some_iff.mp hrunning
          simp [BackgroundTaskManager.isTerminalTask, hmeta, hstatus, TaskStatus.isTerminal]
        rw [hhandles, hget]
        by_cases hmem : id ∈ taskIds
        · simp [hmem, hlive]
        · simp [hmem, hcancelled.resolve_right hmem]
      cases hcovered trivial id hrunning hleads with
      | inl hflight => exact .inl hflight
      | inr hrest =>
        cases hrest with
        | inl hsignalled =>
          obtain ⟨handle, hget, hcancelled⟩ := Option.map_eq_some_iff.mp hsignalled
          exact .inr (.inl (hafter handle hget (.inl hcancelled)))
        | inr hahead =>
          obtain ⟨handle, hget⟩ := AssocMap.mem_keys.mp hahead.1
          cases hahead.2 with
          | inl hmem => exact .inr (.inl (hafter handle hget (.inr hmem)))
          | inr hroots =>
            refine .inr (.inr ⟨(hkeys id).mpr hahead.1, ?_⟩)
            show ∃ root ∈ rootTaskIds,
              root ∈ (BackgroundTaskManager.signalLive taskIds process.manager).2.tasks.keys ∧
                IsBelow (BackgroundTaskManager.signalLive taskIds process.manager).2.tasks root id
            rw [hsame]
            exact hroots
    · replace hsignalled : (AssocMap.get? (BackgroundTaskManager.signalLive taskIds
          process.manager).2.handles taskId).map TaskHandle.cancelled = some true := hsignalled
      rw [hhandles] at hsignalled
      obtain ⟨handle', hmap, hcancelled⟩ := Option.map_eq_some_iff.mp hsignalled
      obtain ⟨handle, hget, rfl⟩ := Option.map_eq_some_iff.mp hmap
      by_cases hmem : taskId ∈ taskIds
      · exact .inr (htargets taskId (List.mem_append_left _ hmem))
      · rw [if_neg (fun hboth => hmem hboth.1)] at hcancelled
        exact .inl (Option.map_eq_some_iff.mpr ⟨handle, hget, hcancelled⟩)
  | returned cancelled =>
    exact ⟨⟨hregistered, hmarked, htargets, hcovered⟩, fun taskId hsignalled => .inl hsignalled⟩

/-- A sweep that has not begun is on course. -/
theorem onCourse_start {process : BackgroundProcess}
    {restored : AssocMap TaskId PersistedTaskMeta} {issued : Nat}
    (h : process.Registered restored issued) :
    OnCourse parentRunId ⟨process, .idle, restored, issued⟩ where
  registered := h
  marked hidle := absurd rfl hidle
  targets _ hid := absurd hid List.not_mem_nil
  covered hread := hread.elim

theorem onCourse_step (h : OnCourse parentRunId self) {op : SweepOp}
    (hok : self.Allows parentRunId op) : OnCourse parentRunId (self.step parentRunId op) := by
  cases op with
  | run op => exact onCourse_run h hok
  | sweep => exact (onCourse_sweep h hok).1

theorem cancelsDescendants_step (h : OnCourse parentRunId self) {op : SweepOp}
    (hok : self.Allows parentRunId op) :
    CancelsDescendants parentRunId ⟨self, op, (), self.step parentRunId op⟩ := by
  have hafter := onCourse_step h hok
  refine ⟨?_, ?_, ?_⟩
  · intro cancelled hreturned taskId hrunning hleads
    dsimp only at hreturned
    have hread : (self.step parentRunId op).stage.HasRead := by
      rw [hreturned]
      trivial
    have hnot : ¬ (self.step parentRunId op).stage.Ahead
        (self.step parentRunId op).tasks taskId := by
      rw [hreturned]
      exact id
    exact (hafter.covered hread taskId hrunning hleads).imp_right
      fun hrest => hrest.resolve_right fun hahead => hnot hahead.2
  · intro cancelled hreturned index now hevent s hs taskMeta hstage hleads
    dsimp only at hreturned hevent hs hleads
    subst hevent
    have hread : self.stage.HasRead := by
      rw [hreturned]
      trivial
    have hcontains := hok.2 hread s hs
    rw [Contains, hstage] at hcontains
    have hown : BackgroundTaskManager.parentRunId taskMeta.parentContext = some parentRunId := by
      apply (hcontains hleads).resolve_right
      rw [hreturned]
      exact id
    have hmarked : parentRunId ∈ self.process.manager.cancelledRunIds :=
      h.marked (by rw [hreturned]; simp)
    have hmanager : (self.process.step (.advance index now)).manager =
        self.process.manager.insertHandleAndCancelIfParentRunCancelled taskMeta.taskId
          ⟨taskMeta.taskId, taskMeta.ownerThreadId, false⟩ taskMeta.parentContext := by
      have hindex : self.process.spawning[index]? = some s := hs
      simp only [BackgroundProcess.step, BackgroundProcess.advance, hindex, Spawning.advance,
        hstage]
    show (AssocMap.get? (self.process.step (.advance index now)).manager.handles
      taskMeta.taskId).map TaskHandle.cancelled = some true
    rw [hmanager]
    exact signalled_insert hmarked hown
  · intro hevent taskId hsignalled
    dsimp only at hevent
    subst hevent
    exact (onCourse_sweep h hok).2 taskId hsignalled

end Sweeping

/-- In every run of a process with a sweep whose steps are allowed, the sweep reaches the
    descendants of the run and no other task. -/
theorem run_cancelsDescendants (parentRunId : String) (process : BackgroundProcess)
    (restored : AssocMap TaskId PersistedTaskMeta) (issued : Nat)
    (hprocess : process.Registered restored issued) (ops : List SweepOp)
    (hallowed : (sweepMachine parentRunId).Along (Sweeping.Allows parentRunId)
      ⟨process, .idle, restored, issued⟩ ops) :
    ∀ t ∈ (sweepMachine parentRunId).trace ⟨process, .idle, restored, issued⟩ ops,
      CancelsDescendants parentRunId t :=
  (sweepMachine parentRunId).trace_forall (Sweeping.OnCourse parentRunId)
    (Sweeping.Allows parentRunId) (CancelsDescendants parentRunId)
    (fun _ _ h hok => Sweeping.onCourse_step h hok)
    (fun _ _ h hok => Sweeping.cancelsDescendants_step h hok)
    (Sweeping.onCourse_start hprocess)
    ops hallowed

/-! ## A live root, and a root that has finished -/

/-- A sub-agent that a run spawns, or that a task spawns for the run. -/
private def agentCall (runId : String) (taskId : Option TaskId) : SpawnCall where
  kind := .agent
  ownerThreadId := "t"
  name := none
  description := "work"
  parentContext := { runId := some runId, taskId := none, callId := none, agentId := none }
  task := taskId.map fun taskId => ⟨taskId, some runId⟩
  tool := none

/-- A spawn that nobody interrupts. -/
private def spawnAgent (runId : String) (taskId : Option TaskId) : List SweepOp :=
  .run (.enter (agentCall runId taskId)) :: List.replicate 6 (.run (.advance 0 0))

/-- A task of another run, a root with a child, and a spawn of the child that the sweep overtakes. -/
private def liveRootOps : List SweepOp :=
  spawnAgent "other" none ++ spawnAgent "r" none ++ spawnAgent "r" (some "bg_1") ++
    [.run (.enter (agentCall "r" (some "bg_2"))), .run (.advance 0 0), .run (.advance 0 0),
      .sweep, .sweep, .run (.advance 0 0), .run (.advance 0 0), .run (.advance 0 0),
      .sweep, .sweep, .sweep, .run (.advance 0 0)]

theorem run_cancelsDescendants_liveRoot :
    ((sweepMachine "r").run ⟨.restart "t" none, .idle, AssocMap.empty, 0⟩
        liveRootOps).process.manager.handles.values.map TaskHandle.cancelled =
          [false, true, true, true] ∧
      ∀ t ∈ (sweepMachine "r").trace ⟨.restart "t" none, .idle, AssocMap.empty, 0⟩ liveRootOps,
        CancelsDescendants "r" t :=
  ⟨by decide, run_cancelsDescendants "r" (.restart "t" none) AssocMap.empty 0
    (BackgroundProcess.registered_restart "t" none) liveRootOps (by decide)⟩

/-- A root and its child; the root finishes, and the run is cancelled. -/
private def finishedRootOps : List SweepOp :=
  spawnAgent "r" none ++ spawnAgent "r" (some "bg_0") ++
    [.run (.complete 0 (.success ⟨"null"⟩) 1), .sweep, .sweep]

/-- The child of a root that has finished is not reached. -/
theorem cancelDescendantsForRun_missesChild :
    let start : Sweeping := ⟨.restart "t" none, .idle, AssocMap.empty, 0⟩
    let w := (sweepMachine "r").run start (finishedRootOps ++ [.sweep])
    w.stage = .returned 0 ∧ w.process.inFlightIds = [] ∧ Running w.tasks "bg_1" ∧
      LeadsTo w.tasks "r" "bg_1" ∧ ¬ w.process.Signalled "bg_1" ∧
      ¬ ∀ t ∈ (sweepMachine "r").trace start (finishedRootOps ++ [.sweep]),
        CancelsDescendants "r" t := by
  intro start w
  have hreturned : w.stage = .returned 0 := by decide
  have hflight : w.process.inFlightIds = [] := by decide
  have hrunning : Running w.tasks "bg_1" := by decide
  have hleads : LeadsTo w.tasks "r" "bg_1" := by decide
  have hmissed : ¬ w.process.Signalled "bg_1" := by decide
  refine ⟨hreturned, hflight, hrunning, hleads, hmissed, fun hall => ?_⟩
  have hlast := hall _ ((sweepMachine "r").last_mem_trace start finishedRootOps .sweep)
  cases hlast.swept 0 hreturned "bg_1" hrunning hleads with
  | inl hmem =>
    have hnone : "bg_1" ∉ w.process.inFlightIds := by
      rw [hflight]
      exact List.not_mem_nil
    exact hnone hmem
  | inr hsignalled => exact hmissed hsignalled

end Remo
