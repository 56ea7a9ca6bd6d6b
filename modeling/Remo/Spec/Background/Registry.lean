import Mathlib.Data.List.Perm.Basic
import Remo.Native.Background.Process
import Remo.Spec.Scope

/-!
# Spawns, tasks and the store

What each access of a spawn does, and how the ids that spawns hold, the tasks that have not ended
and the metadata in the store agree in every process.

## Key results

- `commitMeta_upsert`: a commit writes the metadata of one task
- `Spawning.advance_spec`: what the next access of a spawn can be
- `onRunStart_eq`: the hook at the start of a run changes nothing
- `Registered.issue`, `Registered.commit`, `Registered.start`, `Registered.complete`: one lemma for
  each access
- `Registered.step`: what a step of a process keeps, as long as the ids it hands out are new
-/

/-! ## What the background task manager does

One lemma for each access of a spawn. All of them read and write the tasks of one store.
-/

namespace Remo

theorem taskIdOf_inj {m n : UInt64} (h : taskIdOf m = taskIdOf n) : m = n := append_toString_inj h

namespace BackgroundTaskManager

/-- The manager has a store with the key of the tasks. -/
def Bound (self : BackgroundTaskManager) : Prop :=
  ∃ store, self.store = some store ∧
    store.registry.ensureKey "background_task_state" = .ok ()

/-- The metadata of a task was written, and nothing else. -/
structure Upserts (manager : BackgroundTaskManager) (taskMeta : PersistedTaskMeta)
    (manager' : BackgroundTaskManager) : Prop where
  bound : manager'.Bound
  handles : manager'.handles = manager.handles
  counter : manager'.counter = manager.counter
  cancelledRunIds : manager'.cancelledRunIds = manager.cancelledRunIds
  snapshot : manager'.snapshot.isSome
  tasks : manager'.tasks = manager.tasks.insert taskMeta.taskId taskMeta

/-- A commit of a bound manager writes the metadata of one task. -/
theorem commitMeta_upsert {self : BackgroundTaskManager} (h : self.Bound)
    (taskMeta : PersistedTaskMeta) :
    ∃ self', self.commitMeta (.upsert taskMeta) = .ok self' ∧ self.Upserts taskMeta self' := by
  obtain ⟨store, hstore, hkey⟩ := h
  have hcommit : store.commit (MutationBatch.new.update () (.upsert taskMeta)) =
      .ok (store.revision + 1, { store with inner := ⟨store.revision + 1,
        store.inner.ext.update () (.upsert taskMeta)⟩ }) := by
    have htouched : (MutationBatch.new.update () (.upsert taskMeta) :
        MutationBatch backgroundKeys).touchedKeys.forM store.registry.ensureKey = .ok () := by
      show (store.registry.ensureKey "background_task_state" >>= fun _ => pure PUnit.unit) = _
      rw [hkey]
      rfl
    simp only [StateStore.commit, htouched]
    rfl
  refine ⟨_, by rw [commitMeta, hstore]; dsimp only; rw [hcommit], ?_⟩
  refine ⟨⟨_, rfl, hkey⟩, rfl, rfl, rfl, rfl, ?_⟩
  have hread : self.snapshot = store.read := by rw [snapshot, hstore]; rfl
  show AssocMap.insert ((store.inner.ext ()).getD _).tasks _ _ = _
  rw [tasks, hread, BackgroundStore.read]
  cases store.inner.ext () <;> rfl

/-! ## Restore -/

/-- Tasks that are in the store are not restored. -/
theorem restoreForThread_of_stored {self : BackgroundTaskManager}
    {snapshot : BackgroundTaskStateSnapshot} (threadId : String)
    (h : ∀ taskId ∈ snapshot.tasks.keys, taskId ∈ self.tasks.keys) :
    self.restoreForThread threadId snapshot = self := by
  unfold restoreForThread
  cases hstore : self.store with
  | none => rfl
  | some store =>
    have hread : self.tasks = (store.read.getD BackgroundTaskStateSnapshot.default).tasks := by
      rw [tasks, BackgroundTaskManager.snapshot, hstore]
      show ((store.read).map _).getD _ = _
      cases store.read <;> rfl
    have hentries : ∀ entry ∈ snapshot.tasks.entries,
        entry.1 ∈ (store.read.getD BackgroundTaskStateSnapshot.default).tasks.keys := by
      intro entry hentry
      rw [← hread]
      exact h entry.1 (List.mem_map_of_mem hentry)
    dsimp only
    generalize snapshot.tasks.entries = entries at hentries
    induction entries with
    | nil => rfl
    | cons entry entries ih =>
      have hskip : restoreTask threadId (store.read.getD BackgroundTaskStateSnapshot.default) self
          entry = self := by
        simp only [restoreTask, if_pos (hentries entry List.mem_cons_self)]
      rw [List.foldl_cons, hskip]
      exact ih fun e he => hentries e (List.mem_cons_of_mem _ he)

/-- The snapshot that the hook restores is the one of the store it restores into, so nothing is
    restored. -/
theorem onRunStart_eq (self : BackgroundTaskManager) (threadId : String) :
    self.onRunStart threadId = self := by
  apply restoreForThread_of_stored
  intro taskId hmem
  have htasks : self.tasks = (self.snapshot.getD BackgroundTaskStateSnapshot.default).tasks := by
    rw [tasks]
    cases self.snapshot <;> rfl
  rwa [htasks]

/-! ## Names -/

/-- No task of the thread that is running has the name. -/
theorem validateName_ok {self : BackgroundTaskManager} {name threadId : String}
    (h : self.validateName name threadId = .ok ()) {taskId : TaskId} {taskMeta : PersistedTaskMeta}
    (hget : self.tasks.get? taskId = some taskMeta) (hthread : taskMeta.ownerThreadId = threadId)
    (hrunning : taskMeta.status = .running) : taskMeta.name ≠ some name := by
  intro hname
  unfold validateName at h
  split at h
  · cases h
  · have hany : (self.tasks.values.any fun taskMeta => taskMeta.ownerThreadId == threadId &&
        !taskMeta.status.isTerminal && taskMeta.name == some name) = true := by
      rw [List.any_eq_true]
      exact ⟨taskMeta, AssocMap.mem_values.mpr ⟨taskId, hget⟩,
        by simp [hthread, hrunning, hname, TaskStatus.isTerminal]⟩
    rw [if_pos hany] at h
    cases h

end BackgroundTaskManager

/-! ## Spawns -/

namespace Spawning

open BackgroundTaskManager

/-- What the next access of a spawn can be. -/
inductive Advances (now : UInt64) (self : Spawning) (manager : BackgroundTaskManager) :
    SpawnProgress → BackgroundTaskManager → Prop where
  | misnamed (e : SpawnError) (hstage : self.stage = .entered) :
    Advances now self manager (.returns (.error e)) manager
  | named (hstage : self.stage = .entered)
      (hfree : ∀ name, self.call.name = some name → ∀ taskId taskMeta,
        manager.tasks.get? taskId = some taskMeta →
        taskMeta.ownerThreadId = self.call.ownerThreadId → taskMeta.status = .running →
        taskMeta.name ≠ some name) :
    Advances now self manager (.goesOn { self with stage := .named }) manager
  | refused (runId : String) (hstage : self.stage = .named)
      (hcancelled : manager.isParentRunCancelled self.call.context = some runId) :
    Advances now self manager (.returns (.error (.parentRunCancelled runId))) manager
  | checked (hstage : self.stage = .named)
      (hopen : manager.isParentRunCancelled self.call.context = none) :
    Advances now self manager (.goesOn { self with stage := .checked }) manager
  | reserves (hstage : self.stage = .checked) (hid : self.taskId = none) :
    Advances now self manager (.goesOn { self with taskId := some (taskIdOf manager.counter) })
      { manager with counter := manager.counter + 1 }
  | commits (taskId : TaskId) (manager' : BackgroundTaskManager) (hstage : self.stage = .checked)
      (hid : self.taskId = some taskId)
      (hupserts : manager.Upserts (self.call.runningMeta taskId now) manager') :
    Advances now self manager
      (.goesOn { self with stage := .committed (self.call.runningMeta taskId now) }) manager'
  | starts (taskMeta : PersistedTaskMeta) (hstage : self.stage = .committed taskMeta) :
    Advances now self manager (.starts taskMeta { self with stage := .started taskMeta }) manager
  | inserts (taskMeta : PersistedTaskMeta) (hstage : self.stage = .started taskMeta) :
    Advances now self manager (.returns (.ok taskMeta.taskId))
      (manager.insertHandleAndCancelIfParentRunCancelled taskMeta.taskId
        ⟨taskMeta.taskId, taskMeta.ownerThreadId, false⟩ taskMeta.parentContext)

theorem advance_spec {manager : BackgroundTaskManager} (hbound : manager.Bound) (now : UInt64)
    (self : Spawning) :
    Advances now self manager (self.advance now manager).1 (self.advance now manager).2 := by
  unfold advance
  cases hstage : self.stage with
  | entered =>
    simp only [checkName]
    cases hname : self.call.name with
    | none => exact .named hstage (by simp [hname])
    | some name =>
      dsimp only
      cases hvalid : manager.validateName name self.call.ownerThreadId with
      | error e => exact .misnamed e hstage
      | ok _ =>
        refine .named hstage fun name' hname' taskId taskMeta hget hthread hrunning => ?_
        rw [hname] at hname'
        cases hname'
        exact validateName_ok hvalid hget hthread hrunning
  | named =>
    simp only [checkRun]
    cases hrun : manager.isParentRunCancelled self.call.context with
    | none => exact .checked hstage hrun
    | some runId => exact .refused runId hstage hrun
  | checked =>
    dsimp only
    cases hid : self.taskId with
    | none =>
      have hreserves : Advances now self manager _ _ := .reserves hstage hid
      rw [hstage] at hreserves
      exact hreserves
    | some taskId =>
      obtain ⟨manager', hcommit, hupserts⟩ :=
        commitMeta_upsert hbound (self.call.runningMeta taskId now)
      simp only [commit, hcommit]
      exact .commits taskId manager' hstage hid hupserts
  | committed taskMeta => exact .starts taskMeta hstage
  | started taskMeta => exact .inserts taskMeta hstage

end Spawning

end Remo

/-! ## Spawns, tasks and the store

The ids that spawns hold, the tasks that have not ended and the metadata in the store agree in
every process. Each access of a spawn keeps that, and so does the end of a task.
-/

namespace Remo

/-- The step hands out an id. -/
def BackgroundProcess.reserves (self : BackgroundProcess) : ProcessOp → Bool
  | .enter call =>
    match call.kind with
    | .task _ => true
    | .agent => false
  | .advance index _ =>
    match self.spawning[index]? with
    | some spawning => decide (spawning.stage = .checked) && spawning.taskId.isNone
    | none => false
  | .complete _ _ _ => false

/-! ## What the process holds -/

namespace Spawning

/-- The id of a spawn whose task has not started. -/
def heldId (self : Spawning) : Option TaskId :=
  match self.stage with
  | .started _ => none
  | _ => self.taskId

/-- The metadata that a spawn has committed for a task that has not started. -/
def committedMeta (self : Spawning) : Option PersistedTaskMeta :=
  match self.stage with
  | .committed taskMeta => some taskMeta
  | _ => none

/-- The metadata of the spawn is not committed. -/
def Uncommitted (self : Spawning) : Prop :=
  self.stage = .entered ∨ self.stage = .named ∨ self.stage = .checked

end Spawning

section Held

variable (spawning : List Spawning) (executing : List PersistedTaskMeta)

/-- The ids of tasks that have not ended. -/
def heldIds : List TaskId :=
  spawning.filterMap Spawning.heldId ++ executing.map PersistedTaskMeta.taskId

/-- The tasks that are committed and have not ended. -/
def liveTasks : List PersistedTaskMeta := spawning.filterMap Spawning.committedMeta ++ executing

end Held

/-- The id was handed out. -/
def IssuedBelow (issued : Nat) (taskId : TaskId) : Prop :=
  ∃ n < issued, taskId = taskIdOf (UInt64.ofNat n)

/-- No task is running. -/
def Settled (tasks : AssocMap TaskId PersistedTaskMeta) : Prop :=
  ∀ taskMeta ∈ tasks.values, taskMeta.status ≠ .running

/-- The spawns on their way and the executing tasks agree with the store. A restored task that is
    running belongs to no process. -/
structure Registered (restored : AssocMap TaskId PersistedTaskMeta) (issued : Nat)
    (manager : BackgroundTaskManager) (spawning : List Spawning)
    (executing : List PersistedTaskMeta) : Prop where
  bound : manager.Bound
  counter : manager.counter = UInt64.ofNat issued
  issued_le : issued ≤ 0x10000000000000000
  new : ∀ taskId, IssuedBelow issued taskId → taskId ∉ restored.keys
  known : ∀ taskId ∈ manager.tasks.keys, taskId ∈ restored.keys ∨ IssuedBelow issued taskId
  heldNodup : (heldIds spawning executing).Nodup
  heldIssued : ∀ taskId ∈ heldIds spawning executing, IssuedBelow issued taskId
  uncommitted : ∀ s ∈ spawning, s.Uncommitted → ∀ taskId, s.taskId = some taskId →
    manager.tasks.get? taskId = none
  committed : ∀ s ∈ spawning, ∀ taskMeta, s.stage = .committed taskMeta →
    s.taskId = some taskMeta.taskId ∧ taskMeta.ownerThreadId = s.call.ownerThreadId ∧
      taskMeta.name = s.call.name
  started : ∀ s ∈ spawning, ∀ taskMeta, s.stage = .started taskMeta →
    taskMeta.taskId ∈ manager.tasks.keys
  live : ∀ taskMeta ∈ liveTasks spawning executing,
    taskMeta.status = .running ∧ manager.tasks.get? taskMeta.taskId = some taskMeta
  running : ∀ taskId taskMeta, manager.tasks.get? taskId = some taskMeta →
    taskMeta.status = .running →
    (taskMeta ∈ liveTasks spawning executing ∧ taskMeta.taskId = taskId) ∨
      restored.get? taskId = some taskMeta
  handles : ∀ taskId ∈ manager.handles.keys, taskId ∈ manager.tasks.keys

namespace Registered

variable {restored : AssocMap TaskId PersistedTaskMeta} {issued : Nat}
  {manager manager' : BackgroundTaskManager} {spawning spawning' : List Spawning}
  {executing executing' : List PersistedTaskMeta}

/-- The order of the spawns and of the tasks does not matter. -/
theorem perm (h : Registered restored issued manager spawning executing)
    (hs : spawning.Perm spawning') (he : executing.Perm executing') :
    Registered restored issued manager spawning' executing' := by
  have hheld : (heldIds spawning executing).Perm (heldIds spawning' executing') :=
    (hs.filterMap _).append (he.map _)
  have hlive : (liveTasks spawning executing).Perm (liveTasks spawning' executing') :=
    (hs.filterMap _).append he
  exact
    { h with
      heldNodup := hheld.nodup_iff.mp h.heldNodup
      heldIssued := fun id hid => h.heldIssued id (hheld.mem_iff.mpr hid)
      uncommitted := fun s hmem => h.uncommitted s (hs.mem_iff.mpr hmem)
      committed := fun s hmem => h.committed s (hs.mem_iff.mpr hmem)
      started := fun s hmem => h.started s (hs.mem_iff.mpr hmem)
      live := fun m hm => h.live m (hlive.mem_iff.mpr hm)
      running := fun id m hget hrunning =>
        (h.running id m hget hrunning).imp_left (And.imp_left hlive.mem_iff.mp) }

theorem heldIds_cons (s : Spawning) :
    heldIds (s :: spawning) executing = s.heldId.toList ++ heldIds spawning executing := by
  unfold heldIds
  cases hs : s.heldId <;> simp [hs]

theorem liveTasks_cons (s : Spawning) :
    liveTasks (s :: spawning) executing =
      s.committedMeta.toList ++ liveTasks spawning executing := by
  unfold liveTasks
  cases hs : s.committedMeta <;> simp [hs]

/-- A spawn that has committed nothing, or whose task has started, goes away. -/
theorem tail {s : Spawning} (h : Registered restored issued manager (s :: spawning) executing)
    (hmeta : s.committedMeta = none) :
    Registered restored issued manager spawning executing := by
  have hheld := h.heldNodup
  have hlive : liveTasks (s :: spawning) executing = liveTasks spawning executing := by
    rw [liveTasks_cons, hmeta]
    rfl
  rw [heldIds_cons] at hheld
  exact
    { h with
      heldNodup := hheld.sublist (List.sublist_append_right _ _)
      heldIssued := fun id hid => h.heldIssued id (by
        rw [heldIds_cons]
        exact List.mem_append_right _ hid)
      uncommitted := fun s' hs' => h.uncommitted s' (List.mem_cons_of_mem _ hs')
      committed := fun s' hs' => h.committed s' (List.mem_cons_of_mem _ hs')
      started := fun s' hs' => h.started s' (List.mem_cons_of_mem _ hs')
      live := by rw [← hlive]; exact h.live
      running := by rw [← hlive]; exact h.running }

/-- A spawn that is about to commit goes on to its next check. -/
theorem head {s next : Spawning} (h : Registered restored issued manager (s :: spawning) executing)
    (hs : s.Uncommitted) (hnext : next.Uncommitted) (hid : next.taskId = s.taskId) :
    Registered restored issued manager (next :: spawning) executing := by
  have hheld : heldIds (next :: spawning) executing = heldIds (s :: spawning) executing := by
    rw [heldIds_cons, heldIds_cons]
    rcases hs with hs | hs | hs <;> rcases hnext with hn | hn | hn <;>
      simp [Spawning.heldId, hs, hn, hid]
  have hlive : liveTasks (next :: spawning) executing = liveTasks (s :: spawning) executing := by
    rw [liveTasks_cons, liveTasks_cons]
    rcases hs with hs | hs | hs <;> rcases hnext with hn | hn | hn <;>
      simp [Spawning.committedMeta, hs, hn]
  have hnot : ∀ taskMeta, next.stage ≠ .committed taskMeta ∧ next.stage ≠ .started taskMeta := by
    intro taskMeta
    rcases hnext with hn | hn | hn <;> simp [hn]
  refine
    { h with
      heldNodup := hheld ▸ h.heldNodup
      heldIssued := hheld ▸ h.heldIssued
      uncommitted := ?_
      committed := ?_
      started := ?_
      live := hlive ▸ h.live
      running := hlive ▸ h.running }
  · intro s' hs' huncommitted taskId htask
    cases List.mem_cons.mp hs' with
    | inl heq =>
      rw [heq, hid] at htask
      exact h.uncommitted s List.mem_cons_self hs taskId htask
    | inr hmem => exact h.uncommitted s' (List.mem_cons_of_mem _ hmem) huncommitted taskId htask
  · intro s' hs' taskMeta hstage
    cases List.mem_cons.mp hs' with
    | inl heq => exact absurd (heq ▸ hstage) (hnot taskMeta).1
    | inr hmem => exact h.committed s' (List.mem_cons_of_mem _ hmem) taskMeta hstage
  · intro s' hs' taskMeta hstage
    cases List.mem_cons.mp hs' with
    | inl heq => exact absurd (heq ▸ hstage) (hnot taskMeta).2
    | inr hmem => exact h.started s' (List.mem_cons_of_mem _ hmem) taskMeta hstage

/-! ## Ids -/

/-- The next id has not been handed out. -/
theorem not_issued_next (h : Registered restored issued manager spawning executing)
    (hissued : issued < 0x10000000000000000) : ¬ IssuedBelow issued (taskIdOf manager.counter) := by
  intro hold
  obtain ⟨n, hn, hid⟩ := hold
  have hsame := congrArg UInt64.toNat (taskIdOf_inj hid)
  rw [h.counter, UInt64.toNat_ofNat', UInt64.toNat_ofNat'] at hsame
  omega

/-- The next id is new to the store and to the spawns. -/
theorem issue (h : Registered restored issued manager spawning executing)
    (hissued : issued < 0x10000000000000000) (hnew : taskIdOf manager.counter ∉ restored.keys) :
    Registered restored (issued + 1) { manager with counter := manager.counter + 1 } spawning
        executing ∧
      IssuedBelow (issued + 1) (taskIdOf manager.counter) ∧
      taskIdOf manager.counter ∉ heldIds spawning executing ∧
      manager.tasks.get? (taskIdOf manager.counter) = none := by
  have hfresh := h.not_issued_next hissued
  have hmono : ∀ taskId, IssuedBelow issued taskId → IssuedBelow (issued + 1) taskId := by
    intro taskId hold
    obtain ⟨n, hn, hid⟩ := hold
    exact ⟨n, by omega, hid⟩
  have hnext : ∀ taskId, IssuedBelow (issued + 1) taskId →
      IssuedBelow issued taskId ∨ taskId = taskIdOf manager.counter := by
    intro taskId hold
    obtain ⟨n, hn, hid⟩ := hold
    by_cases hlast : n = issued
    · exact .inr (by rw [hid, h.counter, hlast])
    · exact .inl ⟨n, by omega, hid⟩
  refine ⟨?_, ⟨issued, by omega, by rw [h.counter]⟩, fun hheld => hfresh (h.heldIssued _ hheld), ?_⟩
  · exact
      { h with
        counter := by
          show manager.counter + 1 = _
          rw [h.counter, UInt64.ofNat_add]
          rfl
        issued_le := hissued
        new := by
          intro taskId hold
          cases hnext taskId hold with
          | inl hbefore => exact h.new taskId hbefore
          | inr hlast => rw [hlast]; exact hnew
        known := fun taskId hmem => (h.known taskId hmem).imp_right (hmono taskId)
        heldIssued := fun taskId hheld => hmono taskId (h.heldIssued taskId hheld) }
  · rw [AssocMap.get?_eq_none]
    intro hmem
    cases h.known _ hmem with
    | inl hrestored => exact hnew hrestored
    | inr hold => exact hfresh hold

/-- A spawn comes in, without an id or with a new one. -/
theorem cons (h : Registered restored issued manager spawning executing) {s : Spawning}
    (hs : s.Uncommitted)
    (hid : ∀ taskId, s.taskId = some taskId → IssuedBelow issued taskId ∧
      taskId ∉ heldIds spawning executing ∧ manager.tasks.get? taskId = none) :
    Registered restored issued manager (s :: spawning) executing := by
  have hheld : s.heldId = s.taskId := by
    rcases hs with hs | hs | hs <;> simp [Spawning.heldId, hs]
  have hlive : liveTasks (s :: spawning) executing = liveTasks spawning executing := by
    rw [liveTasks_cons]
    rcases hs with hs | hs | hs <;> simp [Spawning.committedMeta, hs]
  have hnot : ∀ taskMeta, s.stage ≠ .committed taskMeta ∧ s.stage ≠ .started taskMeta := by
    intro taskMeta
    rcases hs with hs | hs | hs <;> simp [hs]
  refine
    { h with
      heldNodup := ?_
      heldIssued := ?_
      uncommitted := ?_
      committed := ?_
      started := ?_
      live := hlive ▸ h.live
      running := hlive ▸ h.running }
  · rw [heldIds_cons, hheld]
    cases htask : s.taskId with
    | none => exact h.heldNodup
    | some taskId => exact List.nodup_cons.mpr ⟨(hid taskId htask).2.1, h.heldNodup⟩
  · intro taskId hmem
    rw [heldIds_cons, hheld] at hmem
    cases List.mem_append.mp hmem with
    | inl hown => exact (hid taskId (Option.mem_toList.mp hown)).1
    | inr hother => exact h.heldIssued taskId hother
  · intro s' hs' huncommitted taskId htask
    cases List.mem_cons.mp hs' with
    | inl heq => exact (hid taskId (heq ▸ htask)).2.2
    | inr hmem => exact h.uncommitted s' hmem huncommitted taskId htask
  · intro s' hs' taskMeta hstage
    cases List.mem_cons.mp hs' with
    | inl heq => exact absurd (heq ▸ hstage) (hnot taskMeta).1
    | inr hmem => exact h.committed s' hmem taskMeta hstage
  · intro s' hs' taskMeta hstage
    cases List.mem_cons.mp hs' with
    | inl heq => exact absurd (heq ▸ hstage) (hnot taskMeta).2
    | inr hmem => exact h.started s' hmem taskMeta hstage

/-! ## Commits -/

/-- A live task has another id than a spawn that is about to commit. -/
theorem live_ne {s : Spawning} {taskId : TaskId} {taskMeta : PersistedTaskMeta}
    (h : Registered restored issued manager (s :: spawning) executing) (hs : s.Uncommitted)
    (hid : s.taskId = some taskId) (hlive : taskMeta ∈ liveTasks spawning executing) :
    taskMeta.taskId ≠ taskId := by
  intro heq
  have hnone := h.uncommitted s List.mem_cons_self hs taskId hid
  have hmem : taskMeta ∈ liveTasks (s :: spawning) executing := by
    rw [liveTasks_cons]
    exact List.mem_append_right _ hlive
  have hsome := (h.live taskMeta hmem).2
  rw [heq, hnone] at hsome
  cases hsome

/-- A spawn commits its metadata. -/
theorem commit {s : Spawning} {taskId : TaskId} {now : UInt64}
    (h : Registered restored issued manager (s :: spawning) executing) (hstage : s.stage = .checked)
    (hid : s.taskId = some taskId)
    (hupserts : manager.Upserts (s.call.runningMeta taskId now) manager') :
    Registered restored issued manager'
      ({ s with stage := .committed (s.call.runningMeta taskId now) } :: spawning) executing := by
  have hnone := h.uncommitted s List.mem_cons_self (.inr (.inr hstage)) taskId hid
  have hget : ∀ id, manager'.tasks.get? id =
      if id = taskId then some (s.call.runningMeta taskId now) else manager.tasks.get? id :=
    fun id => by rw [hupserts.tasks, AssocMap.get?_insert]; rfl
  have hkeys : ∀ id ∈ manager.tasks.keys, id ∈ manager'.tasks.keys := by
    intro id hmem
    obtain ⟨taskMeta, hmeta⟩ := AssocMap.mem_keys.mp hmem
    rw [AssocMap.mem_keys, hget]
    split
    · exact ⟨_, rfl⟩
    · exact ⟨taskMeta, hmeta⟩
  have hold := h.tail (by simp [Spawning.committedMeta, hstage])
  have hheldId : s.heldId = some taskId := by simp [Spawning.heldId, hstage, hid]
  have hheld := h.heldNodup
  rw [heldIds_cons, hheldId] at hheld
  have hother : taskId ∉ heldIds spawning executing := (List.nodup_cons.mp hheld).1
  refine
    { bound := hupserts.bound
      counter := hupserts.counter.trans h.counter
      issued_le := h.issued_le
      new := h.new
      known := ?_
      heldNodup := ?_
      heldIssued := ?_
      uncommitted := ?_
      committed := ?_
      started := ?_
      live := ?_
      running := ?_
      handles := ?_ }
  · intro id hmem
    obtain ⟨taskMeta, hmeta⟩ := AssocMap.mem_keys.mp hmem
    rw [hget] at hmeta
    by_cases hsame : id = taskId
    · refine .inr (hsame ▸ h.heldIssued taskId ?_)
      rw [heldIds_cons, hheldId]
      exact List.mem_cons_self
    · rw [if_neg hsame] at hmeta
      exact h.known id (AssocMap.mem_keys.mpr ⟨taskMeta, hmeta⟩)
  · rw [heldIds_cons]
    simpa [Spawning.heldId, hid] using hheld
  · have hissued := h.heldIssued
    rw [heldIds_cons, hheldId] at hissued
    rw [heldIds_cons]
    simpa [Spawning.heldId, hid] using hissued
  · intro s' hs' huncommitted id htask
    cases List.mem_cons.mp hs' with
    | inl heq => rcases huncommitted with hu | hu | hu <;> simp [heq] at hu
    | inr hmem =>
      have hne : id ≠ taskId := by
        intro heq
        apply hother
        have hheld' : s'.heldId = some taskId := by
          rcases huncommitted with hu | hu | hu <;> simp [Spawning.heldId, hu, htask, heq]
        exact List.mem_append_left _ (List.mem_filterMap.mpr ⟨s', hmem, hheld'⟩)
      rw [hget, if_neg hne]
      exact hold.uncommitted s' hmem huncommitted id htask
  · intro s' hs' taskMeta hcommitted
    cases List.mem_cons.mp hs' with
    | inl heq =>
      rw [heq] at hcommitted ⊢
      cases hcommitted
      exact ⟨hid, rfl, rfl⟩
    | inr hmem => exact hold.committed s' hmem taskMeta hcommitted
  · intro s' hs' taskMeta hstarted
    cases List.mem_cons.mp hs' with
    | inl heq => simp [heq] at hstarted
    | inr hmem => exact hkeys _ (hold.started s' hmem taskMeta hstarted)
  · intro taskMeta hmem
    rw [liveTasks_cons] at hmem
    cases List.mem_append.mp hmem with
    | inl hown =>
      cases List.mem_singleton.mp hown
      exact ⟨rfl, (hget taskId).trans (if_pos rfl)⟩
    | inr hrest =>
      have hne := h.live_ne (.inr (.inr hstage)) hid hrest
      rw [hget, if_neg hne]
      exact hold.live taskMeta hrest
  · intro id taskMeta hmeta hrunning
    rw [hget] at hmeta
    rw [liveTasks_cons]
    by_cases hsame : id = taskId
    · rw [if_pos hsame] at hmeta
      cases hmeta
      exact .inl ⟨List.mem_cons_self, hsame.symm⟩
    · rw [if_neg hsame] at hmeta
      exact (hold.running id taskMeta hmeta hrunning).imp_left
        (And.imp_left (List.mem_append_right _))
  · intro id hmem
    rw [hupserts.handles] at hmem
    exact hkeys id (h.handles id hmem)

/-- The task of a spawn starts. -/
theorem start {s : Spawning} {taskMeta : PersistedTaskMeta}
    (h : Registered restored issued manager (s :: spawning) executing)
    (hstage : s.stage = .committed taskMeta) :
    Registered restored issued manager ({ s with stage := .started taskMeta } :: spawning)
      (taskMeta :: executing) := by
  obtain ⟨hid, howner, hname⟩ := h.committed s List.mem_cons_self taskMeta hstage
  have hmeta : taskMeta ∈ liveTasks (s :: spawning) executing := by
    rw [liveTasks_cons]
    simp [Spawning.committedMeta, hstage]
  have hheld : (heldIds ({ s with stage := .started taskMeta } :: spawning)
      (taskMeta :: executing)).Perm (heldIds (s :: spawning) executing) := by
    rw [heldIds_cons, heldIds_cons]
    simp only [Spawning.heldId, hstage, hid, heldIds, List.map_cons, Option.toList_none,
      Option.toList_some, List.nil_append, List.singleton_append]
    exact List.perm_middle
  have hlive : (liveTasks ({ s with stage := .started taskMeta } :: spawning)
      (taskMeta :: executing)).Perm (liveTasks (s :: spawning) executing) := by
    rw [liveTasks_cons, liveTasks_cons]
    simp only [Spawning.committedMeta, hstage, liveTasks, Option.toList_none,
      Option.toList_some, List.nil_append, List.singleton_append]
    exact List.perm_middle
  refine
    { h with
      heldNodup := hheld.nodup_iff.mpr h.heldNodup
      heldIssued := fun id hmem => h.heldIssued id (hheld.mem_iff.mp hmem)
      uncommitted := ?_
      committed := ?_
      started := ?_
      live := fun m hm => h.live m (hlive.mem_iff.mp hm)
      running := fun id m hget hrunning =>
        (h.running id m hget hrunning).imp_left (And.imp_left hlive.mem_iff.mpr) }
  · intro s' hs' huncommitted id htask
    cases List.mem_cons.mp hs' with
    | inl heq => rcases huncommitted with hu | hu | hu <;> simp [heq] at hu
    | inr hmem => exact h.uncommitted s' (List.mem_cons_of_mem _ hmem) huncommitted id htask
  · intro s' hs' taskMeta' hcommitted
    cases List.mem_cons.mp hs' with
    | inl heq => simp [heq] at hcommitted
    | inr hmem => exact h.committed s' (List.mem_cons_of_mem _ hmem) taskMeta' hcommitted
  · intro s' hs' taskMeta' hstarted
    cases List.mem_cons.mp hs' with
    | inl heq =>
      rw [heq] at hstarted
      cases hstarted
      exact AssocMap.mem_keys.mpr ⟨taskMeta, (h.live taskMeta hmeta).2⟩
    | inr hmem => exact h.started s' (List.mem_cons_of_mem _ hmem) taskMeta' hstarted

/-- A spawn inserts the handle of its task and returns. -/
theorem insert {s : Spawning} {taskMeta : PersistedTaskMeta} {handle : TaskHandle}
    {parentContext : TaskParentContext}
    (h : Registered restored issued manager (s :: spawning) executing)
    (hstage : s.stage = .started taskMeta) :
    Registered restored issued
      (manager.insertHandleAndCancelIfParentRunCancelled taskMeta.taskId handle parentContext)
      spawning executing := by
  have hold := h.tail (by simp [Spawning.committedMeta, hstage])
  have hstarted := h.started s List.mem_cons_self taskMeta hstage
  have hinserted : ∀ id ∈ (manager.handles.insert taskMeta.taskId handle).keys,
      id ∈ manager.tasks.keys := by
    intro id hmem
    obtain ⟨found, hfound⟩ := AssocMap.mem_keys.mp hmem
    rw [AssocMap.get?_insert] at hfound
    by_cases hsame : id = taskMeta.taskId
    · rw [hsame]
      exact hstarted
    · rw [if_neg hsame] at hfound
      exact h.handles id (AssocMap.mem_keys.mpr ⟨found, hfound⟩)
  unfold BackgroundTaskManager.insertHandleAndCancelIfParentRunCancelled
  dsimp only
  split
  · refine { hold with handles := fun id hmem => hinserted id ?_ }
    obtain ⟨found, hfound⟩ := AssocMap.mem_keys.mp hmem
    simp only [BackgroundTaskManager.signal, AssocMap.get?_modify] at hfound
    rw [AssocMap.mem_keys]
    split at hfound
    · rename_i hsame
      rw [hsame, AssocMap.get?_insert_self]
      exact ⟨handle, rfl⟩
    · exact ⟨found, hfound⟩
  · exact { hold with handles := hinserted }

/-- An executing task ends. -/
theorem complete {taskMeta : PersistedTaskMeta} {result : TaskResult} {now : UInt64}
    (h : Registered restored issued manager spawning (taskMeta :: executing))
    (hupserts : manager.Upserts (taskMeta.ended result now) manager') :
    Registered restored issued manager' spawning executing := by
  have hended : (taskMeta.ended result now).taskId = taskMeta.taskId ∧
      (taskMeta.ended result now).status ≠ .running := by
    cases result <;> exact ⟨rfl, by simp [PersistedTaskMeta.ended]⟩
  have hget : ∀ id, manager'.tasks.get? id =
      if id = taskMeta.taskId then some (taskMeta.ended result now) else manager.tasks.get? id :=
    fun id => by rw [hupserts.tasks, AssocMap.get?_insert, hended.1]
  have hkeys : ∀ id, id ∈ manager'.tasks.keys ↔ id ∈ manager.tasks.keys := by
    intro id
    rw [AssocMap.mem_keys, AssocMap.mem_keys, hget]
    by_cases hsame : id = taskMeta.taskId
    · have hmem : taskMeta ∈ liveTasks spawning (taskMeta :: executing) := by simp [liveTasks]
      rw [if_pos hsame, hsame, (h.live taskMeta hmem).2]
      simp
    · rw [if_neg hsame]
  have hheld : (heldIds spawning (taskMeta :: executing)).Perm
      (taskMeta.taskId :: heldIds spawning executing) := List.perm_middle
  have hlive : (liveTasks spawning (taskMeta :: executing)).Perm
      (taskMeta :: liveTasks spawning executing) := List.perm_middle
  obtain ⟨hother, hnodup⟩ := List.nodup_cons.mp (hheld.nodup_iff.mp h.heldNodup)
  -- a live task other than the one that ends has another id
  have hne : ∀ other ∈ liveTasks spawning executing, other.taskId ≠ taskMeta.taskId := by
    intro other hmem heq
    apply hother
    rw [← heq]
    cases List.mem_append.mp hmem with
    | inl hspawn =>
      obtain ⟨s, hs, hcommitted⟩ := List.mem_filterMap.mp hspawn
      have hstage : s.stage = .committed other := by
        unfold Spawning.committedMeta at hcommitted
        split at hcommitted
        · rename_i hstage
          cases hcommitted
          exact hstage
        · cases hcommitted
      have hheldId : s.heldId = some other.taskId := by
        simp [Spawning.heldId, hstage, (h.committed s hs other hstage).1]
      exact List.mem_append_left _ (List.mem_filterMap.mpr ⟨s, hs, hheldId⟩)
    | inr hexecuting => exact List.mem_append_right _ (List.mem_map_of_mem hexecuting)
  refine
    { bound := hupserts.bound
      counter := hupserts.counter.trans h.counter
      issued_le := h.issued_le
      new := h.new
      known := fun id hmem => h.known id ((hkeys id).mp hmem)
      heldNodup := hnodup
      heldIssued := fun id hmem => h.heldIssued id (hheld.mem_iff.mpr (List.mem_cons_of_mem _ hmem))
      uncommitted := ?_
      committed := h.committed
      started := fun s hs m hm => (hkeys _).mpr (h.started s hs m hm)
      live := ?_
      running := ?_
      handles := ?_ }
  · intro s hs huncommitted id htask
    have hnone := h.uncommitted s hs huncommitted id htask
    rw [← AssocMap.get?_eq_none.mpr (mt (hkeys id).mp (AssocMap.get?_eq_none.mp hnone))]
  · intro other hmem
    obtain ⟨hrunning, hstored⟩ := h.live other (hlive.mem_iff.mpr (List.mem_cons_of_mem _ hmem))
    exact ⟨hrunning, by rw [hget, if_neg (hne other hmem), hstored]⟩
  · intro id other hstored hrunning
    rw [hget] at hstored
    by_cases hsame : id = taskMeta.taskId
    · rw [if_pos hsame] at hstored
      cases hstored
      exact absurd hrunning hended.2
    · rw [if_neg hsame] at hstored
      cases h.running id other hstored hrunning with
      | inr hrestored => exact .inr hrestored
      | inl hown =>
        obtain ⟨hmem, hkey⟩ := hown
        cases List.mem_cons.mp (hlive.mem_iff.mp hmem) with
        | inl heq => exact absurd (hkey.symm.trans (by rw [heq])) hsame
        | inr hrest => exact .inl ⟨hrest, hkey⟩
  · intro id hmem
    rw [hupserts.handles] at hmem
    exact (hkeys id).mpr (h.handles id hmem)

/-- A running task is one of the process when no restored task is running. -/
theorem live_of_running (h : Registered restored issued manager spawning executing)
    (hsettled : Settled restored) {taskId : TaskId} {taskMeta : PersistedTaskMeta}
    (hget : manager.tasks.get? taskId = some taskMeta) (hrunning : taskMeta.status = .running) :
    taskMeta ∈ liveTasks spawning executing ∧ taskMeta.taskId = taskId := by
  cases h.running taskId taskMeta hget hrunning with
  | inl hlive => exact hlive
  | inr hrestored =>
    exact absurd hrunning (hsettled taskMeta (AssocMap.mem_values.mpr ⟨taskId, hrestored⟩))

end Registered

/-! ## Steps -/

namespace BackgroundProcess

/-- The spawns and tasks of the process agree with its store. -/
def Registered (self : BackgroundProcess) (restored : AssocMap TaskId PersistedTaskMeta)
    (issued : Nat) : Prop :=
  Remo.Registered restored issued self.manager self.spawning self.executing

/-- The number of ids that are handed out behind a step. -/
def issuedAfter (self : BackgroundProcess) (issued : Nat) (op : ProcessOp) : Nat :=
  if self.reserves op then issued + 1 else issued

/-- An id that the step hands out is new. -/
def HandsOutNew (self : BackgroundProcess) (restored : AssocMap TaskId PersistedTaskMeta)
    (issued : Nat) (op : ProcessOp) : Prop :=
  self.reserves op = true → issued < 0x10000000000000000 ∧
    taskIdOf (UInt64.ofNat issued) ∉ restored.keys

instance (self : BackgroundProcess) (restored : AssocMap TaskId PersistedTaskMeta) (issued : Nat)
    (op : ProcessOp) : Decidable (self.HandsOutNew restored issued op) :=
  inferInstanceAs (Decidable (_ → _ ∧ _))

variable {self : BackgroundProcess} {restored : AssocMap TaskId PersistedTaskMeta} {issued : Nat}

/-- A process that starts from persisted tasks. -/
theorem registered_restart (threadId : String) (persisted : Option BackgroundTaskStateSnapshot) :
    (restart threadId persisted).Registered
      ((persisted.map BackgroundTaskStateSnapshot.tasks).getD AssocMap.empty) 0 := by
  have hmanager : (restart threadId persisted).manager =
      BackgroundTaskManager.new.setStore (BackgroundStore.new.restore persisted) :=
    BackgroundTaskManager.onRunStart_eq
      (BackgroundTaskManager.new.setStore (BackgroundStore.new.restore persisted)) threadId
  have htasks : (BackgroundTaskManager.new.setStore
      (BackgroundStore.new.restore persisted)).tasks =
        (persisted.map BackgroundTaskStateSnapshot.tasks).getD AssocMap.empty := by
    cases persisted <;> rfl
  have hbound : (BackgroundTaskManager.new.setStore
      (BackgroundStore.new.restore persisted)).Bound := by
    cases persisted <;> exact ⟨_, rfl, rfl⟩
  unfold Registered
  rw [hmanager]
  exact
    { bound := hbound
      counter := rfl
      issued_le := Nat.zero_le _
      new := by
        intro taskId hold
        obtain ⟨n, hn, -⟩ := hold
        exact absurd hn (Nat.not_lt_zero n)
      known := by
        intro taskId hmem
        rw [htasks] at hmem
        exact .inl hmem
      heldNodup := List.nodup_nil
      heldIssued := fun taskId hmem => absurd hmem List.not_mem_nil
      uncommitted := fun s hs => absurd hs List.not_mem_nil
      committed := fun s hs => absurd hs List.not_mem_nil
      started := fun s hs => absurd hs List.not_mem_nil
      live := fun taskMeta hmem => absurd hmem List.not_mem_nil
      running := by
        intro taskId taskMeta hget _
        rw [htasks] at hget
        exact .inr hget
      handles := fun taskId hmem => absurd hmem List.not_mem_nil }

theorem issuedAfter_advance {index : Nat} {now : UInt64} {s : Spawning}
    (hget : self.spawning[index]? = some s) (hnot : ¬ (s.stage = .checked ∧ s.taskId = none)) :
    self.issuedAfter issued (.advance index now) = issued := by
  simp only [issuedAfter, reserves, hget]
  simpa using hnot

theorem registered_advance (h : self.Registered restored issued) {index : Nat} {now : UInt64}
    (hnew : self.HandsOutNew restored issued (.advance index now)) :
    (self.advance index now).Registered restored
      (self.issuedAfter issued (.advance index now)) := by
  unfold advance
  cases hget : self.spawning[index]? with
  | none =>
    simp only [issuedAfter, reserves, hget]
    exact h
  | some s =>
    obtain ⟨hindex, hs⟩ := List.getElem?_eq_some_iff.mp hget
    have hperm := List.getElem_cons_eraseIdx_perm hindex
    rw [hs] at hperm
    have hfront := Remo.Registered.perm h hperm.symm (List.Perm.refl _)
    have hset : ∀ next, (next :: self.spawning.eraseIdx index).Perm
        (self.spawning.set index next) := fun next =>
      (List.set_perm_cons_eraseIdx hindex next).symm
    have hadvance := s.advance_spec (Remo.Registered.bound h) now
    dsimp only
    cases hstep : s.advance now self.manager with
    | mk progress manager =>
      simp only [hstep] at hadvance
      cases hadvance with
      | misnamed e hstage =>
        rw [issuedAfter_advance hget (by simp [hstage])]
        exact hfront.tail (by simp [Spawning.committedMeta, hstage])
      | refused runId hstage hcancelled =>
        rw [issuedAfter_advance hget (by simp [hstage])]
        exact hfront.tail (by simp [Spawning.committedMeta, hstage])
      | named hstage hfree =>
        rw [issuedAfter_advance hget (by simp [hstage])]
        apply Remo.Registered.perm ?_ (hset _) (List.Perm.refl _)
        refine Remo.Registered.head hfront (.inl hstage) (.inr (.inl ?_)) ?_ <;> rfl
      | checked hstage hopen =>
        rw [issuedAfter_advance hget (by simp [hstage])]
        apply Remo.Registered.perm ?_ (hset _) (List.Perm.refl _)
        refine Remo.Registered.head hfront (.inr (.inl hstage)) (.inr (.inr ?_)) ?_ <;> rfl
      | reserves hstage htask =>
        have hreserves : self.reserves (.advance index now) = true := by
          simp [BackgroundProcess.reserves, hget, hstage, htask]
        obtain ⟨hissued, hid⟩ := hnew hreserves
        rw [← Remo.Registered.counter h] at hid
        have hold := hfront.tail (by simp [Spawning.committedMeta, hstage])
        obtain ⟨hissue, hnext, hheld, hnone⟩ := hold.issue hissued hid
        rw [issuedAfter, if_pos hreserves]
        dsimp only
        apply Remo.Registered.perm ?_ (hset _) (List.Perm.refl _)
        refine Remo.Registered.cons hissue (.inr (.inr ?_)) ?_
        · exact hstage
        · intro taskId heq
          cases heq
          exact ⟨hnext, hheld, hnone⟩
      | commits taskId _ hstage htask hupserts =>
        rw [issuedAfter_advance hget (by simp [htask])]
        exact (hfront.commit hstage htask hupserts).perm (hset _) (List.Perm.refl _)
      | starts taskMeta hstage =>
        rw [issuedAfter_advance hget (by simp [hstage])]
        exact (hfront.start hstage).perm (hset _) (List.perm_append_singleton _ _).symm
      | inserts taskMeta hstage =>
        rw [issuedAfter_advance hget (by simp [hstage])]
        exact hfront.insert hstage

theorem registered_enter (h : self.Registered restored issued) {call : SpawnCall}
    (hnew : self.HandsOutNew restored issued (.enter call)) :
    (self.step (.enter call)).Registered restored (self.issuedAfter issued (.enter call)) := by
  have hlast : ∀ s, (s :: self.spawning).Perm (self.spawning ++ [s]) := fun s =>
    (List.perm_append_singleton s self.spawning).symm
  cases hkind : call.kind with
  | task taskType =>
    have hreserves : self.reserves (.enter call) = true := by simp [reserves, hkind]
    obtain ⟨hissued, hid⟩ := hnew hreserves
    rw [← Remo.Registered.counter h] at hid
    obtain ⟨hissue, hnext, hheld, hnone⟩ := Remo.Registered.issue h hissued hid
    rw [issuedAfter, if_pos hreserves]
    simp only [step, Spawning.enter, hkind, BackgroundTaskManager.nextTaskId]
    apply Remo.Registered.perm ?_ (hlast _) (List.Perm.refl _)
    refine Remo.Registered.cons hissue (.inl ?_) ?_
    · rfl
    · intro taskId heq
      cases heq
      exact ⟨hnext, hheld, hnone⟩
  | agent =>
    simp only [step, issuedAfter, reserves, Spawning.enter, hkind, Bool.false_eq_true, if_false]
    apply Remo.Registered.perm ?_ (hlast _) (List.Perm.refl _)
    refine Remo.Registered.cons h (.inl ?_) ?_
    · rfl
    · intro taskId heq
      cases heq

/-- The end of a task is an upsert of its metadata. -/
theorem complete_cases (h : self.Registered restored issued) (index : Nat) (result : TaskResult)
    (now : UInt64) :
    (self.executing[index]? = none ∧ self.complete index result now = self) ∨
      ∃ taskMeta manager, self.executing[index]? = some taskMeta ∧
        self.manager.Upserts (taskMeta.ended result now) manager ∧
        self.complete index result now =
          { self with manager := manager, executing := self.executing.eraseIdx index } := by
  unfold complete
  cases hget : self.executing[index]? with
  | none => exact .inl ⟨rfl, rfl⟩
  | some taskMeta =>
    obtain ⟨manager, hcommit, hupserts⟩ :=
      BackgroundTaskManager.commitMeta_upsert (Remo.Registered.bound h) (taskMeta.ended result now)
    refine .inr ⟨taskMeta, manager, rfl, hupserts, ?_⟩
    simp only [BackgroundTaskManager.commitMetaOrWarn, hcommit]

theorem registered_complete (h : self.Registered restored issued) (index : Nat)
    (result : TaskResult) (now : UInt64) :
    (self.complete index result now).Registered restored issued := by
  cases complete_cases h index result now with
  | inl hnone => rw [hnone.2]; exact h
  | inr hsome =>
    obtain ⟨taskMeta, manager, hget, hupserts, heq⟩ := hsome
    obtain ⟨hindex, hs⟩ := List.getElem?_eq_some_iff.mp hget
    have hperm := List.getElem_cons_eraseIdx_perm hindex
    rw [hs] at hperm
    rw [heq]
    exact (Remo.Registered.perm h (List.Perm.refl _) hperm.symm).complete hupserts

/-- A step of a process keeps it registered when the id that it hands out is new. -/
theorem registered_step (h : self.Registered restored issued) {op : ProcessOp}
    (hnew : self.HandsOutNew restored issued op) :
    (self.step op).Registered restored (self.issuedAfter issued op) := by
  cases op with
  | enter call => exact registered_enter h hnew
  | advance index now => exact registered_advance h hnew
  | complete index result now => exact registered_complete h index result now

end BackgroundProcess

end Remo
