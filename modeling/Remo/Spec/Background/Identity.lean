import Mathlib.Data.List.Pairwise
import Remo.ForStd.Machine
import Remo.Spec.Background.Registry

/-!
# The identity of background tasks

A thread lives through processes. Each of them starts from the persisted tasks, hands out ids from
its own counter and writes the metadata of its tasks. The hook at the start of a run does not
advance the counter and does not settle tasks of the process before, so the ids of a process are
new as long as they are not among the restored ones.

## Key results

- `Claimed.advance`: names stay unique when spawns of one name do not overlap
- `run_keepsIdentity`: whole lives of a thread whose steps meet a condition on the restored tasks
  and on overlapping spawns
-/

namespace Remo

/-! ## Lives of a thread -/

/-- The current process and the persisted tasks, with the tasks that the process has started from
    and the number of ids it has handed out. -/
structure ThreadLife where
  process : BackgroundProcess
  persisted : Option BackgroundTaskStateSnapshot
  restored : AssocMap TaskId PersistedTaskMeta
  issued : Nat

/-- What happens to a thread: a step of its process, a checkpoint of its tasks, or a restart. -/
inductive LifeOp where
  | run (op : ProcessOp)
  | persist
  | restart

namespace ThreadLife

/-- A process that starts from persisted tasks. -/
def start (threadId : String) (persisted : Option BackgroundTaskStateSnapshot) : ThreadLife where
  process := BackgroundProcess.restart threadId persisted
  persisted := persisted
  restored := (persisted.map BackgroundTaskStateSnapshot.tasks).getD AssocMap.empty
  issued := 0

def step (threadId : String) (self : ThreadLife) : LifeOp → ThreadLife
  | .run op =>
    { self with
      process := self.process.step op
      issued := self.process.issuedAfter self.issued op }
  | .persist => { self with persisted := self.process.manager.snapshot }
  | .restart => start threadId self.persisted

/-- The metadata in the store of the process. -/
def tasks (self : ThreadLife) : AssocMap TaskId PersistedTaskMeta := self.process.manager.tasks

end ThreadLife

/-- A thread as a machine. -/
def lifeMachine (threadId : String) : Machine ThreadLife LifeOp Unit where
  step self op := ((), self.step threadId op)

/-! ## Names -/

/-- The name that a spawn has passed the check with, for a task that has not started. -/
def Spawning.claim (self : Spawning) : Option (String × String) :=
  match self.stage with
  | .entered => none
  | .started _ => none
  | _ => self.call.name.map (self.call.ownerThreadId, ·)

/-- The name of a task, with its thread. -/
def PersistedTaskMeta.claim (self : PersistedTaskMeta) : Option (String × String) :=
  self.name.map (self.ownerThreadId, ·)

/-- The names that are in use. -/
def claims (spawning : List Spawning) (executing : List PersistedTaskMeta) :
    List (String × String) :=
  spawning.filterMap Spawning.claim ++ executing.filterMap PersistedTaskMeta.claim

/-- No two spawns or tasks of a thread have one name. -/
def BackgroundProcess.Claimed (self : BackgroundProcess) : Prop :=
  (claims self.spawning self.executing).Nodup

/-! ## Conditions -/

/-- Another spawn of the thread has passed the check with the name and has not committed. -/
def Spawning.Rivals (self rival : Spawning) : Prop :=
  (rival.stage = .named ∨ rival.stage = .checked) ∧ rival.call.name = self.call.name ∧
    rival.call.ownerThreadId = self.call.ownerThreadId

/-- A named spawn is about to check its name while it has a rival. -/
def BackgroundProcess.Overlaps (self : BackgroundProcess) (index : Nat) : Prop :=
  ∃ s ∈ self.spawning[index]?, s.stage = .entered ∧ s.call.name ≠ none ∧
    ∃ rival ∈ self.spawning.eraseIdx index, s.Rivals rival

instance (self rival : Spawning) : Decidable (self.Rivals rival) :=
  inferInstanceAs (Decidable (_ ∧ _))

instance (self : BackgroundProcess) (index : Nat) : Decidable (self.Overlaps index) :=
  match h : self.spawning[index]? with
  | none => .isFalse (by simp [BackgroundProcess.Overlaps, h])
  | some s =>
    decidable_of_iff (s.stage = .entered ∧ s.call.name ≠ none ∧
      ∃ rival ∈ self.spawning.eraseIdx index, s.Rivals rival)
      (by simp [BackgroundProcess.Overlaps, h])

instance (tasks : AssocMap TaskId PersistedTaskMeta) : Decidable (Settled tasks) :=
  inferInstanceAs (Decidable (∀ _ ∈ _, _))

namespace ThreadLife

/-- The persisted tasks. -/
def persistedTasks (self : ThreadLife) : AssocMap TaskId PersistedTaskMeta :=
  (self.persisted.map BackgroundTaskStateSnapshot.tasks).getD AssocMap.empty

/-- An id that is handed out is not among the restored ones, spawns of one name do not overlap, and
    a process starts from settled tasks only. -/
def Allows (self : ThreadLife) : LifeOp → Prop
  | .run op =>
    self.process.HandsOutNew self.restored self.issued op ∧
    match op with
    | .advance index _ => ¬ self.process.Overlaps index
    | _ => True
  | .persist => True
  | .restart => Settled self.persistedTasks

instance (self : ThreadLife) (op : LifeOp) : Decidable (self.Allows op) :=
  match op with
  | .run (.enter _) => inferInstanceAs (Decidable (_ ∧ True))
  | .run (.advance _ _) => inferInstanceAs (Decidable (_ ∧ ¬ _))
  | .run (.complete _ _ _) => inferInstanceAs (Decidable (_ ∧ True))
  | .persist => inferInstanceAs (Decidable True)
  | .restart => inferInstanceAs (Decidable (Settled _))

end ThreadLife

/-! ## Claimed names -/

section Claims

variable {spawning spawning' : List Spawning} {executing executing' : List PersistedTaskMeta}

theorem claims_perm (hs : spawning.Perm spawning') (he : executing.Perm executing') :
    (claims spawning executing).Perm (claims spawning' executing') :=
  (hs.filterMap _).append (he.filterMap _)

theorem claims_cons (s : Spawning) :
    claims (s :: spawning) executing = s.claim.toList ++ claims spawning executing := by
  unfold claims
  cases hs : s.claim <;> simp [hs]

/-- A spawn that goes on with the name it has, or without one, leaves the names as they are. -/
theorem claims_head {s next : Spawning} (hclaimed : (claims (s :: spawning) executing).Nodup)
    (hnext : next.claim = s.claim ∨ next.claim = none) :
    (claims (next :: spawning) executing).Nodup := by
  rw [claims_cons] at hclaimed ⊢
  cases hnext with
  | inl hsame => rw [hsame]; exact hclaimed
  | inr hnone =>
    rw [hnone]
    exact hclaimed.sublist (List.sublist_append_right _ _)

theorem claims_tail {s : Spawning} (hclaimed : (claims (s :: spawning) executing).Nodup) :
    (claims spawning executing).Nodup := by
  rw [claims_cons] at hclaimed
  exact hclaimed.sublist (List.sublist_append_right _ _)

end Claims

namespace Registered

variable {restored : AssocMap TaskId PersistedTaskMeta} {issued : Nat}
  {manager : BackgroundTaskManager} {spawning : List Spawning} {executing : List PersistedTaskMeta}

/-- A name is free for a spawn when no running task and no other spawn has it. -/
theorem claims_named {s : Spawning}
    (h : Registered restored issued manager (s :: spawning) executing)
    (hclaimed : (claims (s :: spawning) executing).Nodup) (hstage : s.stage = .entered)
    (hfree : ∀ name, s.call.name = some name → ∀ taskId taskMeta,
      manager.tasks.get? taskId = some taskMeta →
      taskMeta.ownerThreadId = s.call.ownerThreadId → taskMeta.status = .running →
      taskMeta.name ≠ some name)
    (halone : s.call.name ≠ none → ∀ rival ∈ spawning, ¬ s.Rivals rival) :
    (claims ({ s with stage := .named } :: spawning) executing).Nodup := by
  have hold := h.tail (by simp [Spawning.committedMeta, hstage])
  have hlive : ∀ taskMeta ∈ liveTasks spawning executing, ∀ name, s.call.name = some name →
      taskMeta.claim ≠ some (s.call.ownerThreadId, name) := by
    intro taskMeta hmem name hname hclaim
    obtain ⟨hrunning, hget⟩ := hold.live taskMeta hmem
    obtain ⟨claimed, hclaimed, hpair⟩ := Option.map_eq_some_iff.mp hclaim
    obtain ⟨howner, rfl⟩ := Prod.mk.inj hpair
    exact hfree claimed hname _ taskMeta hget howner hrunning hclaimed
  rw [claims_cons]
  cases hname : s.call.name with
  | none => simpa [Spawning.claim, hname] using claims_tail hclaimed
  | some name =>
    simp only [Spawning.claim, hname, Option.map_some, Option.toList_some, List.singleton_append,
      List.nodup_cons]
    refine ⟨fun hmem => ?_, claims_tail hclaimed⟩
    cases List.mem_append.mp hmem with
    | inr hexecuting =>
      obtain ⟨taskMeta, hmeta, hclaim⟩ := List.mem_filterMap.mp hexecuting
      exact hlive taskMeta (List.mem_append_right _ hmeta) name hname hclaim
    | inl hspawn =>
      obtain ⟨rival, hrival, hclaim⟩ := List.mem_filterMap.mp hspawn
      have hcall : (rival.stage = .named ∨ rival.stage = .checked) →
          rival.call.name.map (rival.call.ownerThreadId, ·) = some (s.call.ownerThreadId, name) →
            False := by
        intro hpassed hpair
        obtain ⟨claimed, hclaimed, heq⟩ := Option.map_eq_some_iff.mp hpair
        obtain ⟨howner, rfl⟩ := Prod.mk.inj heq
        have hsome : s.call.name ≠ none := by simp [hname]
        exact halone hsome rival hrival ⟨hpassed, hclaimed.trans hname.symm, howner⟩
      cases hrivalStage : rival.stage with
      | entered => simp [Spawning.claim, hrivalStage] at hclaim
      | started _ => simp [Spawning.claim, hrivalStage] at hclaim
      | named =>
        apply hcall (.inl hrivalStage)
        simpa [Spawning.claim, hrivalStage] using hclaim
      | checked =>
        apply hcall (.inr hrivalStage)
        simpa [Spawning.claim, hrivalStage] using hclaim
      | committed taskMeta =>
        obtain ⟨-, howner, hnamed⟩ := hold.committed rival hrival taskMeta hrivalStage
        have hmeta : taskMeta ∈ liveTasks spawning executing :=
          List.mem_append_left _ (List.mem_filterMap.mpr
            ⟨rival, hrival, by simp [Spawning.committedMeta, hrivalStage]⟩)
        apply hlive taskMeta hmeta name hname
        simpa [Spawning.claim, hrivalStage, PersistedTaskMeta.claim, howner, hnamed] using hclaim

/-- The name of a spawn goes over to its task. -/
theorem claims_started {s : Spawning} {taskMeta : PersistedTaskMeta}
    (h : Registered restored issued manager (s :: spawning) executing)
    (hclaimed : (claims (s :: spawning) executing).Nodup) (hstage : s.stage = .committed taskMeta) :
    (claims ({ s with stage := .started taskMeta } :: spawning) (taskMeta :: executing)).Nodup := by
  obtain ⟨-, howner, hname⟩ := h.committed s List.mem_cons_self taskMeta hstage
  have hsame : taskMeta.claim = s.claim := by
    simp [PersistedTaskMeta.claim, Spawning.claim, hstage, howner, hname]
  refine List.Perm.nodup_iff ?_ |>.mpr hclaimed
  rw [claims_cons, claims_cons, ← hsame]
  cases hclaim : taskMeta.claim with
  | none => simp [Spawning.claim, claims, hclaim]
  | some claimed =>
    simp only [Spawning.claim, claims, List.filterMap_cons_some hclaim, Option.toList_none,
      Option.toList_some, List.nil_append, List.singleton_append]
    exact List.perm_middle

end Registered

namespace BackgroundProcess

variable {self : BackgroundProcess} {restored : AssocMap TaskId PersistedTaskMeta} {issued : Nat}

theorem claimed_advance (h : self.Registered restored issued) (hclaimed : self.Claimed)
    {index : Nat} (now : UInt64) (halone : ¬ self.Overlaps index) :
    (self.advance index now).Claimed := by
  unfold advance
  cases hget : self.spawning[index]? with
  | none => exact hclaimed
  | some s =>
    obtain ⟨hindex, hs⟩ := List.getElem?_eq_some_iff.mp hget
    have hperm := List.getElem_cons_eraseIdx_perm hindex
    rw [hs] at hperm
    have hfront := Remo.Registered.perm h hperm.symm (List.Perm.refl _)
    have hnames : (claims (s :: self.spawning.eraseIdx index) self.executing).Nodup :=
      (claims_perm hperm.symm (List.Perm.refl _)).nodup_iff.mp hclaimed
    have hset : ∀ next executing,
        (claims (next :: self.spawning.eraseIdx index) executing).Nodup →
          (claims (self.spawning.set index next) executing).Nodup := fun next executing =>
      (claims_perm (List.set_perm_cons_eraseIdx hindex next) (List.Perm.refl _)).nodup_iff.mpr
    have hadvance := s.advance_spec (Remo.Registered.bound h) now
    dsimp only
    cases hstep : s.advance now self.manager with
    | mk progress manager =>
      simp only [hstep] at hadvance
      cases hadvance with
      | misnamed e hstage => exact claims_tail hnames
      | refused runId hstage hcancelled => exact claims_tail hnames
      | inserts taskMeta hstage => exact claims_tail hnames
      | named hstage hfree =>
        apply hset
        apply hfront.claims_named hnames hstage hfree
        intro hname rival hrival hrivals
        exact halone ⟨s, hget, hstage, hname, rival, hrival, hrivals⟩
      | checked hstage hopen =>
        apply hset
        exact claims_head hnames (.inl (by simp [Spawning.claim, hstage]))
      | reserves hstage htask =>
        apply hset
        exact claims_head hnames (.inl (by simp [Spawning.claim, hstage]))
      | commits taskId _ hstage htask hupserts =>
        apply hset
        exact claims_head hnames (.inl (by simp [Spawning.claim, hstage]))
      | starts taskMeta hstage =>
        have hstarted := hset _ _ (hfront.claims_started hnames hstage)
        exact (claims_perm (List.Perm.refl _)
          (List.perm_append_singleton taskMeta self.executing).symm).nodup_iff.mp hstarted

/-- A step of a process keeps the names unique when no spawn overlaps with one of its name. -/
theorem claimed_step (h : self.Registered restored issued) (hclaimed : self.Claimed)
    {op : ProcessOp}
    (halone : match op with
      | .advance index _ => ¬ self.Overlaps index
      | _ => True) : (self.step op).Claimed := by
  cases op with
  | enter call =>
    have hlast : (claims ((Spawning.enter call self.manager).1 :: self.spawning)
        self.executing).Nodup := by
      rw [claims_cons]
      unfold Spawning.enter
      cases call.kind <;> exact hclaimed
    exact (claims_perm (List.perm_append_singleton (Spawning.enter call self.manager).1
      self.spawning).symm (List.Perm.refl self.executing)).nodup_iff.mp hlast
  | advance index now => exact claimed_advance h hclaimed now halone
  | complete index result now =>
    show (self.complete index result now).Claimed
    cases complete_cases h index result now with
    | inl hnone => rw [hnone.2]; exact hclaimed
    | inr hsome =>
      obtain ⟨taskMeta, manager, -, -, heq⟩ := hsome
      rw [heq]
      refine List.Nodup.sublist ?_ hclaimed
      exact (List.Sublist.refl _).append ((List.eraseIdx_sublist _ _).filterMap _)

end BackgroundProcess

/-! ## Identity -/

namespace ThreadLife

variable {threadId : String}

/-- The process is registered, its names are unique and it started from settled tasks. -/
structure Kept (w : ThreadLife) : Prop where
  registered : w.process.Registered w.restored w.issued
  claimed : w.process.Claimed
  settled : Settled w.restored

/-- A process that starts from settled tasks is in order. -/
theorem kept_start {persisted : Option BackgroundTaskStateSnapshot}
    (h : Settled ((persisted.map BackgroundTaskStateSnapshot.tasks).getD AssocMap.empty)) :
    (start threadId persisted).Kept :=
  ⟨BackgroundProcess.registered_restart threadId persisted, List.nodup_nil, h⟩

/-- Every step that is allowed keeps the process in order. -/
theorem kept_step {self : ThreadLife} (h : self.Kept) {op : LifeOp} (hok : self.Allows op) :
    (self.step threadId op).Kept := by
  cases op with
  | persist => exact ⟨h.registered, h.claimed, h.settled⟩
  | restart => exact kept_start hok
  | run op =>
    exact ⟨BackgroundProcess.registered_step h.registered hok.1,
      BackgroundProcess.claimed_step h.registered h.claimed hok.2, h.settled⟩

/-- The spawn that a step commits. -/
def commits (self : ThreadLife) : LifeOp → Option TaskId
  | .run (.advance index _) =>
    match self.process.spawning[index]? with
    | some s => if s.stage = .checked then s.taskId else none
    | none => none
  | _ => none

/-- The tasks that are there before a step: the persisted ones before a restart. -/
def tasksBefore (self : ThreadLife) : LifeOp → AssocMap TaskId PersistedTaskMeta
  | .restart => self.persistedTasks
  | _ => self.tasks

end ThreadLife

/-- What a step keeps of the identity of tasks. -/
structure KeepsIdentity (t : Machine.Step ThreadLife LifeOp Unit) : Prop where
  fresh : ∀ taskId, t.before.commits t.event = some taskId → t.before.tasks.get? taskId = none
  settled : t.event = .restart → ∀ taskId taskMeta, t.after.tasks.get? taskId = some taskMeta →
    taskMeta.status = .running → taskId ∈ t.after.process.manager.handles.keys
  executing : ∀ threadId, t.after.process.manager.hasRunning threadId = true →
    ∃ taskMeta ∈ liveTasks t.after.process.spawning t.after.process.executing,
      taskMeta.ownerThreadId = threadId
  names : ∀ taskId taskMeta other otherMeta, taskId ≠ other →
    t.after.tasks.get? taskId = some taskMeta → t.after.tasks.get? other = some otherMeta →
    taskMeta.status = .running → otherMeta.status = .running →
    taskMeta.ownerThreadId = otherMeta.ownerThreadId → taskMeta.name = otherMeta.name →
    taskMeta.name = none
  terminal : ∀ taskId taskMeta, (t.before.tasksBefore t.event).get? taskId = some taskMeta →
    taskMeta.status.isTerminal = true → t.after.tasks.get? taskId = some taskMeta

namespace Registered

variable {restored : AssocMap TaskId PersistedTaskMeta} {issued : Nat}
  {manager : BackgroundTaskManager} {spawning : List Spawning} {executing : List PersistedTaskMeta}

/-- A committed task has the name that its spawn has claimed. -/
theorem committedMeta_claim (h : Registered restored issued manager spawning executing)
    {s : Spawning} (hs : s ∈ spawning) {taskMeta : PersistedTaskMeta}
    (hmeta : s.committedMeta = some taskMeta) : taskMeta.claim = s.claim := by
  unfold Spawning.committedMeta at hmeta
  split at hmeta
  · rename_i committed hstage
    cases hmeta
    obtain ⟨-, howner, hname⟩ := h.committed s hs taskMeta hstage
    simp [PersistedTaskMeta.claim, Spawning.claim, hstage, howner, hname]
  · cases hmeta

/-- The names of live tasks are claimed. -/
theorem live_claims_sublist (h : Registered restored issued manager spawning executing) :
    ((liveTasks spawning executing).filterMap PersistedTaskMeta.claim).Sublist
      (claims spawning executing) := by
  have hspawn : ∀ l : List Spawning, (∀ s ∈ l, s ∈ spawning) →
      ((l.filterMap Spawning.committedMeta).filterMap PersistedTaskMeta.claim).Sublist
        (l.filterMap Spawning.claim) := by
    intro l hl
    induction l with
    | nil => exact List.Sublist.refl _
    | cons s l ih =>
      have hrest := ih fun s' hs' => hl s' (List.mem_cons_of_mem _ hs')
      cases hmeta : s.committedMeta with
      | none =>
        rw [List.filterMap_cons_none hmeta]
        exact hrest.trans ((List.sublist_cons_self s l).filterMap _)
      | some taskMeta =>
        have hclaim := h.committedMeta_claim (hl s List.mem_cons_self) hmeta
        rw [List.filterMap_cons_some hmeta, List.filterMap_cons, List.filterMap_cons, hclaim]
        cases s.claim with
        | none => exact hrest
        | some claimed => exact hrest.cons_cons claimed
  rw [liveTasks, claims, List.filterMap_append]
  exact (hspawn spawning fun _ hs => hs).append (List.Sublist.refl _)

/-- Two running tasks of a thread have different names. -/
theorem names (h : Registered restored issued manager spawning executing)
    (hclaimed : (claims spawning executing).Nodup)
    {taskMeta otherMeta : PersistedTaskMeta} (hmeta : taskMeta ∈ liveTasks spawning executing)
    (hother : otherMeta ∈ liveTasks spawning executing) (hne : taskMeta ≠ otherMeta)
    (howner : taskMeta.ownerThreadId = otherMeta.ownerThreadId)
    (hname : taskMeta.name = otherMeta.name) : taskMeta.name = none := by
  by_contra hsome
  obtain ⟨name, hown⟩ := Option.ne_none_iff_exists'.mp hsome
  have hnodup := hclaimed.sublist h.live_claims_sublist
  have hpairs := List.pairwise_filterMap.mp hnodup
  have hsymm : Std.Symm fun a b : PersistedTaskMeta =>
      ∀ c, a.claim = some c → ∀ d, b.claim = some d → c ≠ d :=
    ⟨fun a b hab c hc d hd => (hab d hd c hc).symm⟩
  have hdistinct := hpairs.forall hmeta hother hne
  have hclaim : taskMeta.claim = some (taskMeta.ownerThreadId, name) := by
    simp [PersistedTaskMeta.claim, hown]
  have hsame : otherMeta.claim = some (taskMeta.ownerThreadId, name) := by
    simp [PersistedTaskMeta.claim, ← hname, hown, howner]
  exact hdistinct _ hclaim _ hsame rfl

/-- A task is executing when one is running. -/
theorem executing_of_hasRunning (h : Registered restored issued manager spawning executing)
    (hsettled : Settled restored) {threadId : String} (hrunning : manager.hasRunning threadId = true) :
    ∃ taskMeta ∈ liveTasks spawning executing, taskMeta.ownerThreadId = threadId := by
  unfold BackgroundTaskManager.hasRunning at hrunning
  cases hsnapshot : manager.snapshot with
  | none =>
    rw [hsnapshot] at hrunning
    obtain ⟨handle, hhandle, -⟩ := List.any_eq_true.mp hrunning
    obtain ⟨taskId, hget⟩ := AssocMap.mem_values.mp hhandle
    have hmem := h.handles taskId (AssocMap.mem_keys.mpr ⟨handle, hget⟩)
    rw [BackgroundTaskManager.tasks, hsnapshot] at hmem
    exact absurd hmem List.not_mem_nil
  | some snapshot =>
    rw [hsnapshot] at hrunning
    obtain ⟨taskMeta, hmem, htest⟩ := List.any_eq_true.mp hrunning
    obtain ⟨taskId, hget⟩ := AssocMap.mem_values.mp hmem
    simp only [Bool.and_eq_true, beq_iff_eq, Bool.not_eq_true'] at htest
    have hstored : manager.tasks.get? taskId = some taskMeta := by
      rw [BackgroundTaskManager.tasks, hsnapshot]
      exact hget
    have hstatus : taskMeta.status = .running := by
      cases hs : taskMeta.status with
      | running => rfl
      | _ => simp [hs, TaskStatus.isTerminal] at htest
    exact ⟨taskMeta, (h.live_of_running hsettled hstored hstatus).1, htest.1⟩

end Registered

namespace ThreadLife

variable {threadId : String}

/-- A terminal task is not written again. -/
theorem terminal_step {self : ThreadLife} (h : self.Kept) (op : LifeOp) {taskId : TaskId}
    {taskMeta : PersistedTaskMeta} (hget : (self.tasksBefore op).get? taskId = some taskMeta)
    (hterminal : taskMeta.status.isTerminal = true) :
    (self.step threadId op).tasks.get? taskId = some taskMeta := by
  cases op with
  | persist => exact hget
  | restart =>
    have hmanager : (start threadId self.persisted).process.manager =
        BackgroundTaskManager.new.setStore (BackgroundStore.new.restore self.persisted) :=
      BackgroundTaskManager.onRunStart_eq
        (BackgroundTaskManager.new.setStore (BackgroundStore.new.restore self.persisted)) threadId
    show (start threadId self.persisted).process.manager.tasks.get? taskId = _
    rw [hmanager, ← hget]
    show _ = self.persistedTasks.get? taskId
    rw [persistedTasks]
    cases self.persisted <;> rfl
  | run op =>
    have hkeep : ∀ (manager : BackgroundTaskManager) (written : PersistedTaskMeta),
        self.process.manager.Upserts written manager →
        (∀ stored, self.process.manager.tasks.get? written.taskId = some stored →
          stored.status = .running) →
        manager.tasks.get? taskId = some taskMeta := by
      intro manager written hupserts hrunning
      rw [hupserts.tasks, AssocMap.get?_insert_of_ne]
      · exact hget
      · intro heq
        have hstatus := hrunning taskMeta (heq ▸ hget)
        rw [hstatus] at hterminal
        cases hterminal
    cases op with
    | enter call =>
      show (Spawning.enter call self.process.manager).2.tasks.get? taskId = _
      unfold Spawning.enter
      cases call.kind <;> exact hget
    | complete index result now =>
      show (self.process.complete index result now).manager.tasks.get? taskId = _
      cases BackgroundProcess.complete_cases h.registered index result now with
      | inl hnone => rw [hnone.2]; exact hget
      | inr hsome =>
        obtain ⟨ending, manager, hindex, hupserts, heq⟩ := hsome
        have hmem : ending ∈ liveTasks self.process.spawning self.process.executing :=
          List.mem_append_right _ (List.mem_of_getElem? hindex)
        obtain ⟨hrunning, hstored⟩ := Registered.live h.registered ending hmem
        rw [heq]
        apply hkeep manager _ hupserts
        intro stored hsame
        have hid : (ending.ended result now).taskId = ending.taskId := by cases result <;> rfl
        rw [hid, hstored] at hsame
        cases hsame
        exact hrunning
    | advance index now =>
      show (self.process.advance index now).manager.tasks.get? taskId = _
      unfold BackgroundProcess.advance
      cases hindex : self.process.spawning[index]? with
      | none => exact hget
      | some s =>
        have hadvance := s.advance_spec (Registered.bound h.registered) now
        dsimp only
        cases hstep : s.advance now self.process.manager with
        | mk progress manager =>
          simp only [hstep] at hadvance
          cases hadvance with
          | commits newId _ hstage htask hupserts =>
            apply hkeep _ _ hupserts
            intro stored hsame
            have hnone := Registered.uncommitted h.registered s (List.mem_of_getElem? hindex)
              (.inr (.inr hstage)) newId htask
            rw [show (s.call.runningMeta newId now).taskId = newId from rfl, hnone] at hsame
            cases hsame
          | inserts inserted hstage =>
            show (BackgroundTaskManager.insertHandleAndCancelIfParentRunCancelled
              _ _ _ _).tasks.get? taskId = _
            unfold BackgroundTaskManager.insertHandleAndCancelIfParentRunCancelled
            dsimp only
            split <;> exact hget
          | _ => exact hget

/-- A step that is allowed keeps the identity of tasks. -/
theorem keepsIdentity_step {self : ThreadLife} (h : self.Kept) {op : LifeOp}
    (hok : self.Allows op) :
    KeepsIdentity ⟨self, op, (), self.step threadId op⟩ := by
  have hafter : (self.step threadId op).Kept := kept_step h hok
  refine ⟨?_, ?_,
    fun _ hrunning =>
      Registered.executing_of_hasRunning hafter.registered hafter.settled hrunning, ?_,
    fun _ _ hget hterminal => terminal_step h op hget hterminal⟩
  · intro taskId hcommits
    unfold commits at hcommits
    split at hcommits
    · split at hcommits
      · rename_i s hindex
        split at hcommits
        · rename_i hstage
          exact Registered.uncommitted h.registered s (List.mem_of_getElem? hindex)
            (.inr (.inr hstage)) taskId hcommits
        · cases hcommits
      · cases hcommits
    · cases hcommits
  · intro hrestart taskId taskMeta hget hrunning
    dsimp only at hrestart
    subst hrestart
    have hlive := (Registered.live_of_running hafter.registered hafter.settled hget hrunning).1
    exact absurd hlive List.not_mem_nil
  · intro taskId taskMeta other otherMeta hne hget hother hrunning hotherRunning howner hname
    obtain ⟨hmem, hid⟩ :=
      Registered.live_of_running hafter.registered hafter.settled hget hrunning
    obtain ⟨hotherMem, hotherId⟩ :=
      Registered.live_of_running hafter.registered hafter.settled hother hotherRunning
    apply Registered.names hafter.registered hafter.claimed hmem hotherMem ?_ howner hname
    intro heq
    exact hne (hid.symm.trans ((congrArg PersistedTaskMeta.taskId heq).trans hotherId))

end ThreadLife

/-- Whatever happens to a thread, its tasks keep their identity, as long as every process starts
    from settled tasks, hands out ids that are not among the restored ones, and spawns of one name
    do not overlap. -/
theorem run_keepsIdentity (threadId : String) (persisted : Option BackgroundTaskStateSnapshot)
    (hsettled : Settled
      ((persisted.map BackgroundTaskStateSnapshot.tasks).getD AssocMap.empty))
    (ops : List LifeOp)
    (hallowed : (lifeMachine threadId).Along ThreadLife.Allows (.start threadId persisted) ops) :
    ∀ t ∈ (lifeMachine threadId).trace (.start threadId persisted) ops, KeepsIdentity t :=
  (lifeMachine threadId).trace_forall ThreadLife.Kept ThreadLife.Allows KeepsIdentity
    (fun _ _ h hok => ThreadLife.kept_step h hok)
    (fun _ _ h hok => ThreadLife.keepsIdentity_step h hok)
    (ThreadLife.kept_start hsettled) ops hallowed

/-! ## A restart -/

/-- A background call of a thread. -/
private def namedCall (name : String) : SpawnCall where
  kind := .task "shell"
  ownerThreadId := "t"
  name := some name
  description := "work"
  parentContext := ⟨none, none, none, none⟩
  task := none
  tool := none

/-- A spawn that nobody interrupts. -/
private def spawnOps (name : String) : List LifeOp :=
  .run (.enter (namedCall name)) :: List.replicate 5 (.run (.advance 0 0))

/-- Two tasks with overlapping lives that end before the restart. -/
private def settledOps : List LifeOp :=
  spawnOps "first" ++ spawnOps "second" ++
    [.run (.complete 0 .cancelled 1), .run (.complete 0 (.failed "stopped") 2), .persist, .restart]

theorem run_keepsIdentity_settled :
    ((lifeMachine "t").run (.start "t" none) settledOps).tasks.values.map
        PersistedTaskMeta.status = [.cancelled, .failed] ∧
      ∀ t ∈ (lifeMachine "t").trace (.start "t" none) settledOps, KeepsIdentity t :=
  ⟨by decide, run_keepsIdentity "t" none (by decide) settledOps (by decide)⟩

/-- A task that is running when the process ends. -/
private def restartOps : List LifeOp := spawnOps "first" ++ [.persist, .restart]

/-- The hook of the next process leaves the task running without a handle, and the next spawn gets
    its id. -/
theorem restart_losesIdentity :
    let w := (lifeMachine "t").run (.start "t" none) restartOps
    w.process.manager.hasRunning "t" = true ∧ w.process.manager.handles.keys = [] ∧
      ((lifeMachine "t").run w (spawnOps "second")).tasks.values.map PersistedTaskMeta.name =
        [some "second"] ∧
      ¬ ∀ t ∈ (lifeMachine "t").trace (.start "t" none) restartOps, KeepsIdentity t := by
  intro w
  have hhandles : w.process.manager.handles.keys = [] := by decide
  have hrunning : (w.tasks.get? "bg_0").map PersistedTaskMeta.status = some .running := by decide
  refine ⟨by decide, hhandles, by decide, fun hkeeps => ?_⟩
  have hlast : (⟨(lifeMachine "t").run (.start "t" none) (spawnOps "first" ++ [.persist]), .restart,
      (), w⟩ : Machine.Step ThreadLife LifeOp Unit) ∈
        (lifeMachine "t").trace (.start "t" none) restartOps := by
    have hsplit : restartOps = (spawnOps "first" ++ [.persist]) ++ [.restart] := rfl
    rw [hsplit, Machine.trace_append]
    exact List.mem_append_right _ List.mem_cons_self
  obtain ⟨taskMeta, hget, hstatus⟩ := Option.map_eq_some_iff.mp hrunning
  have hmem : "bg_0" ∈ w.process.manager.handles.keys :=
    (hkeeps _ hlast).settled rfl "bg_0" taskMeta hget hstatus
  rw [hhandles] at hmem
  exact absurd hmem List.not_mem_nil

end Remo
