import Remo.Native.Phase.Actions
import Remo.Spec.Phase.Submit

/-!
# Scheduled actions run once

The rounds of the execute stage drain the queue of the actions that match. An action is taken
out by its id, so another entry with that id goes with it.

## Key results

- `executeAction_step`: what handling one action does to the queue
- `executeScheduledActions_rounds`: the stage drains a work queue
- `actionsRunOnce_iff`: when every matching action runs exactly once
- `ownsId_of_fresh`: the condition holds when the runtime has given all ids in the queue
-/

namespace Remo

open WorkQueue (Handled Walk addedBy)

variable {keys : StateKeys} {env : ActionEnv keys} {baseCtx : PhaseContext (withFailedKey keys)}
variable {before after : PhaseRuntime (withFailedKey keys)}
variable {map : StateMap (actionKeys keys)} {patch : MutationBatch (actionKeys keys)}

/-- The actions in the queue. -/
def queueOf (runtime : PhaseRuntime (withFailedKey keys)) : List ScheduledActionEnvelope :=
  queueEntries runtime.store.inner.ext

/-- The failed actions of the runtime. -/
def failedOf (runtime : PhaseRuntime (withFailedKey keys)) : List FailedScheduledAction :=
  failedEntries runtime.store.inner.ext

/-! ## The two lists -/

theorem failed_ne_pending (keys : StateKeys) :
    failedScheduledActions keys ≠ pendingScheduledActions (withFailedKey keys) :=
  programKey_ne _

theorem queueEntries_update_pending (u : ScheduledActionQueueUpdate) :
    queueEntries (map.update (pendingScheduledActions (withFailedKey keys))
      (queueUpdate (withFailedKey keys) u)) = applyQueueUpdate (queueEntries map) u := by
  unfold queueEntries
  rw [StateMap.update_self, Option.getD_some]
  rfl

theorem queueEntries_update_failed (u : FailedScheduledActionUpdate) :
    queueEntries (map.update (failedScheduledActions keys) (failedUpdate keys u)) =
      queueEntries map := by
  unfold queueEntries
  rw [StateMap.update_of_ne _ _ (failed_ne_pending keys).symm]

theorem failedEntries_update_failed (u : FailedScheduledActionUpdate) :
    failedEntries (map.update (failedScheduledActions keys) (failedUpdate keys u)) =
      applyFailedUpdate (failedEntries map) u := by
  unfold failedEntries
  rw [StateMap.update_self, Option.getD_some]
  rfl

theorem failedEntries_update_pending (u : ScheduledActionQueueUpdate) :
    failedEntries (map.update (pendingScheduledActions (withFailedKey keys))
      (queueUpdate (withFailedKey keys) u)) = failedEntries map := by
  unfold failedEntries
  rw [StateMap.update_of_ne _ _ (failed_ne_pending keys)]

theorem queueEntries_run_enqueue (entries : List ScheduledActionEnvelope) :
    queueEntries ((enqueue patch entries).run map) = queueEntries (patch.run map) ++ entries := by
  induction entries generalizing patch with
  | nil => simp [enqueue]
  | cons entry entries ih =>
    rw [enqueue_cons, ih, run_update, queueEntries_update_pending]
    simp [applyQueueUpdate]

theorem failedEntries_run_enqueue (entries : List ScheduledActionEnvelope) :
    failedEntries ((enqueue patch entries).run map) = failedEntries (patch.run map) := by
  have hrun := run_enqueue_programKey patch entries map (none : Option keys.Key)
  show ((enqueue patch entries).run map (programKey (none : Option keys.Key))).getD _ = _
  rw [hrun]
  rfl

/-- The handlers leave the queue and the failed actions to the runtime. -/
def ActionEnv.KeepsQueues (env : ActionEnv keys) : Prop :=
  ∀ key handler, env.scheduledActionHandlers key = some handler →
    ∀ n ctx payload cmd, handler n ctx payload = .ok cmd → ∀ op ∈ cmd.patch.ops,
      op.target ≠ pendingScheduledActions (withFailedKey keys) ∧
        op.target ≠ failedScheduledActions keys

theorem queueEntries_run_of_keeps
    (h : ∀ op ∈ patch.ops, op.target ≠ pendingScheduledActions (withFailedKey keys)) :
    queueEntries (patch.run map) = queueEntries map := by
  unfold queueEntries MutationBatch.run
  rw [foldl_apply_of_ne map h]

theorem failedEntries_run_of_keeps
    (h : ∀ op ∈ patch.ops, op.target ≠ failedScheduledActions keys) :
    failedEntries (patch.run map) = failedEntries map := by
  unfold failedEntries MutationBatch.run
  rw [foldl_apply_of_ne map h]

/-! ## One action -/

/-- A submitted command that was accepted: its patch, and its actions queued. -/
theorem submit_ok_ext {env : ExecutionEnv (withFailedKey keys)}
    {cmd : StateCommand (actionKeys keys)} {report : SubmitCommandReport}
    (h : submitCommandInner env cmd before = (.ok report, after)) :
    after.store.inner.ext =
        (enqueue cmd.patch (envelopes before.nextId cmd.scheduledActions)).run
          before.store.inner.ext ∧
      before.nextId + cmd.scheduledActions.length ≤ after.nextId := by
  unfold submitCommandInner at h
  split at h
  next => cases h
  next =>
    split at h
    next => cases h
    next =>
      dsimp only at h
      split at h
      next => cases h
      next revision store hcommit =>
        cases h
        exact ⟨(commits_of_ok hcommit).ext, Nat.le_add_right _ _⟩

/-- A submitted command that was refused leaves the state as it was. -/
theorem submit_error_store {env : ExecutionEnv (withFailedKey keys)}
    {cmd : StateCommand (actionKeys keys)} {e : StateError}
    (h : submitCommandInner env cmd before = (.error e, after)) :
    after.store = before.store ∧ before.nextId ≤ after.nextId := by
  unfold submitCommandInner at h
  split at h
  next =>
    cases h
    exact ⟨rfl, Nat.le_refl _⟩
  next =>
    split at h
    next =>
      cases h
      exact ⟨rfl, Nat.le_refl _⟩
    next =>
      dsimp only at h
      split at h
      next =>
        cases h
        refine ⟨rfl, ?_⟩
        show before.nextId ≤ before.nextId + cmd.scheduledActions.length + cmd.effects.length
        omega
      next => cases h

/-- An action that is moved to the failed actions. -/
theorem deadLetter_ok {envelope : ScheduledActionEnvelope} {error : String}
    (h : deadLetter envelope error before = (.ok (), after)) :
    queueOf after = (queueOf before).filter (fun e => e.id != envelope.id) ∧
      failedOf after = failedOf before ++ [⟨envelope.id, envelope.action, error⟩] ∧
      after.nextId = before.nextId := by
  unfold deadLetter at h
  dsimp only at h
  split at h
  next => cases h
  next revision store hcommit =>
    cases h
    have hext := (commits_of_ok hcommit).ext
    unfold queueOf failedOf
    dsimp only
    rw [hext, run_update, run_update]
    refine ⟨?_, ?_, rfl⟩
    · rw [queueEntries_update_failed, queueEntries_update_pending]
      rfl
    · rw [failedEntries_update_failed, failedEntries_update_pending]
      rfl

/-- What a handled action leaves among the failed ones. -/
def HandledAction.letters (a : HandledAction) : List FailedScheduledAction :=
  a.error.toList.map fun error => ⟨a.step.entry.id, a.step.entry.action, error⟩

theorem ids_envelopes (nextId : Nat) (actions : List ScheduledAction) :
    (envelopes nextId actions).map ScheduledActionEnvelope.id =
      List.range' nextId actions.length := by
  have hmap : (envelopes nextId actions).map ScheduledActionEnvelope.id =
      (actions.zipIdx.map Prod.snd).map (nextId + ·) := by
    unfold envelopes
    rw [List.map_map, List.map_map]
    rfl
  rw [hmap, List.zipIdx_map_snd, List.map_add_range', Nat.add_zero]

/-- What handling one action does. -/
structure ActionStep (envelope : ScheduledActionEnvelope) (totals totals' : ExecuteTotals)
    (before after : PhaseRuntime (withFailedKey keys)) (a : HandledAction) : Prop where
  handled : totals'.handled = totals.handled ++ [a]
  entry : a.step.entry = envelope
  found : a.step.found = queueOf before
  queue : queueOf after = a.step.left ScheduledActionEnvelope.id
  failed : failedOf after = failedOf before ++ a.letters
  counts : totals'.processed + totals'.failed = totals.processed + totals.failed + 1
  /-- The new actions have the next ids. -/
  ids : ∃ n, a.step.added.map ScheduledActionEnvelope.id = List.range' before.nextId n ∧
    before.nextId + n ≤ after.nextId

theorem actionStep_of_deadLetter {envelope : ScheduledActionEnvelope} {error : String}
    {totals totals' : ExecuteTotals} {middle : PhaseRuntime (withFailedKey keys)}
    (hstore : middle.store = before.store) (hnext : before.nextId ≤ middle.nextId)
    {effects : Nat}
    (h : Method.map (fun _ => ExecuteTotals.addFailed { totals with effects := effects } error
      ⟨envelope, queueOf before, []⟩) (deadLetter envelope error) middle = (.ok totals', after)) :
    ActionStep envelope totals totals' before after ⟨⟨envelope, queueOf before, []⟩, some error⟩ := by
  unfold Method.map at h
  cases hletter : deadLetter envelope error middle with
  | mk result left =>
    rw [hletter] at h
    cases result with
    | error e => cases h
    | ok u =>
      obtain ⟨htotals, rfl⟩ := Prod.mk.inj h
      have htotals := Except.ok.inj htotals
      obtain ⟨hqueue, hfailed, hid⟩ := deadLetter_ok hletter
      have hsame : queueOf middle = queueOf before := by
        unfold queueOf
        rw [hstore]
      have hsameFailed : failedOf middle = failedOf before := by
        unfold failedOf
        rw [hstore]
      rw [hsame] at hqueue
      rw [hsameFailed] at hfailed
      rw [← htotals]
      refine ⟨rfl, rfl, rfl, ?_, hfailed, ?_, 0, rfl, ?_⟩
      · rw [hqueue]
        exact (List.append_nil _).symm
      · show totals.processed + (totals.failed + 1) = _
        omega
      · rw [hid]
        exact hnext

theorem executeAction_step (hkeeps : env.KeepsQueues) {envelope : ScheduledActionEnvelope}
    {handler : ActionHandler keys}
    (hhandler : env.scheduledActionHandlers envelope.action.key = some handler)
    {totals totals' : ExecuteTotals}
    (h : executeAction env baseCtx envelope handler totals before = (.ok totals', after)) :
    ∃ a, ActionStep envelope totals totals' before after a := by
  unfold executeAction at h
  dsimp only at h
  split at h
  next err hcall =>
    exact ⟨_, @actionStep_of_deadLetter _ before after envelope err.text totals totals' before
      rfl (Nat.le_refl _) totals.effects h⟩
  next command hcall =>
    split at h
    next report middle hsubmit =>
      obtain ⟨htotals, rfl⟩ := Prod.mk.inj h
      have htotals := Except.ok.inj htotals
      obtain ⟨hext, hid⟩ := submit_ok_ext hsubmit
      have hops := hkeeps _ _ hhandler _ _ _ _ hcall
      refine ⟨⟨⟨envelope, queueOf before, envelopes before.nextId command.scheduledActions⟩, none⟩,
        ?_⟩
      rw [← htotals]
      refine ⟨rfl, rfl, rfl, ?_, ?_, ?_, command.scheduledActions.length, ids_envelopes _ _, hid⟩
      · unfold queueOf
        rw [hext, queueEntries_run_enqueue, run_update, queueEntries_update_pending,
          queueEntries_run_of_keeps fun op hop => (hops op hop).1]
        rfl
      · unfold failedOf
        rw [hext, failedEntries_run_enqueue, run_update, failedEntries_update_pending,
          failedEntries_run_of_keeps fun op hop => (hops op hop).2]
        exact (List.append_nil _).symm
      · show totals.processed + 1 + totals.failed = _
        omega
    next err middle hsubmit =>
      obtain ⟨hstore, hid⟩ := submit_error_store hsubmit
      exact ⟨_, actionStep_of_deadLetter hstore hid h⟩

/-! ## The rounds -/

/-- The entry is an action of the phase that has a handler. -/
def ActionEnv.isMatching (env : ActionEnv keys) (phase : Phase) (e : ScheduledActionEnvelope) :
    Bool :=
  decide (e.action.phase = phase) && (env.scheduledActionHandlers e.action.key).isSome

theorem map_fst_matchingActions (phase : Phase) (queued : List ScheduledActionEnvelope) :
    (matchingActions env phase queued).map Prod.fst = queued.filter (env.isMatching phase) := by
  induction queued with
  | nil => rfl
  | cons e queued ih =>
    unfold matchingActions at ih ⊢
    rw [List.filterMap_cons, List.filter_cons]
    unfold ActionEnv.isMatching at ih ⊢
    by_cases hphase : e.action.phase = phase
    · cases hhandler : env.scheduledActionHandlers e.action.key with
      | none => simpa [hphase, hhandler] using ih
      | some handler => simpa [hphase, hhandler] using ih
    · simpa [hphase] using ih

theorem handler_of_mem_matchingActions {phase : Phase} {queued : List ScheduledActionEnvelope}
    {entry : ScheduledActionEnvelope × ActionHandler keys}
    (h : entry ∈ matchingActions env phase queued) :
    env.scheduledActionHandlers entry.1.action.key = some entry.2 := by
  obtain ⟨e, -, hmap⟩ := List.mem_filterMap.mp h
  split at hmap
  · obtain ⟨handler, hhandler, rfl⟩ := Option.map_eq_some_iff.mp hmap
    exact hhandler
  · cases hmap

/-- What some handled actions leave: their letters, their count, and entries with growing
    ids. -/
structure ActionRun (totals : ExecuteTotals) (handled : List HandledAction) (count : Nat)
    (before after : PhaseRuntime (withFailedKey keys)) (actions : List HandledAction) : Prop where
  handled : handled = totals.handled ++ actions
  failed : failedOf after = failedOf before ++ actions.flatMap HandledAction.letters
  counts : count = totals.processed + totals.failed + actions.length
  next : before.nextId ≤ after.nextId
  ids : ((addedBy (actions.map HandledAction.step)).map ScheduledActionEnvelope.id).Pairwise (· < ·)
  bounds : ∀ e ∈ addedBy (actions.map HandledAction.step),
    before.nextId ≤ e.id ∧ e.id < after.nextId

theorem actionRun_nil (totals : ExecuteTotals) (runtime : PhaseRuntime (withFailedKey keys)) :
    ActionRun totals totals.handled (totals.processed + totals.failed) runtime runtime [] where
  handled := (List.append_nil _).symm
  failed := (List.append_nil _).symm
  counts := rfl
  next := Nat.le_refl _
  ids := List.Pairwise.nil
  bounds e h := by
    cases h

/-- Actions after actions. -/
theorem ActionRun.append {totals middle : ExecuteTotals} {handled : List HandledAction}
    {count : Nat} {between : PhaseRuntime (withFailedKey keys)} {first rest : List HandledAction}
    (h : ActionRun totals middle.handled (middle.processed + middle.failed) before between first)
    (h' : ActionRun middle handled count between after rest) :
    ActionRun totals handled count before after (first ++ rest) := by
  have hadded : addedBy ((first ++ rest).map HandledAction.step) =
      addedBy (first.map HandledAction.step) ++ addedBy (rest.map HandledAction.step) := by
    rw [List.map_append, WorkQueue.addedBy_append]
  constructor
  · rw [h'.handled, h.handled, List.append_assoc]
  · rw [h'.failed, h.failed, List.flatMap_append, List.append_assoc]
  · rw [h'.counts, h.counts, List.length_append]
    omega
  · exact Nat.le_trans h.next h'.next
  · rw [hadded, List.map_append, List.pairwise_append]
    refine ⟨h.ids, h'.ids, ?_⟩
    intro i hi j hj
    obtain ⟨e, he, rfl⟩ := List.mem_map.mp hi
    obtain ⟨e', he', rfl⟩ := List.mem_map.mp hj
    have hlow := (h.bounds e he).2
    have hhigh := (h'.bounds e' he').1
    omega
  · intro e he
    have hfirst := h.next
    have hrest := h'.next
    rw [hadded] at he
    cases List.mem_append.mp he with
    | inl hmem =>
      have hbounds := h.bounds e hmem
      omega
    | inr hmem =>
      have hbounds := h'.bounds e hmem
      omega

theorem ActionStep.run {envelope : ScheduledActionEnvelope} {totals totals' : ExecuteTotals}
    {a : HandledAction} (h : ActionStep envelope totals totals' before after a) :
    ActionRun totals totals'.handled (totals'.processed + totals'.failed) before after [a] where
  handled := h.handled
  failed := by
    rw [h.failed]
    simp
  counts := h.counts
  next := by
    obtain ⟨n, -, hn⟩ := h.ids
    omega
  ids := by
    obtain ⟨n, hids, -⟩ := h.ids
    simp only [addedBy, List.map_cons, List.map_nil, List.flatMap_cons, List.flatMap_nil,
      List.append_nil]
    rw [hids]
    exact List.pairwise_lt_range'
  bounds e he := by
    obtain ⟨n, hids, hn⟩ := h.ids
    simp only [addedBy, List.map_cons, List.map_nil, List.flatMap_cons, List.flatMap_nil,
      List.append_nil] at he
    have hmem := List.mem_map_of_mem (f := ScheduledActionEnvelope.id) he
    rw [hids, List.mem_range'_1] at hmem
    omega

/-- A round walks over its actions. -/
theorem executeMatching_walk (hkeeps : env.KeepsQueues)
    {todo : List (ScheduledActionEnvelope × ActionHandler keys)}
    (htodo : ∀ entry ∈ todo, env.scheduledActionHandlers entry.1.action.key = some entry.2)
    {totals totals' : ExecuteTotals}
    (h : executeMatching env baseCtx todo totals before = (.ok totals', after)) :
    ∃ actions, ActionRun totals totals'.handled (totals'.processed + totals'.failed) before after
        actions ∧
      Walk ScheduledActionEnvelope.id (todo.map Prod.fst) (queueOf before)
        (actions.map HandledAction.step) (queueOf after) := by
  induction todo generalizing totals before with
  | nil =>
    cases h
    exact ⟨[], actionRun_nil _ _, .nil _⟩
  | cons entry todo ih =>
    obtain ⟨envelope, handler⟩ := entry
    obtain ⟨middle, between, hfirst, hrest⟩ := Method.bind_eq_ok h
    obtain ⟨a, hstep⟩ := executeAction_step hkeeps (htodo _ List.mem_cons_self) hfirst
    obtain ⟨actions, hrun, hwalk⟩ :=
      ih (fun entry hmem => htodo entry (List.mem_cons_of_mem _ hmem)) hrest
    refine ⟨a :: actions, hstep.run.append hrun, ?_⟩
    rw [hstep.queue] at hwalk
    have hcons := Walk.cons a.step hwalk
    rw [hstep.entry, hstep.found] at hcons
    exact hcons

/-- The stage drains a work queue. -/
theorem executeRounds_rounds (hkeeps : env.KeepsQueues) {maxRounds left : Nat}
    {totals : ExecuteTotals} {report : PhaseRunReport} {handled : List HandledAction}
    (h : executeRounds env baseCtx maxRounds left totals before = (.ok (report, handled), after)) :
    ∃ actions, ActionRun totals handled
        (report.processedScheduledActions + report.failedScheduledActions) before after actions ∧
      WorkQueue.Rounds ScheduledActionEnvelope.id (env.isMatching baseCtx.phase) (queueOf before)
        (actions.map HandledAction.step) (queueOf after) := by
  induction left generalizing totals before with
  | zero => cases h
  | succ left ih =>
    unfold executeRounds at h
    dsimp only at h
    split at h
    next hempty =>
      obtain ⟨hresult, rfl⟩ := Prod.mk.inj h
      cases Except.ok.inj hresult
      refine ⟨[], actionRun_nil totals before, .done _ ?_⟩
      rw [← map_fst_matchingActions]
      unfold queueOf
      rw [List.isEmpty_iff.mp hempty]
      rfl
    next hsome =>
      obtain ⟨middle, between, hround, hrest⟩ := Method.bind_eq_ok h
      obtain ⟨first, hfirst, hwalk⟩ := executeMatching_walk hkeeps
        (fun entry hmem => handler_of_mem_matchingActions hmem) hround
      obtain ⟨rest, hrun, hrounds⟩ := ih hrest
      refine ⟨first ++ rest, hfirst.append hrun, ?_⟩
      rw [map_fst_matchingActions] at hwalk
      rw [List.map_append]
      exact .round hwalk hrounds

/-! ## Once -/

/-- Every matching action that was queued has been handled once and is gone or among the failed
    actions, and all other actions stay as they were. -/
structure ActionsRunOnce (env : ActionEnv keys) (phase : Phase)
    (before after : PhaseRuntime (withFailedKey keys)) (report : PhaseRunReport)
    (handled : List HandledAction) : Prop where
  /-- The handled actions are the matching ones from the start and those queued meanwhile. -/
  once : (handled.map fun a => a.step.entry).Perm
    ((queueOf before ++ handled.flatMap fun a => a.step.added).filter (env.isMatching phase))
  gone : (queueOf after).filter (env.isMatching phase) = []
  failed : failedOf after = failedOf before ++ handled.flatMap HandledAction.letters
  others : (queueOf after).filter (fun e => !env.isMatching phase e) =
    (queueOf before ++ handled.flatMap fun a => a.step.added).filter fun e =>
      !env.isMatching phase e
  counts : report.processedScheduledActions + report.failedScheduledActions = handled.length

/-- No other entry of the queue has the id of the action that is handled. -/
def HandledAction.OwnsId (a : HandledAction) : Prop :=
  (a.step.found.map ScheduledActionEnvelope.id).count a.step.entry.id = 1

theorem copies_eq_count (a : HandledAction) :
    a.step.copies ScheduledActionEnvelope.id =
      (a.step.found.map ScheduledActionEnvelope.id).count a.step.entry.id := by
  unfold Handled.copies
  rw [List.count_eq_countP, List.countP_map]
  rfl

theorem executeScheduledActions_rounds (hkeeps : env.KeepsQueues) {maxRounds : Nat}
    {report : PhaseRunReport} {handled : List HandledAction}
    (h : executeScheduledActions env baseCtx maxRounds before = (.ok (report, handled), after)) :
    ActionRun .zero handled (report.processedScheduledActions + report.failedScheduledActions)
        before after handled ∧
      WorkQueue.Rounds ScheduledActionEnvelope.id (env.isMatching baseCtx.phase) (queueOf before)
        (handled.map HandledAction.step) (queueOf after) := by
  obtain ⟨actions, hrun, hrounds⟩ := executeRounds_rounds hkeeps h
  have hsame : handled = actions := hrun.handled
  rw [← hsame] at hrun hrounds
  exact ⟨hrun, hrounds⟩

/-- When every matching action runs exactly once. -/
theorem actionsRunOnce_iff (env : ActionEnv keys) (baseCtx : PhaseContext (withFailedKey keys))
    (maxRounds : Nat) (before after : PhaseRuntime (withFailedKey keys))
    (report : PhaseRunReport) (handled : List HandledAction) (hkeeps : env.KeepsQueues)
    (hids : ((queueOf before).map ScheduledActionEnvelope.id).Nodup)
    (h : executeScheduledActions env baseCtx maxRounds before = (.ok (report, handled), after)) :
    ActionsRunOnce env baseCtx.phase before after report handled ↔ ∀ a ∈ handled, a.OwnsId := by
  obtain ⟨hrun, hrounds⟩ := executeScheduledActions_rounds hkeeps h
  have hnodup : (((queueOf before).filter (env.isMatching baseCtx.phase)).map
      ScheduledActionEnvelope.id).Nodup :=
    hids.sublist (List.filter_sublist.map _)
  have hiff := hrounds.once_iff hnodup hrun.ids
  have hentries : (handled.map HandledAction.step).map Handled.entry =
      handled.map fun a => a.step.entry := by
    rw [List.map_map]
    rfl
  have hadded : addedBy (handled.map HandledAction.step) = handled.flatMap fun a => a.step.added := by
    unfold addedBy
    rw [List.flatMap_map]
  rw [hentries, hadded] at hiff
  have hcopies : (∀ s ∈ handled.map HandledAction.step,
      s.copies ScheduledActionEnvelope.id = 1) ↔ ∀ a ∈ handled, a.OwnsId := by
    simp only [List.mem_map, forall_exists_index, and_imp, forall_apply_eq_imp_iff₂,
      copies_eq_count]
    rfl
  rw [hcopies] at hiff
  constructor
  · intro honce
    exact hiff.mp ⟨honce.once, honce.others⟩
  · intro howns
    obtain ⟨honce, hothers⟩ := hiff.mpr howns
    refine ⟨honce, (hrounds.spec hnodup hrun.ids).none, hrun.failed, hothers, ?_⟩
    have hcounts := hrun.counts
    simp only [ExecuteTotals.zero] at hcounts
    omega

/-! ## Fresh ids -/

/-- The ids in the queue differ, and the runtime has given them all. -/
structure FreshIds (runtime : PhaseRuntime (withFailedKey keys)) : Prop where
  nodup : ((queueOf runtime).map ScheduledActionEnvelope.id).Nodup
  given : ∀ e ∈ queueOf runtime, e.id < runtime.nextId

theorem ActionStep.fresh {envelope : ScheduledActionEnvelope} {totals totals' : ExecuteTotals}
    {a : HandledAction} (h : ActionStep envelope totals totals' before after a)
    (hfresh : FreshIds before) : FreshIds after := by
  obtain ⟨n, hids, hn⟩ := h.ids
  have hadded : ∀ e ∈ a.step.added, before.nextId ≤ e.id ∧ e.id < before.nextId + n := by
    intro e he
    have hmem := List.mem_map_of_mem (f := ScheduledActionEnvelope.id) he
    rw [hids, List.mem_range'_1] at hmem
    omega
  have hkept : ∀ e ∈ queueOf before, e.id < before.nextId := hfresh.given
  have hqueue := h.queue
  unfold Handled.left at hqueue
  rw [h.found] at hqueue
  constructor
  · rw [hqueue, List.map_append, List.nodup_append]
    refine ⟨hfresh.nodup.sublist (List.filter_sublist.map _), ?_, ?_⟩
    · rw [hids]
      exact List.nodup_range'
    · intro i hi j hj heq
      obtain ⟨e, he, rfl⟩ := List.mem_map.mp hi
      obtain ⟨e', he', rfl⟩ := List.mem_map.mp hj
      have hlow := hkept e (List.mem_of_mem_filter he)
      have hhigh := (hadded e' he').1
      omega
  · intro e he
    rw [hqueue] at he
    cases List.mem_append.mp he with
    | inl hmem =>
      have hlow := hkept e (List.mem_of_mem_filter hmem)
      omega
    | inr hmem =>
      have hhigh := (hadded e hmem).2
      omega

theorem executeMatching_fresh (hkeeps : env.KeepsQueues)
    {todo : List (ScheduledActionEnvelope × ActionHandler keys)}
    (htodo : ∀ entry ∈ todo, env.scheduledActionHandlers entry.1.action.key = some entry.2)
    {totals totals' : ExecuteTotals} (hfresh : FreshIds before)
    (h : executeMatching env baseCtx todo totals before = (.ok totals', after)) :
    FreshIds after ∧ ∀ a ∈ totals'.handled, a ∈ totals.handled ∨
      (a.step.found.map ScheduledActionEnvelope.id).Nodup := by
  induction todo generalizing totals before with
  | nil =>
    cases h
    exact ⟨hfresh, fun a ha => Or.inl ha⟩
  | cons entry todo ih =>
    obtain ⟨envelope, handler⟩ := entry
    obtain ⟨middle, between, hfirst, hrest⟩ := Method.bind_eq_ok h
    obtain ⟨a, hstep⟩ := executeAction_step hkeeps (htodo _ List.mem_cons_self) hfirst
    obtain ⟨hafter, hfound⟩ := ih (fun entry hmem => htodo entry (List.mem_cons_of_mem _ hmem))
      (hstep.fresh hfresh) hrest
    refine ⟨hafter, ?_⟩
    intro a' ha'
    cases hfound a' ha' with
    | inr hnodup => exact Or.inr hnodup
    | inl hmem =>
      rw [hstep.handled] at hmem
      cases List.mem_append.mp hmem with
      | inl hold => exact Or.inl hold
      | inr hnew =>
        rw [List.mem_singleton.mp hnew, hstep.found]
        exact Or.inr hfresh.nodup

theorem executeRounds_fresh (hkeeps : env.KeepsQueues) {maxRounds left : Nat}
    {totals : ExecuteTotals} {report : PhaseRunReport} {handled : List HandledAction}
    (hfresh : FreshIds before)
    (h : executeRounds env baseCtx maxRounds left totals before = (.ok (report, handled), after)) :
    FreshIds after ∧ ∀ a ∈ handled, a ∈ totals.handled ∨
      (a.step.found.map ScheduledActionEnvelope.id).Nodup := by
  induction left generalizing totals before with
  | zero => cases h
  | succ left ih =>
    unfold executeRounds at h
    dsimp only at h
    split at h
    next hempty =>
      obtain ⟨hresult, rfl⟩ := Prod.mk.inj h
      cases Except.ok.inj hresult
      exact ⟨hfresh, fun a ha => Or.inl ha⟩
    next hsome =>
      obtain ⟨middle, between, hround, hrest⟩ := Method.bind_eq_ok h
      obtain ⟨hbetween, hfirst⟩ := executeMatching_fresh hkeeps
        (fun entry hmem => handler_of_mem_matchingActions hmem) hfresh hround
      obtain ⟨hafter, hlater⟩ := ih hbetween hrest
      refine ⟨hafter, fun a ha => ?_⟩
      cases hlater a ha with
      | inl hmem => exact hfirst a hmem
      | inr hnodup => exact Or.inr hnodup

/-- With fresh ids every handled action owns its id. -/
theorem ownsId_of_fresh (hkeeps : env.KeepsQueues) (hfresh : FreshIds before) {maxRounds : Nat}
    {report : PhaseRunReport} {handled : List HandledAction}
    (h : executeScheduledActions env baseCtx maxRounds before = (.ok (report, handled), after)) :
    ∀ a ∈ handled, a.OwnsId := by
  obtain ⟨hrun, hrounds⟩ := executeScheduledActions_rounds hkeeps h
  have hnodup : (((queueOf before).filter (env.isMatching baseCtx.phase)).map
      ScheduledActionEnvelope.id).Nodup :=
    hfresh.nodup.sublist (List.filter_sublist.map _)
  intro a ha
  have hpos := (hrounds.spec hnodup hrun.ids).copies a.step (List.mem_map_of_mem ha)
  rw [copies_eq_count] at hpos
  have hle : (a.step.found.map ScheduledActionEnvelope.id).count a.step.entry.id ≤ 1 := by
    cases (executeRounds_fresh hkeeps hfresh h).2 a ha with
    | inl hmem => cases hmem
    | inr hfound => exact List.nodup_iff_count_le_one.mp hfound _
  unfold HandledAction.OwnsId
  omega

/-! ## A restored queue -/

/-- A program without state keys of its own. -/
def noKeys : StateKeys where
  Key := Empty
  decEq := inferInstance
  key K := K.elim
  merge K := K.elim
  Value K := K.elim
  Update K := K.elim
  default K := K.elim
  apply K := K.elim

/-- A handler that queues one action again when it is called first. -/
def againHandler : ActionHandler noKeys := fun n _ _ =>
  .ok ⟨.new, if n = 0 then [⟨.stepEnd, "again", .null⟩] else [], []⟩

def againEnv : ActionEnv noKeys where
  phaseHooks _ := []
  scheduledActionHandlers key := if key = "again" then some againHandler else none
  effectHandlers _ := none

/-- A new runtime over a queue that was restored: an action of another phase, and one to
    handle. -/
def restoredRuntime : PhaseRuntime (withFailedKey noKeys) where
  store :=
    ⟨⟨0, StateMap.empty.insert (pendingScheduledActions (withFailedKey noKeys))
      ([⟨1, ⟨.runEnd, "again", .null⟩⟩, ⟨2, ⟨.stepEnd, "again", .null⟩⟩] :
        List ScheduledActionEnvelope)⟩,
      ⟨(AssocMap.empty.insert "__runtime.failed_scheduled_actions" .exclusive).insert
        "__runtime.pending_scheduled_actions" .exclusive⟩⟩
  nextId := 1

def restoredContext : PhaseContext (withFailedKey noKeys) := ⟨.stepEnd, [], ⟨0, .empty⟩⟩

theorem againEnv_keepsQueues : againEnv.KeepsQueues := by
  intro key handler hhandler n ctx payload cmd hcmd op hop
  have hsome : (if key = "again" then some againHandler else none) = some handler := hhandler
  split at hsome
  · cases hsome
    cases hcmd
    cases hop
  · cases hsome

/-- The run over the restored queue. -/
theorem actionsRunOnce_iff_restored :
    ∃ after report handled,
      (ActionsRunOnce againEnv .stepEnd restoredRuntime after report handled ↔
        ∀ a ∈ handled, a.OwnsId) :=
  ⟨_, _, _, actionsRunOnce_iff againEnv restoredContext 16 restoredRuntime _ _ _
    againEnv_keepsQueues (by decide) rfl⟩

/-- The runtime counts its ids from one again, and the action queued by the handler takes the
    action of the other phase with it. -/
theorem restoredQueue_losesAction :
    againEnv.KeepsQueues ∧
      ((queueOf restoredRuntime).map ScheduledActionEnvelope.id).Nodup ∧
      ∃ after report handled,
        executeScheduledActions againEnv restoredContext 16 restoredRuntime =
          (.ok (report, handled), after) ∧
        ¬ ActionsRunOnce againEnv .stepEnd restoredRuntime after report handled := by
  refine ⟨againEnv_keepsQueues, by decide, _, _, _, rfl, ?_⟩
  intro h
  have hlength := congrArg List.length h.others
  revert hlength
  decide

/-! ## Given ids -/

/-- Over a queue whose ids the runtime has given, every stage that ends runs the matching actions
    once, and leaves such a queue to the stages after it. -/
theorem executeScheduledActions_fresh (hkeeps : env.KeepsQueues) (hfresh : FreshIds before)
    {maxRounds : Nat} {report : PhaseRunReport} {handled : List HandledAction}
    (h : executeScheduledActions env baseCtx maxRounds before = (.ok (report, handled), after)) :
    ActionsRunOnce env baseCtx.phase before after report handled ∧ FreshIds after := by
  obtain ⟨hrun, hrounds⟩ := executeScheduledActions_rounds hkeeps h
  have hnodup : (((queueOf before).filter (env.isMatching baseCtx.phase)).map
      ScheduledActionEnvelope.id).Nodup :=
    hfresh.nodup.sublist (List.filter_sublist.map _)
  have hcopies : ∀ s ∈ handled.map HandledAction.step, s.copies ScheduledActionEnvelope.id = 1 := by
    intro s hs
    obtain ⟨a, ha, rfl⟩ := List.mem_map.mp hs
    rw [copies_eq_count]
    exact ownsId_of_fresh hkeeps hfresh h a ha
  obtain ⟨honce, hothers⟩ := (hrounds.once_iff hnodup hrun.ids).mpr hcopies
  rw [List.map_map] at honce
  simp only [addedBy, List.flatMap_map] at honce hothers
  refine ⟨⟨honce, (hrounds.spec hnodup hrun.ids).none, hrun.failed, hothers, ?_⟩,
    (executeRounds_fresh hkeeps hfresh h).1⟩
  have hcounts := hrun.counts
  simp only [ExecuteTotals.zero] at hcounts
  omega

/-- The same queue, with ids that the runtime has given. -/
theorem executeScheduledActions_fresh_again :
    ∃ after report handled,
      ActionsRunOnce againEnv restoredContext.phase { restoredRuntime with nextId := 3 } after report
        handled ∧ FreshIds after :=
  ⟨_, _, _, executeScheduledActions_fresh againEnv_keepsQueues ⟨by decide, by decide⟩
    (show executeScheduledActions againEnv restoredContext 16 _ = _ from rfl)⟩

end Remo
