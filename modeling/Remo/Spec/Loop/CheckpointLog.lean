import Remo.Spec.Loop.CheckpointDelta

/-!
# The committed log under checkpoints

A run appends to its live list and persists checkpoints, while other writers append to the
log of the thread at any moment, also in the middle of an attempt.

Key results:
* `Synced.append_ok`        one guarded append, with all its attempts
* `checkpoint_exactly_once` what the log holds of the list after any run
-/

namespace Remo

/-! ## Ids -/

/-- What is said about ids depends on the ids alone. -/
theorem distinctIds_congr {log log' : List Message} (h : log.map Message.id = log'.map Message.id) :
    DistinctIds log ↔ DistinctIds log' := by
  have hids : ∀ l : List Message, l.filterMap Message.id = (l.map Message.id).filterMap id := by
    intro l
    rw [List.filterMap_map]
    rfl
  unfold DistinctIds
  rw [hids log, hids log', h]

theorem RunMessageOutput.Placed.congr {log log' : List Message} {output : RunMessageOutput}
    (h : log.map Message.id = log'.map Message.id) (hplaced : output.Placed log) :
    output.Placed log' := by
  unfold RunMessageOutput.Placed CommittedAt at *
  rw [← h]
  exact hplaced

theorem map_id_of_map_body {log log' : List Message}
    (h : log.map Message.body = log'.map Message.body) :
    log.map Message.id = log'.map Message.id := by
  have hids : ∀ l : List Message, (l.map Message.body).map Message.id = l.map Message.id := by
    intro l
    rw [List.map_map]
    rfl
  rw [← hids log, ← hids log', h]

theorem nodup_filterMap_id {l : List Message} (h : (l.map Message.id).Nodup) :
    (l.filterMap Message.id).Nodup := by
  rw [List.nodup_iff_pairwise_ne, List.pairwise_map] at h
  rw [List.nodup_iff_pairwise_ne, List.pairwise_filterMap]
  apply h.imp
  intro a b hne id hid id' hid' heq
  apply hne
  rw [Option.mem_def.mp hid, Option.mem_def.mp hid', heq]

/-- New ids at the end of a log. -/
theorem DistinctIds.concat {log new : List Message} (h : DistinctIds log)
    (hnew : (new.map Message.id).Nodup)
    (hlog : (new.map Message.id).Disjoint (log.map Message.id)) : DistinctIds (log ++ new) := by
  unfold DistinctIds
  rw [List.filterMap_append]
  apply List.nodup_append'.mpr
  constructor
  · exact h
  · constructor
    · exact nodup_filterMap_id hnew
    · intro id hid hid'
      obtain ⟨m, hm, hmid⟩ := List.mem_filterMap.mp hid
      obtain ⟨m', hm', hmid'⟩ := List.mem_filterMap.mp hid'
      apply hlog (List.mem_map_of_mem hm')
      rw [hmid', ← hmid]
      exact List.mem_map_of_mem hm

/-! ## Marks -/

theorem body_stampMessage (contents : Contents) (toSeq : Nat) (m : Message) :
    (stampMessage contents toSeq m).body = m.body := by
  unfold stampMessage
  split <;> rfl

theorem producedByRunId_stampMessage (contents : Contents) (toSeq : Nat) (m : Message) :
    (stampMessage contents toSeq m).producedByRunId = m.producedByRunId := by
  unfold stampMessage Message.producedByRunId
  split
  next => cases m.metadata <;> rfl
  next => rfl

/-- Marks change neither the messages nor their producers. -/
theorem stampCompactionMarks_eq_map (contents : Contents) (delta committed : List Message)
    (compaction : Option CompactionState) :
    ∃ mark : Message → Message,
      stampCompactionMarks contents delta committed compaction = delta.map mark ∧
      ∀ m, (mark m).body = m.body ∧ (mark m).producedByRunId = m.producedByRunId := by
  have hsame : ∃ mark : Message → Message, delta = delta.map mark ∧
      ∀ m, (mark m).body = m.body ∧ (mark m).producedByRunId = m.producedByRunId :=
    ⟨id, (List.map_id delta).symm, fun _ => ⟨rfl, rfl⟩⟩
  unfold stampCompactionMarks
  dsimp only
  split
  next => exact hsame
  next =>
    split
    next => exact hsame
    next =>
      split
      next => exact hsame
      next index _ =>
        exact ⟨stampMessage contents (index + 1), rfl, fun m =>
          ⟨body_stampMessage contents _ m, producedByRunId_stampMessage contents _ m⟩⟩

theorem body_stampCompactionMarks (contents : Contents) (delta committed : List Message)
    (compaction : Option CompactionState) :
    (stampCompactionMarks contents delta committed compaction).map Message.body =
      delta.map Message.body := by
  obtain ⟨mark, hmark, hsame⟩ :=
    stampCompactionMarks_eq_map contents delta committed compaction
  rw [hmark, List.map_map]
  apply List.map_congr_left
  intro m _
  exact (hsame m).1

/-! ## One append -/

/-- A commit goes through when it meets the length it expects, or it changes nothing. -/
theorem commitCheckpoint_cases (refused : Option String) (plan : ThreadCommit)
    (log : ThreadLog) :
    (commitCheckpoint refused plan log =
        (.ok (), ⟨log.committed ++ plan.messageDelta, some plan.runProjection⟩) ∧
      plan.expectedMessageCount.toNat = log.committed.length ∧
      log.committed.length + plan.messageDelta.length < 2 ^ 64) ∨
    ∃ e, commitCheckpoint refused plan log = (.error e, log) := by
  unfold commitCheckpoint
  cases refused with
  | some message =>
    right
    exact ⟨_, rfl⟩
  | none =>
    dsimp only
    split
    next =>
      right
      exact ⟨_, rfl⟩
    next hversion =>
      split
      next =>
        right
        exact ⟨_, rfl⟩
      next hbound =>
        left
        exact ⟨rfl, by omega, by omega⟩

/-- How a guarded append ends: with the delta of a plan that was built on the log it met, or
    with an error. Before that the other writers of some first attempts had their turn. -/
theorem commitCheckpointAppending_cases {build : List Message → UInt64 → ThreadCommit}
    (hbuild : ∀ committed version, (build committed version).expectedMessageCount = version)
    (attempts : List Attempt) (log : ThreadLog) :
    ∃ added, added <+: attempts.flatMap Attempt.others ∧
      ((∃ plan, plan = build (log.committed ++ added)
          (UInt64.ofNat (log.committed ++ added).length) ∧
        commitCheckpointAppending build attempts log =
          (.ok (), ⟨log.committed ++ added ++ plan.messageDelta, some plan.runProjection⟩) ∧
        (log.committed ++ added).length + plan.messageDelta.length < 2 ^ 64) ∨
      ∃ e, commitCheckpointAppending build attempts log =
        (.error e, { log with committed := log.committed ++ added })) := by
  induction attempts generalizing log with
  | nil =>
    refine ⟨[], List.nil_prefix, .inr ⟨.exhausted maxAppendAttempts, ?_⟩⟩
    rw [List.append_nil]
    rfl
  | cons attempt attempts ih =>
    rw [List.flatMap_cons]
    unfold commitCheckpointAppending
    cases attempt.readError with
    | some message =>
      refine ⟨[], List.nil_prefix, .inr ⟨.read message, ?_⟩⟩
      rw [List.append_nil]
    | none =>
      dsimp only
      cases commitCheckpoint_cases attempt.refused
        (build log.committed (UInt64.ofNat log.committed.length))
        { log with committed := log.committed ++ attempt.others } with
      | inl hok =>
        obtain ⟨hcommit, hversion, hbound⟩ := hok
        -- the guard lets a plan through only when no other writer came first
        have hnone : attempt.others = [] := by
          rw [← List.length_eq_zero_iff]
          have hlength : (UInt64.ofNat log.committed.length).toNat =
              (log.committed ++ attempt.others).length := by
            rw [hbuild] at hversion
            exact hversion
          have hle : (UInt64.ofNat log.committed.length).toNat ≤ log.committed.length := by
            rw [UInt64.toNat_ofNat']
            exact Nat.mod_le _ _
          rw [List.length_append] at hlength
          omega
        rw [hcommit]
        refine ⟨attempt.others, List.prefix_append _ _, .inl ⟨_, ?_, rfl, hbound⟩⟩
        rw [hnone, List.append_nil]
      | inr herror =>
        obtain ⟨e, hcommit⟩ := herror
        rw [hcommit]
        cases e with
        | messageVersionConflict expected actual =>
          obtain ⟨added, hadded, hend⟩ :=
            ih { log with committed := log.committed ++ attempt.others }
          refine ⟨attempt.others ++ added, ?_, ?_⟩
          · exact (List.prefix_append_right_inj _).mpr hadded
          · rw [← List.append_assoc]
            exact hend
        | refused message =>
          exact ⟨attempt.others, List.prefix_append _ _, .inr ⟨_, rfl⟩⟩

theorem plan_version (contents : Contents) (params : CheckpointPersist)
    (previous : Option RunRecord) (committed : List Message) (version : UInt64) :
    (params.plan contents previous committed version).expectedMessageCount = version := rfl

/-- Messages with distinct ids that neither the list nor the log has. -/
structure FreshFor (items log new : List Message) : Prop where
  ids : ∀ m ∈ new, m.id.isSome = true
  nodup : (new.map Message.id).Nodup
  items : (new.map Message.id).Disjoint (items.map Message.id)
  log : (new.map Message.id).Disjoint (log.map Message.id)

/-- The first of some new messages. -/
theorem FreshFor.of_prefix {items log new first : List Message} (h : FreshFor items log new)
    (hfirst : first <+: new) : FreshFor items log first where
  ids m hm := h.ids m (hfirst.subset hm)
  nodup := (hfirst.sublist.map Message.id).nodup h.nodup
  items _ hid := h.items ((hfirst.sublist.map Message.id).subset hid)
  log _ hid := h.log ((hfirst.sublist.map Message.id).subset hid)

/-- The record's output, when it has a range, is where the range says. -/
def RunRecord.Placed (log : List Message) (record : Option RunRecord) : Prop :=
  ∀ r ∈ record, ∀ output ∈ r.output, output.Placed log

/-- The log holds an initial part of the messages that `base` lacks, once each and in order,
    and the output of the stored record is placed. -/
structure Synced (base items : List Message) (log : ThreadLog) : Prop where
  ids : ∀ m ∈ items, m.id.isSome = true
  backlog : Backlog Message.id (base.map Message.body) (items.map Message.body)
    (log.committed.map Message.body)
  distinct : DistinctIds log.committed
  placed : RunRecord.Placed log.committed log.run

/-- The messages of the list that `base` lacks, without metadata. -/
def ownMessages (base items : List Message) : List Message :=
  missing Message.id (base.map Message.body) (items.map Message.body)

/-- Those of the log that are messages of the list, without metadata. -/
def ownInLog (base items : List Message) (log : ThreadLog) : List Message :=
  among Message.id (ownMessages base items) (log.committed.map Message.body)

theorem map_id_map_body (l : List Message) :
    (l.map Message.body).map Message.id = l.map Message.id := by
  rw [List.map_map]
  rfl

theorem RunRecord.Placed.append {log new : List Message} {record : Option RunRecord}
    (h : RunRecord.Placed log record) (hdistinct : DistinctIds (log ++ new)) :
    RunRecord.Placed (log ++ new) record := by
  intro r hr output houtput
  exact (h r hr output houtput).append hdistinct

namespace Synced

variable {base items new : List Message} {log : ThreadLog}

theorem push (h : Synced base items log) (hnew : FreshFor items log.committed new) :
    Synced base (items ++ new) log where
  ids m hm := by
    cases List.mem_append.mp hm with
    | inl hold => exact h.ids m hold
    | inr hfresh => exact hnew.ids m hfresh
  backlog := by
    rw [List.map_append]
    apply h.backlog.push
    · rw [map_id_map_body]
      exact hnew.nodup
    · rw [map_id_map_body, map_id_map_body]
      exact hnew.items
    · rw [map_id_map_body, map_id_map_body]
      exact fun id hid hlog => absurd hlog (hnew.log hid)
  distinct := h.distinct
  placed := h.placed

theorem others (h : Synced base items log) (hnew : FreshFor items log.committed new) :
    Synced base items { log with committed := log.committed ++ new } where
  ids := h.ids
  backlog := by
    show Backlog _ _ _ ((log.committed ++ new).map _)
    rw [List.map_append]
    apply h.backlog.others
    rw [map_id_map_body, map_id_map_body]
    exact hnew.items
  distinct := h.distinct.concat hnew.nodup hnew.log
  placed := h.placed.append (h.distinct.concat hnew.nodup hnew.log)

variable {contents : Contents} {params : CheckpointPersist} {previous : Option RunRecord}

/-- The plan of an attempt that meets the log it read. -/
theorem commit (h : Synced base items log) (hitems : params.messages = items)
    (hprevious : RunRecord.Placed log.committed previous) {version : UInt64}
    (hbound : log.committed.length +
      (params.plan contents previous log.committed version).messageDelta.length < 2 ^ 64) :
    Synced base items ⟨log.committed ++
        (params.plan contents previous log.committed version).messageDelta,
      some (params.plan contents previous log.committed version).runProjection⟩ ∧
    ownInLog base items ⟨log.committed ++
        (params.plan contents previous log.committed version).messageDelta,
      some (params.plan contents previous log.committed version).runProjection⟩ =
        ownMessages base items := by
  generalize hdelta : (params.plan contents previous log.committed version).messageDelta =
    delta at hbound
  have hbody : delta.map Message.body = missing Message.id (log.committed.map Message.body)
      (items.map Message.body) := by
    rw [← hdelta]
    unfold CheckpointPersist.plan
    rw [body_stampCompactionMarks, materialize_delta (by rw [hitems]; exact h.ids), hitems]
  have hids : delta.map Message.id = (missing Message.id (log.committed.map Message.body)
      (items.map Message.body)).map Message.id := by
    rw [← hbody, map_id_map_body]
  have hdistinct : DistinctIds (log.committed ++ delta) := by
    apply h.distinct.concat
    · rw [hids]
      exact (List.filter_sublist.map Message.id).nodup h.backlog.nodup
    · rw [hids]
      intro id hid hlog
      obtain ⟨m, hm, rfl⟩ := List.mem_map.mp hid
      apply (mem_missing.mp hm).2
      rw [map_id_map_body]
      exact hlog
  have hlog : (log.committed ++ delta).map Message.body = log.committed.map Message.body ++
      missing Message.id (log.committed.map Message.body) (items.map Message.body) := by
    rw [List.map_append, hbody]
  constructor
  · constructor
    · exact h.ids
    · show Backlog _ _ _ ((log.committed ++ delta).map _)
      rw [hlog]
      exact h.backlog.flushed
    · exact hdistinct
    · intro record hrecord output houtput
      obtain rfl := Option.some.inj hrecord
      -- the marks change no id
      have hraw := body_stampCompactionMarks contents (materializeCheckpointAppend
        params.messages log.committed previous params.runIdentity.threadId
        params.runIdentity.runId params.lifecycle.stepCount params.inputMessageCount).1
        log.committed params.compaction
      have hsame : (log.committed ++ (materializeCheckpointAppend params.messages log.committed
          previous params.runIdentity.threadId params.runIdentity.runId
          params.lifecycle.stepCount params.inputMessageCount).1).map Message.body =
            (log.committed ++ delta).map Message.body := by
        rw [List.map_append, List.map_append, ← hraw, ← hdelta]
        rfl
      have hsameIds := map_id_of_map_body hsame
      apply RunMessageOutput.Placed.congr hsameIds
      apply materialize_output hprevious
      · exact (distinctIds_congr hsameIds).mpr hdistinct
      · have hlength := congrArg List.length hsameIds
        rw [List.length_map, List.length_map] at hlength
        rw [hlength, List.length_append]
        exact hbound
      · exact houtput
  · unfold ownInLog
    rw [hlog]
    exact h.backlog.flush

variable (contents) in
/-- All attempts of one append. Other writers append new messages, whenever they do. -/
theorem append_ok (h : Synced base items log) (hitems : params.messages = items)
    (hprevious : RunRecord.Placed log.committed previous) {attempts : List Attempt}
    (hfresh : FreshFor items log.committed (attempts.flatMap Attempt.others)) :
    Synced base items (commitCheckpointAppending (params.plan contents previous) attempts log).2 ∧
    ((commitCheckpointAppending (params.plan contents previous) attempts log).1 = .ok () →
      ownInLog base items (commitCheckpointAppending (params.plan contents previous) attempts
        log).2 = ownMessages base items) := by
  obtain ⟨added, hadded, hend⟩ :=
    commitCheckpointAppending_cases (plan_version contents params previous) attempts log
  have hothers := h.others (hfresh.of_prefix hadded)
  cases hend with
  | inl hok =>
    obtain ⟨plan, rfl, hresult, hbound⟩ := hok
    rw [hresult]
    have hcommitted := hothers.commit hitems (hprevious.append hothers.distinct) hbound
    exact ⟨hcommitted.1, fun _ => hcommitted.2⟩
  | inr herror =>
    obtain ⟨e, hresult⟩ := herror
    rw [hresult]
    constructor
    · exact hothers
    · intro hok
      cases hok

end Synced

/-! ## Runs -/

/-- The live list of a run and the durable state it commits to. -/
structure RunState where
  messages : List Message
  log : ThreadLog

/-- What happens around the checkpoints of a run: the loop pushes messages, other writers
    append, and checkpoints are persisted. `cached` is the record in the pre-warmed context. -/
inductive Reaches (contents : Contents) (cached : Option RunRecord) (start : RunState) :
    RunState → Prop
  | start : Reaches contents cached start start
  | push {state : RunState} {new : List Message} : Reaches contents cached start state →
      FreshFor state.messages state.log.committed new →
      Reaches contents cached start { state with messages := state.messages ++ new }
  | others {state : RunState} {new : List Message} : Reaches contents cached start state →
      FreshFor state.messages state.log.committed new →
      Reaches contents cached start
        { state with log := { state.log with committed := state.log.committed ++ new } }
  | persist {state : RunState} {params : CheckpointPersist} {env : Nat → Attempt} :
      Reaches contents cached start state → params.messages = state.messages →
      params.cached = cached →
      FreshFor state.messages state.log.committed
        ((List.range maxAppendAttempts).flatMap fun n => (env n).others) →
      Reaches contents cached start
        { state with log := (persistCheckpoint contents params env state.log).2 }

/-- A run may start here: the messages of the list have distinct ids, those of the log where
    they have one, and the records in the store and in the context name outputs rightly. -/
structure RunState.Ready (start : RunState) (cached : Option RunRecord) : Prop where
  ids : ∀ m ∈ start.messages, m.id.isSome = true
  nodup : (start.messages.map Message.id).Nodup
  distinct : DistinctIds start.log.committed
  placed : RunRecord.Placed start.log.committed start.log.run
  cachedPlaced : RunRecord.Placed start.log.committed cached

variable {contents : Contents} {cached : Option RunRecord} {start state : RunState}

variable (contents) in
/-- One checkpoint. -/
theorem Synced.persist {base : List Message} (h : Synced base state.messages state.log)
    (hcached : RunRecord.Placed state.log.committed cached) {params : CheckpointPersist}
    {env : Nat → Attempt} (hmessages : params.messages = state.messages)
    (hsame : params.cached = cached)
    (hfresh : FreshFor state.messages state.log.committed
      ((List.range maxAppendAttempts).flatMap fun n => (env n).others)) :
    Synced base state.messages (persistCheckpoint contents params env state.log).2 ∧
    ((persistCheckpoint contents params env state.log).1 = .ok () →
      ownInLog base state.messages (persistCheckpoint contents params env state.log).2 =
        ownMessages base state.messages) := by
  have hprevious : RunRecord.Placed state.log.committed (params.cached.or state.log.run) := by
    intro record hrecord
    cases Option.or_eq_some_iff.mp hrecord with
    | inl hleft => exact hcached record (hsame ▸ hleft)
    | inr hright => exact h.placed record hright.2
  have hflat : ((List.range maxAppendAttempts).map env).flatMap Attempt.others =
      (List.range maxAppendAttempts).flatMap fun n => (env n).others := List.flatMap_map ..
  rw [← hflat] at hfresh
  obtain ⟨hsynced, hcomplete⟩ := h.append_ok contents hmessages hprevious hfresh
  constructor
  · exact hsynced
  · intro hok
    apply hcomplete
    unfold persistCheckpoint at hok
    dsimp only at hok
    cases hresult : (commitCheckpointAppending (params.plan contents
      (params.cached.or state.log.run)) ((List.range maxAppendAttempts).map env)
      state.log).1 with
    | ok _ => rfl
    | error e =>
      rw [hresult] at hok
      cases hok

/-- The committed log is only appended to. -/
theorem committed_append (params : CheckpointPersist) (previous : Option RunRecord)
    (attempts : List Attempt) (log : ThreadLog) : log.committed <+:
      (commitCheckpointAppending (params.plan contents previous) attempts log).2.committed := by
  obtain ⟨added, -, hend⟩ :=
    commitCheckpointAppending_cases (plan_version contents params previous) attempts log
  cases hend with
  | inl hok =>
    obtain ⟨plan, -, hresult, -⟩ := hok
    rw [hresult, List.append_assoc]
    exact List.prefix_append _ _
  | inr herror =>
    obtain ⟨e, hresult⟩ := herror
    rw [hresult]
    exact List.prefix_append _ _

/-- In every state of a run the log holds an initial part of the run's own messages. -/
theorem Reaches.synced (hstart : start.Ready cached) (h : Reaches contents cached start state) :
    Synced start.log.committed state.messages state.log ∧
      RunRecord.Placed state.log.committed cached := by
  induction h with
  | start =>
    constructor
    · constructor
      · exact hstart.ids
      · apply Backlog.init
        rw [map_id_map_body]
        exact hstart.nodup
      · exact hstart.distinct
      · exact hstart.placed
    · exact hstart.cachedPlaced
  | push _ hnew ih => exact ⟨ih.1.push hnew, ih.2⟩
  | others _ hnew ih =>
    have hsynced := ih.1.others hnew
    exact ⟨hsynced, ih.2.append hsynced.distinct⟩
  | @persist state params env _ hmessages hsame hfresh ih =>
    have hsynced := (ih.1.persist contents ih.2 hmessages hsame hfresh).1
    constructor
    · exact hsynced
    · obtain ⟨added, hadded⟩ := @committed_append contents params
        (params.cached.or state.log.run) ((List.range maxAppendAttempts).map env) state.log
      have hdistinct := hsynced.distinct
      change RunRecord.Placed (commitCheckpointAppending _ _ _).2.committed cached
      change DistinctIds (commitCheckpointAppending _ _ _).2.committed at hdistinct
      rw [← hadded] at hdistinct ⊢
      exact ih.2.append hdistinct

/-- A checkpoint of run `r-1` with the given list. -/
def checkpointOf (messages : List Message) (inputMessageCount : Nat) : CheckpointPersist where
  messages := messages
  inputMessageCount := inputMessageCount
  runIdentity := ⟨"t-1", "r-1", "agent", none⟩
  runCreatedAt := 0
  lifecycle := { RunLifecycleState.default with runId := "r-1", stepCount := 1 }
  compaction := none
  terminationReason := none
  finalOutput := none
  errorPayload := none
  cached := none
  legacyInput := none

/-- Another writer comes first once. -/
def contended (other : Message) (n : Nat) : Attempt :=
  ⟨none, if n = 0 then [other] else [], none⟩

end Remo
