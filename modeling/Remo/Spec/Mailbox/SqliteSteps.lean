import Remo.Spec.Mailbox.DispatchRowCodec

/-!
# Steps of the SQLite mailbox store

`Holds` says which dispatches and epochs the tables hold. Under it every load
succeeds, and each call of the store is described by the dispatch it puts in the
place of another one.
-/

namespace Remo.SqliteMailboxStore

open DispatchRow

/-- The tables hold the dispatches of `m`, all of them valid and stored under their
    own ids, and every epoch can be read. -/
structure Holds (driver : SqliteDriver) (q : SqliteMailboxStore) (m : AssocMap String RunDispatch)
    (epoch : String → UInt64) : Prop where
  rows : q.runDispatches = m.mapValues fun _ => ofDispatch driver
  keyed : ∀ k d, m.get? k = some d → d.dispatchId = k
  valid : ∀ k d, m.get? k = some d → d.Valid
  epochs : ∀ t, q.currentEpochForConn driver t = .ok (epoch t)

variable {driver : SqliteDriver} {q : SqliteMailboxStore} {m : AssocMap String RunDispatch}
  {epoch : String → UInt64}

/-! ## Reading -/

theorem Holds.get? (h : Holds driver q m epoch) (k : String) :
    q.runDispatches.get? k = (m.get? k).map (ofDispatch driver) := by
  rw [h.rows, AssocMap.get?_mapValues]

theorem Holds.keys (h : Holds driver q m epoch) : q.runDispatches.keys = m.keys := by
  rw [h.rows, AssocMap.keys_mapValues]

theorem Holds.any_values (h : Holds driver q m epoch) (p : DispatchRow → Bool) :
    q.runDispatches.values.any p = m.values.any fun d => p (ofDispatch driver d) := by
  rw [h.rows, AssocMap.values_mapValues, List.any_map]
  rfl

/-- A selection yields the rows of the dispatches that match. -/
theorem Holds.selectWhere (h : Holds driver q m epoch) (cond : DispatchRow → Bool) :
    q.selectWhere cond =
      (m.values.filter fun d => cond (ofDispatch driver d)).map (ofDispatch driver) := by
  rw [SqliteMailboxStore.selectWhere, h.rows, AssocMap.values_mapValues, List.filter_map]
  rfl

theorem Holds.valid_of_mem (h : Holds driver q m epoch) {d : RunDispatch} (hd : d ∈ m.values) :
    d.Valid := by
  obtain ⟨k, hk⟩ := AssocMap.mem_values.mp hd
  exact h.valid k d hk

theorem Holds.get?_of_mem (h : Holds driver q m epoch) {d : RunDispatch} (hd : d ∈ m.values) :
    m.get? d.dispatchId = some d := by
  obtain ⟨k, hk⟩ := AssocMap.mem_values.mp hd
  rwa [h.keyed k d hk]

/-- Stored rows decode. -/
theorem Holds.decode (h : Holds driver q m epoch) {k : String} {d : RunDispatch}
    (hd : m.get? k = some d) : (ofDispatch driver d).rowToDispatch driver = .ok d :=
  (rowToDispatch_ofDispatch driver).mpr ⟨h.valid k d hd, rfl⟩

theorem Holds.loadRow (h : Holds driver q m epoch) (context dispatchId : String) :
    q.loadRow driver context dispatchId = .ok (m.get? dispatchId) := by
  rw [SqliteMailboxStore.loadRow, h.get?]
  cases hd : m.get? dispatchId with
  | none => rfl
  | some d =>
    rw [Option.map_some, Option.mapM_some, h.decode hd]
    rfl

theorem Holds.reloadRow (h : Holds driver q m epoch) (context dispatchId : String)
    {d : RunDispatch} (hd : m.get? dispatchId = some d) :
    q.reloadRow driver context dispatchId = .ok d := by
  rw [SqliteMailboxStore.reloadRow, h.get?, hd, Option.map_some]
  dsimp only
  rw [h.decode hd]
  rfl

/-- Reading back several dispatches that are there succeeds. -/
theorem Holds.reloadRows (h : Holds driver q m epoch) (context : String) (ids : List String)
    (hids : ∀ id ∈ ids, ∃ d, m.get? id = some d) :
    ids.mapM (fun id => q.reloadRow driver context id) = .ok (ids.filterMap m.get?) := by
  induction ids with
  | nil => rfl
  | cons id ids ih =>
    obtain ⟨d, hd⟩ := hids id List.mem_cons_self
    have hrest := ih fun id' hid' => hids id' (List.mem_cons_of_mem _ hid')
    rw [List.mapM_cons, h.reloadRow context id hd, List.filterMap_cons_some hd]
    simp only [bind, Except.bind]
    rw [hrest]
    rfl

/-- The rows of stored dispatches decode. -/
theorem Holds.decodeRows (h : Holds driver q m epoch) (context : String) {ds : List RunDispatch}
    (hds : ∀ d ∈ ds, d ∈ m.values) :
    decodeRows driver context (ds.map (ofDispatch driver)) = .ok ds := by
  rw [SqliteMailboxStore.decodeRows,
    mapM_rowToDispatch driver _ fun d hd => h.valid_of_mem (hds d hd)]
  rfl

/-- The first row of a selection decodes. -/
theorem Holds.selectFirst (h : Holds driver q m epoch) (cond : DispatchRow → Bool) :
    ∃ first, (q.selectWhere cond).head?.mapM (rowToDispatch driver) = .ok first := by
  rw [h.selectWhere, List.head?_map]
  cases hfirst : (m.values.filter fun d => cond (ofDispatch driver d)).head? with
  | none => exact ⟨none, rfl⟩
  | some d =>
    have hd := List.mem_of_mem_filter (List.mem_of_head? hfirst)
    refine ⟨some d, ?_⟩
    rw [Option.map_some, Option.mapM_some, h.decode (h.get?_of_mem hd)]
    rfl

/-- The cell an epoch is read from. -/
theorem Holds.epochCell (h : Holds driver q m epoch) (threadId : String) :
    (q.threadDispatchEpochs.get? threadId = none ∧ epoch threadId = 0) ∨
      q.threadDispatchEpochs.get? threadId = some (.integer (epoch threadId).toInt64) := by
  have hread := h.epochs threadId
  unfold currentEpochForConn at hread
  cases hcell : q.threadDispatchEpochs.get? threadId with
  | none =>
    rw [hcell] at hread
    exact .inl ⟨rfl, (Except.ok.inj hread).symm⟩
  | some cell =>
    rw [hcell] at hread
    cases cell with
    | real => cases hread
    | integer v =>
      have hv : v.toUInt64 = epoch threadId := Except.ok.inj hread
      exact .inr (by rw [← hv]; rfl)

/-! ## Writing -/

/-- An update by primary key replaces one dispatch. -/
theorem Holds.updateById (h : Holds driver q m epoch) {k : String} {d : RunDispatch}
    (hd : m.get? k = some d) (set : DispatchRow → DispatchRow) (d' : RunDispatch)
    (hset : set (ofDispatch driver d) = ofDispatch driver d')
    (hid : d'.dispatchId = d.dispatchId) (hvalid : d'.Valid) :
    Holds driver (q.updateById k set) (m.modify k fun _ => d') epoch := by
  refine ⟨?_, fun k' e he => ?_, fun k' e he => ?_, h.epochs⟩
  · simp only [SqliteMailboxStore.updateById, h.rows]
    exact AssocMap.modify_mapValues hd hset
  all_goals
    rw [AssocMap.get?_modify] at he
    by_cases hk : k' = k
    · simp only [hk, if_true, hd, Option.map_some, Option.some.injEq] at he
      subst he
      first | exact hvalid | rw [hid, h.keyed k d hd, hk]
    · rw [if_neg hk] at he
      first | exact h.valid k' e he | exact h.keyed k' e he

/-- An update with a condition changes the dispatches that match. -/
theorem Holds.updateWhere (h : Holds driver q m epoch) (cond : DispatchRow → Bool)
    (set : DispatchRow → DispatchRow) (w : RunDispatch → RunDispatch)
    (hset : ∀ d, set (ofDispatch driver d) = ofDispatch driver (w d))
    (hid : ∀ d, (w d).dispatchId = d.dispatchId)
    (hvalid : ∀ k d, m.get? k = some d → cond (ofDispatch driver d) = true → (w d).Valid) :
    Holds driver (q.updateWhere cond set)
      (m.mapValues fun _ d => if cond (ofDispatch driver d) then w d else d) epoch := by
  refine ⟨?_, fun k e he => ?_, fun k e he => ?_, h.epochs⟩
  · simp only [SqliteMailboxStore.updateWhere, h.rows, AssocMap.mapValues_mapValues]
    refine AssocMap.mapValues_congr fun k d _ => ?_
    split
    · exact hset d
    · rfl
  all_goals
    rw [AssocMap.get?_mapValues, Option.map_eq_some_iff] at he
    obtain ⟨d, hd, rfl⟩ := he
    split
  · rw [hid, h.keyed k d hd]
  · exact h.keyed k d hd
  · rename_i hcond
    exact hvalid k d hd hcond
  · exact h.valid k d hd

/-- Updates of several rows by primary key change these dispatches. -/
theorem Holds.updateAll (h : Holds driver q m epoch) {ids : List String} (hnd : ids.Nodup)
    (set : DispatchRow → DispatchRow) (w : RunDispatch → RunDispatch)
    (hset : ∀ d, set (ofDispatch driver d) = ofDispatch driver (w d))
    (hid : ∀ d, (w d).dispatchId = d.dispatchId)
    (hvalid : ∀ id ∈ ids, ∃ d, m.get? id = some d ∧ (w d).Valid) :
    Holds driver (ids.foldl (fun q id => q.updateById id set) q)
      (m.mapValues fun k d => if k ∈ ids then w d else d) epoch := by
  induction ids generalizing q m with
  | nil =>
    have hsame : (m.mapValues fun k d => if k ∈ ([] : List String) then w d else d) = m := by
      simp only [List.not_mem_nil, if_false]
      ext1
      simp [AssocMap.mapValues]
    rw [hsame]
    exact h
  | cons id ids ih =>
    obtain ⟨hnot, hnd'⟩ := List.nodup_cons.mp hnd
    obtain ⟨d, hd, hw⟩ := hvalid id List.mem_cons_self
    have hfirst := h.updateById hd _ _ (hset d) (hid d) hw
    have hrest := ih hfirst hnd' fun id' hid' => by
      obtain ⟨d', hd', hw'⟩ := hvalid id' (List.mem_cons_of_mem _ hid')
      have hne : id' ≠ id := fun heq => hnot (heq ▸ hid')
      exact ⟨d', by rw [AssocMap.get?_modify_of_ne _ _ hne, hd'], hw'⟩
    rw [List.foldl_cons]
    refine cast ?_ hrest
    congr 1
    rw [AssocMap.modify, AssocMap.mapValues_mapValues]
    refine AssocMap.mapValues_congr fun k e he => ?_
    by_cases hk : k = id
    · subst hk
      rw [hd] at he
      cases he
      simp [hnot]
    · simp [hk]

/-- Any scan order shows the same dispatches. -/
theorem Holds.reorder (h : Holds driver q m epoch) (order : String → Nat) :
    Holds driver (q.reorder order) (m.reorder order) epoch :=
  ⟨by rw [SqliteMailboxStore.reorder, h.rows, AssocMap.reorder_mapValues],
    fun k d hd => h.keyed k d (by simpa using hd), fun k d hd => h.valid k d (by simpa using hd),
    h.epochs⟩

theorem holds_new : Holds driver new AssocMap.empty fun _ => 0 :=
  ⟨rfl, fun _ _ h => (nomatch h), fun _ _ h => (nomatch h), fun _ => rfl⟩

/-! ## Superseding -/

/-- A claimed dispatch presented with its token is superseded at the later epoch. -/
theorem Holds.supersedeClaimedLoaded (h : Holds driver q m epoch) {d : RunDispatch}
    (hd : m.get? d.dispatchId = some d) (hs : d.status = .claimed) {claimToken : String}
    (htoken : d.claimToken = some claimToken) (now : UInt64) (reason : String) :
    ∃ q', SqliteMailboxStore.supersedeClaimedLoaded driver d claimToken now reason q =
        (.ok (some (d.sqlSuperseded (max d.dispatchEpoch (epoch d.threadId)) reason now)), q') ∧
      Holds driver q' (m.modify d.dispatchId fun _ =>
        d.sqlSuperseded (max d.dispatchEpoch (epoch d.threadId)) reason now) epoch := by
  have hcond : ((ofDispatch driver d).status == "Claimed"
      && (ofDispatch driver d).claimToken == some claimToken) = true := by
    simp [ofDispatch, hs, htoken, statusToStr]
  have hput := h.updateById hd
    (fun row => if (row.status == "Claimed" && row.claimToken == some claimToken) = true
      then setSupersededAtEpoch (max d.dispatchEpoch (epoch d.threadId)) reason now row else row)
    (d.sqlSuperseded (max d.dispatchEpoch (epoch d.threadId)) reason now)
    (by rw [if_pos hcond, setSupersededAtEpoch_ofDispatch]) rfl
    (RunDispatch.sqlSuperseded_valid (h.valid _ _ hd).identified _ _ _)
  refine ⟨_, ?_, hput⟩
  unfold SqliteMailboxStore.supersedeClaimedLoaded
  rw [if_neg (not_not.mpr hs), if_neg (not_not.mpr htoken), h.epochs]
  dsimp only
  rw [h.get?, hd, Option.map_some, Option.any_some, hcond, Bool.not_true,
    if_neg Bool.false_ne_true, hput.loadRow, AssocMap.get?_modify_self, hd, Option.map_some]

/-- A dispatch at the thread's epoch is left alone. -/
theorem Holds.supersedeStaleClaimed_of_fresh (h : Holds driver q m epoch) {d : RunDispatch}
    (hfresh : epoch d.threadId ≤ d.dispatchEpoch) (claimToken : String) (now : UInt64)
    (reason : String) :
    supersedeStaleClaimedIfNeeded driver d claimToken now reason q = (.ok false, q) := by
  unfold supersedeStaleClaimedIfNeeded
  rw [h.epochs]
  exact if_pos hfresh

/-- A claimed dispatch behind the thread's epoch is superseded at that epoch. -/
theorem Holds.supersedeStaleClaimed_of_stale (h : Holds driver q m epoch) {d : RunDispatch}
    (hd : m.get? d.dispatchId = some d) (hs : d.status = .claimed) {claimToken : String}
    (htoken : d.claimToken = some claimToken) (hstale : d.dispatchEpoch < epoch d.threadId)
    (now : UInt64) (reason : String) :
    ∃ q', supersedeStaleClaimedIfNeeded driver d claimToken now reason q = (.ok true, q') ∧
      Holds driver q' (m.modify d.dispatchId fun _ =>
        d.sqlSuperseded (epoch d.threadId) reason now) epoch := by
  obtain ⟨q', hcall, hholds⟩ := h.supersedeClaimedLoaded hd hs htoken now reason
  have hmax : max d.dispatchEpoch (epoch d.threadId) = epoch d.threadId :=
    if_pos (UInt64.le_of_lt hstale)
  rw [hmax] at hcall hholds
  refine ⟨q', ?_, hholds⟩
  unfold supersedeStaleClaimedIfNeeded
  rw [h.epochs]
  dsimp only
  rw [if_neg (UInt64.not_le.mpr hstale), Method.map, hcall]
  rfl

/-- Superseding the queued dispatches of a thread that are behind its epoch. -/
theorem Holds.supersedeStaleQueued (h : Holds driver q m epoch) (threadId : String)
    (now : UInt64) :
    ∃ q', supersedeStaleQueuedForThread driver threadId now q = (.ok (), q') ∧
      Holds driver q' (m.mapValues fun _ d =>
        if d.threadId == threadId && statusToStr d.status == "Queued"
            && decide (d.dispatchEpoch.toInt64 < (epoch threadId).toInt64) then
          d.sqlSuperseded (epoch threadId) MailboxState.reasonQueuedSupersededByEpoch now
        else d) epoch := by
  unfold supersedeStaleQueuedForThread
  rw [h.epochs]
  exact ⟨_, rfl, h.updateWhere _ _ _ (fun _ => rfl) (fun _ => rfl) fun k d hd _ =>
    RunDispatch.sqlSuperseded_valid (h.valid k d hd).identified _ _ _⟩

/-! ## Calls of a claim holder -/

section WithClaim

variable {α : Type} (context : String) {dispatchId claimToken : String}
  (missing rejected : Outcome α) (stale : RunDispatch → SqliteMailboxStore → Outcome α)
  {owns : RunDispatch → Bool} (now : UInt64) (reason : String)
  (update : RunDispatch → Method Fault SqliteMailboxStore α)

/-- All that a call of a claim holder can do: find nothing, reject the caller,
    supersede a dispatch that is behind its thread, or run its own statements. -/
theorem Holds.withClaim_cases (h : Holds driver q m epoch)
    (howns : ∀ d, owns d = true → d.claimToken = some claimToken) :
    (m.get? dispatchId = none ∧ withClaim driver context dispatchId claimToken missing rejected
      stale owns now reason update q = (missing, q)) ∨
    ∃ d, m.get? dispatchId = some d ∧
      ((owns d = false ∧ withClaim driver context dispatchId claimToken missing rejected
          stale owns now reason update q = (rejected, q)) ∨
        (owns d = true ∧ d.status = .claimed ∧ d.dispatchEpoch < epoch d.threadId ∧
          ∃ q', withClaim driver context dispatchId claimToken missing rejected
              stale owns now reason update q = (stale d q', q') ∧
            Holds driver q' (m.modify dispatchId fun _ =>
              d.sqlSuperseded (epoch d.threadId) reason now) epoch) ∨
        (owns d = true ∧ d.status = .claimed ∧ epoch d.threadId ≤ d.dispatchEpoch ∧
          withClaim driver context dispatchId claimToken missing rejected
            stale owns now reason update q = update d q)) := by
  unfold withClaim
  rw [h.loadRow]
  cases hd : m.get? dispatchId with
  | none => exact .inl ⟨rfl, rfl⟩
  | some d =>
    right
    refine ⟨d, rfl, ?_⟩
    cases ho : owns d with
    | false => exact .inl ⟨rfl, by simp [ho]⟩
    | true =>
      right
      have hkey := h.keyed _ _ hd
      have htoken := howns d ho
      have hs : d.status = .claimed :=
        (h.valid _ _ hd).claimed_of_token (by simp [htoken])
      by_cases hstale : d.dispatchEpoch < epoch d.threadId
      · obtain ⟨q', hcall, hholds⟩ := h.supersedeStaleClaimed_of_stale
          (by rwa [hkey]) hs htoken hstale now reason
        refine .inl ⟨rfl, hs, hstale, q', ?_, by rwa [hkey] at hholds⟩
        simp [ho, Method.bind, hcall]
      · have hfresh := UInt64.not_lt.mp hstale
        refine .inr ⟨rfl, hs, hfresh, ?_⟩
        simp [ho, Method.bind, h.supersedeStaleClaimed_of_fresh hfresh]

end WithClaim

/-! ## Enqueue -/

/-- Creating the epoch row of a thread does not change any epoch. -/
theorem Holds.createEpochRow (h : Holds driver q m epoch) (threadId : String) :
    Holds driver { q with
      threadDispatchEpochs := q.threadDispatchEpochs.orInsert threadId (.integer 0) } m epoch := by
  refine ⟨h.rows, h.keyed, h.valid, fun t => ?_⟩
  rw [← h.epochs t]
  unfold currentEpochForConn
  dsimp only
  rw [AssocMap.get?_orInsert]
  by_cases ht : t = threadId
  · subst ht
    cases q.threadDispatchEpochs.get? t with
    | none => simp only [if_true, Option.getD_none]; rfl
    | some cell => simp only [if_true, Option.getD_some]
  · rw [if_neg ht]

/-- All that an enqueue can do. -/
theorem Holds.enqueue_cases (h : Holds driver q m epoch) (dispatch : RunDispatch) :
    (∃ e, dispatch.validateForEnqueue = .error e ∧
      enqueue driver dispatch q = (Outcome.fail e, q)) ∨
    (dispatch.validateForEnqueue = .ok () ∧ q.hasDuplicate dispatch = true ∧
      ∃ e, enqueue driver dispatch q = (Outcome.fail e, q)) ∨
    (dispatch.validateForEnqueue = .ok () ∧ q.hasDuplicate dispatch = false ∧
      (m.get? dispatch.dispatchId).isSome = true ∧
      ∃ e q', enqueue driver dispatch q = (Outcome.fail e, q') ∧ Holds driver q' m epoch) ∨
    (dispatch.validateForEnqueue = .ok () ∧ q.hasDuplicate dispatch = false ∧
      m.get? dispatch.dispatchId = none ∧
      ∃ q', enqueue driver dispatch q = (.ok (), q') ∧
        Holds driver q' (m.insert dispatch.dispatchId
          (dispatch.prepareForEnqueue (epoch dispatch.threadId))) epoch) := by
  unfold enqueue
  cases hv : dispatch.validateForEnqueue with
  | error e => exact .inl ⟨e, rfl, rfl⟩
  | ok u =>
    right
    dsimp only
    obtain ⟨hvalid, hqueued⟩ := RunDispatch.validateForEnqueue_ok.mp hv
    cases hdup : q.hasDuplicate dispatch with
    | true => exact .inl ⟨rfl, rfl, _, rfl⟩
    | false =>
      right
      have hcreated := h.createEpochRow dispatch.threadId
      have hcell : (q.threadDispatchEpochs.orInsert dispatch.threadId (.integer 0)).get?
          dispatch.threadId = some (.integer (epoch dispatch.threadId).toInt64) := by
        rcases hcreated.epochCell dispatch.threadId with ⟨hnone, -⟩ | hsome
        · simp [AssocMap.get?_orInsert] at hnone
        · exact hsome
      simp only [Bool.false_eq_true, if_false, hcell, Option.elim_some, SqlNumber.get, mapErr,
        h.keys]
      cases hd : m.get? dispatch.dispatchId with
      | some d =>
        have hmem := AssocMap.mem_keys.mpr ⟨d, hd⟩
        rw [if_pos hmem]
        exact .inl ⟨trivial, trivial, rfl, _, _, rfl, hcreated⟩
      | none =>
        rw [if_neg (AssocMap.get?_eq_none.mp hd)]
        refine .inr ⟨trivial, trivial, rfl, _, rfl, ?_, fun k d' hd' => ?_, fun k d' hd' => ?_,
          hcreated.epochs⟩
        · rw [h.rows, insertedRow_eq dispatch hvalid hqueued]
          exact AssocMap.insert_mapValues _ _ hd
        all_goals
          rw [AssocMap.get?_insert] at hd'
          split at hd'
        · rename_i hk
          cases hd'
          exact hk.symm
        · exact h.keyed k d' hd'
        · cases hd'
          exact RunDispatch.prepareForEnqueue_valid hvalid _
        · exact h.valid k d' hd'

/-! ## Claim -/

theorem sqlLimit_map {α β : Type} (f : α → β) (limit : Int64) (l : List α) :
    sqlLimit limit (l.map f) = (sqlLimit limit l).map f := by
  unfold sqlLimit
  split
  · rfl
  · rw [List.map_take]

theorem sqlOffset_map {α β : Type} (f : α → β) (offset : Int64) (l : List α) :
    sqlOffset offset (l.map f) = (sqlOffset offset l).map f := by
  unfold sqlOffset
  split
  · rfl
  · rw [List.map_drop]

theorem sqlLimit_sublist {α : Type} (limit : Int64) (l : List α) :
    (sqlLimit limit l).Sublist l := by
  unfold sqlLimit
  split
  · exact List.Sublist.refl l
  · exact List.take_sublist _ l

theorem sqlOffset_sublist {α : Type} (offset : Int64) (l : List α) :
    (sqlOffset offset l).Sublist l := by
  unfold sqlOffset
  split
  · exact List.Sublist.refl l
  · exact List.drop_sublist _ l

/-- Queue order of the rows, as an order of the dispatches they hold. -/
def queueRowLe (driver : SqliteDriver) (a b : RunDispatch) : Prop :=
  queueLe (ofDispatch driver a) (ofDispatch driver b)

instance : DecidableRel (queueRowLe driver) := fun a b =>
  inferInstanceAs (Decidable (queueLe (ofDispatch driver a) (ofDispatch driver b)))

/-- Sorting rows is sorting the dispatches they hold. -/
theorem insertionSort_rows (ds : List RunDispatch) :
    (ds.map (ofDispatch driver)).insertionSort queueLe =
      (ds.insertionSort (queueRowLe driver)).map (ofDispatch driver) :=
  (List.map_insertionSort (queueRowLe driver) queueLe _ ds fun _ _ _ _ => Iff.rfl).symm

/-- The dispatches a claim finds, in queue order. -/
def eligibleRows (driver : SqliteDriver) (m : AssocMap String RunDispatch) (threadId : String)
    (now limit : UInt64) : List RunDispatch :=
  sqlLimit limit.toInt64 ((m.values.filter fun d =>
    d.threadId == threadId && statusToStr d.status == "Queued"
      && decide (d.availableAt.toInt64 ≤ now.toInt64)).insertionSort (queueRowLe driver))

theorem Holds.eligibleIds (h : Holds driver q m epoch) (threadId : String) (now limit : UInt64) :
    q.eligibleIds threadId now limit =
      (eligibleRows driver m threadId now limit).map RunDispatch.dispatchId := by
  rw [SqliteMailboxStore.eligibleIds, h.selectWhere]
  rw [insertionSort_rows, sqlLimit_map, List.map_map]
  rfl

/-- The stored dispatches have the ids they are stored under. -/
theorem Holds.ids (h : Holds driver q m epoch) : m.values.map RunDispatch.dispatchId = m.keys := by
  rw [AssocMap.values, AssocMap.keys, List.map_map]
  refine List.map_congr_left fun e he => ?_
  exact h.keyed e.1 e.2 (AssocMap.get?_eq_some.mpr he)

theorem mem_eligibleRows {threadId : String} {now limit : UInt64} {d : RunDispatch}
    (hd : d ∈ eligibleRows driver m threadId now limit) :
    d ∈ m.values ∧ d.threadId = threadId ∧ d.status = .queued := by
  have hmem := (List.mem_insertionSort (queueRowLe driver)).mp ((sqlLimit_sublist _ _).subset hd)
  obtain ⟨hvalues, hcond⟩ := List.mem_filter.mp hmem
  simp only [Bool.and_eq_true, beq_iff_eq] at hcond
  exact ⟨hvalues, hcond.1.1, statusToStr_injective hcond.1.2⟩

theorem Holds.nodup_eligibleRows (h : Holds driver q m epoch) (threadId : String)
    (now limit : UInt64) :
    ((eligibleRows driver m threadId now limit).map RunDispatch.dispatchId).Nodup := by
  refine List.Nodup.sublist ((sqlLimit_sublist _ _).map _) ?_
  refine ((List.perm_insertionSort _ _).map _).nodup_iff.mpr ?_
  refine List.Nodup.sublist (List.filter_sublist.map _) ?_
  rw [h.ids]
  exact m.nodup_keys

/-- All that claiming the selected dispatches can do. -/
theorem Holds.claimAll_cases (h : Holds driver q m epoch) {ids : List String} (hnd : ids.Nodup)
    (hids : ∀ id ∈ ids, ∃ d, m.get? id = some d ∧ d.status = .queued) {consumerId : String}
    (hconsumer : Str.isBlank consumerId = false) (leaseMs now : UInt64) (token : Uuid) :
    (ids = [] ∧ claimAll driver consumerId leaseMs now token ids q = (.ok [], q)) ∨
    (ids ≠ [] ∧ ∃ f, Outcome.addU64 now leaseMs = .error f ∧
      claimAll driver consumerId leaseMs now token ids q = (.error f, q)) ∨
    (ids ≠ [] ∧ ∃ leaseUntil ds q', Outcome.addU64 now leaseMs = .ok leaseUntil ∧
      claimAll driver consumerId leaseMs now token ids q = (.ok ds, q') ∧
      Holds driver q' (m.mapValues fun k d =>
        if k ∈ ids then d.writeClaimed consumerId token.text leaseUntil now else d) epoch) := by
  unfold claimAll
  cases hids' : ids with
  | nil => exact .inl ⟨rfl, rfl⟩
  | cons id rest =>
    right
    rw [← hids']
    have hne : ids ≠ [] := by simp [hids']
    rw [if_neg (by simpa using hne)]
    cases hadd : Outcome.addU64 now leaseMs with
    | error f => exact .inl ⟨hne, f, rfl, rfl⟩
    | ok leaseUntil =>
      right
      have hholds := h.updateAll hnd
        (setClaimed token.text consumerId leaseUntil now)
        (RunDispatch.writeClaimed consumerId token.text leaseUntil now)
        (fun d => setClaimed_ofDispatch d _ _ _ _) (fun _ => rfl) fun id hid => by
          obtain ⟨d, hd, -⟩ := hids id hid
          exact ⟨d, hd, RunDispatch.writeClaimed_valid (h.valid _ _ hd) hconsumer
            token.notBlank _ _⟩
      have hreload := hholds.reloadRows "claim reload" ids fun id hid => by
        obtain ⟨d, hd, -⟩ := hids id hid
        rw [AssocMap.get?_mapValues, hd]
        exact ⟨_, rfl⟩
      exact ⟨hne, leaseUntil, _, _, rfl, Prod.ext hreload rfl, hholds⟩

/-- The dispatches after the queued ones behind the thread's epoch are superseded. -/
def staleSuperseded (m : AssocMap String RunDispatch) (threadId : String) (currentEpoch : UInt64)
    (now : UInt64) : AssocMap String RunDispatch :=
  m.mapValues fun _ d =>
    if d.threadId == threadId && statusToStr d.status == "Queued"
        && decide (d.dispatchEpoch.toInt64 < currentEpoch.toInt64) then
      d.sqlSuperseded currentEpoch MailboxState.reasonQueuedSupersededByEpoch now
    else d

/-- A claim supersedes what is stale, and claims only when the thread is idle. -/
theorem Holds.claim_cases (h : Holds driver q m epoch) (threadId consumerId : String)
    (leaseMs now limit : UInt64) (token : Uuid) :
    ∃ q₁ m₁, m₁ = staleSuperseded m threadId (epoch threadId) now ∧ Holds driver q₁ m₁ epoch ∧
      ((m₁.values.any (fun d => d.threadId == threadId && d.status == .claimed) = true ∧
          claim driver threadId consumerId leaseMs now limit token q = (.ok [], q₁)) ∨
        (m₁.values.any (fun d => d.threadId == threadId && d.status == .claimed) = false ∧
          claim driver threadId consumerId leaseMs now limit token q =
            claimAll driver consumerId leaseMs now token
              ((eligibleRows driver m₁ threadId now limit).map RunDispatch.dispatchId) q₁)) := by
  obtain ⟨q₁, hcall, hholds⟩ := h.supersedeStaleQueued threadId now
  refine ⟨q₁, _, rfl, hholds, ?_⟩
  have hclaimed : q₁.hasClaimed threadId =
      (staleSuperseded m threadId (epoch threadId) now).values.any fun d =>
        d.threadId == threadId && d.status == .claimed := by
    rw [hasClaimed, hholds.any_values]
    congr 1
    funext d
    cases hs : d.status <;> simp [ofDispatch, hs, statusToStr]
  rw [← hclaimed]
  unfold claim Method.bind
  rw [hcall]
  dsimp only
  rw [hholds.eligibleIds]
  cases q₁.hasClaimed threadId with
  | true => exact .inl ⟨rfl, rfl⟩
  | false => exact .inr ⟨rfl, rfl⟩

/-- Whether another dispatch of the thread is claimed. -/
theorem Holds.hasOtherClaimed (h : Holds driver q m epoch) (threadId dispatchId : String) :
    q.hasOtherClaimed threadId dispatchId = m.values.any fun d =>
      d.threadId == threadId && d.dispatchId != dispatchId && d.status == .claimed := by
  rw [SqliteMailboxStore.hasOtherClaimed, h.any_values]
  congr 1
  funext d
  cases hs : d.status <;> simp [ofDispatch, hs, statusToStr]

/-- All that claiming one dispatch can do. -/
theorem Holds.claimDispatch_cases (h : Holds driver q m epoch) (dispatchId : String)
    {consumerId : String} (hconsumer : Str.isBlank consumerId = false) (leaseMs now : UInt64)
    (token : Uuid) :
    (m.get? dispatchId = none ∧
      claimDispatch driver dispatchId consumerId leaseMs now token q = (.ok none, q)) ∨
    ∃ d, m.get? dispatchId = some d ∧
      ((d.status ≠ .queued ∧
          claimDispatch driver dispatchId consumerId leaseMs now token q = (.ok none, q)) ∨
        (d.status = .queued ∧ d.dispatchEpoch < epoch d.threadId ∧
          ∃ q', claimDispatch driver dispatchId consumerId leaseMs now token q = (.ok none, q') ∧
            Holds driver q' (m.modify dispatchId fun _ => d.sqlSuperseded (epoch d.threadId)
              MailboxState.reasonQueuedSupersededByEpoch now) epoch) ∨
        (d.status = .queued ∧ ¬d.dispatchEpoch < epoch d.threadId ∧
          q.hasOtherClaimed d.threadId dispatchId = true ∧
          claimDispatch driver dispatchId consumerId leaseMs now token q = (.ok none, q)) ∨
        (d.status = .queued ∧ ¬d.dispatchEpoch < epoch d.threadId ∧
          q.hasOtherClaimed d.threadId dispatchId = false ∧
          ∃ f, Outcome.addU64 now leaseMs = .error f ∧
            claimDispatch driver dispatchId consumerId leaseMs now token q = (.error f, q)) ∨
        (d.status = .queued ∧ ¬d.dispatchEpoch < epoch d.threadId ∧
          q.hasOtherClaimed d.threadId dispatchId = false ∧
          ∃ leaseUntil q', Outcome.addU64 now leaseMs = .ok leaseUntil ∧
            claimDispatch driver dispatchId consumerId leaseMs now token q =
              (.ok (some (d.writeClaimed consumerId token.text leaseUntil now)), q') ∧
            Holds driver q' (m.modify dispatchId fun _ =>
              d.writeClaimed consumerId token.text leaseUntil now) epoch)) := by
  unfold claimDispatch
  rw [h.loadRow]
  cases hd : m.get? dispatchId with
  | none => exact .inl ⟨rfl, rfl⟩
  | some d =>
    refine .inr ⟨d, rfl, ?_⟩
    dsimp only
    by_cases hs : d.status = .queued
    · right
      rw [if_neg (not_not.mpr hs), h.epochs]
      dsimp only
      by_cases hstale : d.dispatchEpoch < epoch d.threadId
      · rw [if_pos hstale]
        have hqueued : ((ofDispatch driver d).status == "Queued") = true := by
          simp [ofDispatch, hs, statusToStr]
        refine .inl ⟨hs, hstale, _, rfl, h.updateById hd _ _ ?_ rfl
          (RunDispatch.sqlSuperseded_valid (h.valid _ _ hd).identified _ _ _)⟩
        rw [if_pos hqueued, setSupersededAtEpoch_ofDispatch]
      · right
        rw [if_neg hstale]
        cases hother : q.hasOtherClaimed d.threadId dispatchId with
        | true => exact .inl ⟨hs, hstale, rfl, rfl⟩
        | false =>
          right
          rw [if_neg Bool.false_ne_true]
          cases hadd : Outcome.addU64 now leaseMs with
          | error f => exact .inl ⟨hs, hstale, rfl, f, rfl, rfl⟩
          | ok leaseUntil =>
            right
            have hput := h.updateById hd _ _
              (setClaimed_ofDispatch d token.text consumerId leaseUntil now) rfl
              (RunDispatch.writeClaimed_valid (h.valid _ _ hd) hconsumer token.notBlank _ _)
            have hreload := hput.reloadRow "claim_dispatch reload" dispatchId
              (by rw [AssocMap.get?_modify_self, hd, Option.map_some])
            refine ⟨hs, hstale, rfl, leaseUntil, _, rfl, ?_, hput⟩
            dsimp only
            rw [hreload]
            rfl
    · rw [if_pos hs]
      exact .inl ⟨hs, rfl⟩

/-! ## Cancel and supersede -/

/-- All that a cancellation can do. -/
theorem Holds.cancel_cases (h : Holds driver q m epoch) (dispatchId : String) (now : UInt64) :
    (m.get? dispatchId = none ∧ cancel driver dispatchId now q = (.ok none, q)) ∨
    ∃ d, m.get? dispatchId = some d ∧
      ((d.status ≠ .queued ∧ cancel driver dispatchId now q = (.ok none, q)) ∨
        (d.status = .queued ∧
          ∃ q', cancel driver dispatchId now q = (.ok (some (d.writeCancelled now)), q') ∧
            Holds driver q' (m.modify dispatchId fun _ => d.writeCancelled now) epoch)) := by
  unfold cancel
  rw [h.loadRow]
  cases hd : m.get? dispatchId with
  | none => exact .inl ⟨rfl, rfl⟩
  | some d =>
    refine .inr ⟨d, rfl, ?_⟩
    dsimp only
    by_cases hs : d.status = .queued
    · rw [if_neg (not_not.mpr hs)]
      have hput := h.updateById hd _ _ (setCancelled_ofDispatch d now) rfl
        (RunDispatch.writeCancelled_valid (h.valid _ _ hd).identified _)
      have hreload := hput.reloadRow "cancel reload" dispatchId
        (by rw [AssocMap.get?_modify_self, hd, Option.map_some])
      refine .inr ⟨hs, _, ?_, hput⟩
      rw [hreload]
      rfl
    · rw [if_pos hs]
      exact .inl ⟨hs, rfl⟩

/-- All that superseding a claimed dispatch can do. -/
theorem Holds.supersedeClaimed_cases (h : Holds driver q m epoch) (dispatchId claimToken : String)
    (now : UInt64) (reason : String) :
    (m.get? dispatchId = none ∧
      supersedeClaimed driver dispatchId claimToken now reason q = (.ok none, q)) ∨
    ∃ d, m.get? dispatchId = some d ∧
      ((d.status ≠ .claimed ∧
          supersedeClaimed driver dispatchId claimToken now reason q = (.ok none, q)) ∨
        (d.status = .claimed ∧ d.claimToken ≠ some claimToken ∧
          supersedeClaimed driver dispatchId claimToken now reason q =
            (Outcome.fail (.versionConflict 0 1), q)) ∨
        (d.status = .claimed ∧ d.claimToken = some claimToken ∧
          ∃ q', supersedeClaimed driver dispatchId claimToken now reason q =
              (.ok (some (d.sqlSuperseded (max d.dispatchEpoch (epoch d.threadId)) reason now)),
                q') ∧
            Holds driver q' (m.modify dispatchId fun _ =>
              d.sqlSuperseded (max d.dispatchEpoch (epoch d.threadId)) reason now) epoch)) := by
  unfold supersedeClaimed
  rw [h.loadRow]
  cases hd : m.get? dispatchId with
  | none => exact .inl ⟨rfl, rfl⟩
  | some d =>
    refine .inr ⟨d, rfl, ?_⟩
    dsimp only
    by_cases hs : d.status = .claimed
    · right
      by_cases htoken : d.claimToken = some claimToken
      · right
        have hkey := h.keyed _ _ hd
        obtain ⟨q', hcall, hholds⟩ := h.supersedeClaimedLoaded (by rwa [hkey]) hs htoken now reason
        rw [hkey] at hholds
        exact ⟨hs, htoken, q', hcall, hholds⟩
      · refine .inl ⟨hs, htoken, ?_⟩
        unfold SqliteMailboxStore.supersedeClaimedLoaded
        rw [if_neg (not_not.mpr hs), if_pos htoken]
    · refine .inl ⟨hs, ?_⟩
      unfold SqliteMailboxStore.supersedeClaimedLoaded
      rw [if_pos hs]

/-! ## Interrupt -/

/-- The epochs after one thread's epoch was bumped. -/
def bumped (epoch : String → UInt64) (threadId : String) (t : String) : UInt64 :=
  if t = threadId then epoch t + 1 else epoch t

/-- A bumped epoch that has room is stored as an integer. -/
theorem Holds.bumpEpoch_get? (h : Holds driver q m epoch) {threadId : String}
    (hroom : epoch threadId ≠ 0x7FFFFFFFFFFFFFFF) :
    (q.bumpEpoch threadId).threadDispatchEpochs.get? threadId =
      some (.integer (epoch threadId + 1).toInt64) := by
  unfold bumpEpoch
  rcases h.epochCell threadId with ⟨hnone, hzero⟩ | hsome
  · rw [hnone, hzero]
    simp only [AssocMap.get?_insert_self]
    rfl
  · rw [hsome]
    simp only [AssocMap.get?_modify_self, hsome, Option.map_some, SqlNumber.succ]
    have hne : (epoch threadId).toInt64 ≠ Int64.maxValue := fun heq =>
      hroom (congrArg Int64.toUInt64 heq)
    rw [if_neg hne]
    rfl

/-- Bumping an epoch leaves the dispatches alone. -/
theorem Holds.bumpEpoch (h : Holds driver q m epoch) {threadId : String}
    (hroom : epoch threadId ≠ 0x7FFFFFFFFFFFFFFF) :
    Holds driver (q.bumpEpoch threadId) m (bumped epoch threadId) := by
  refine ⟨h.rows, h.keyed, h.valid, fun t => ?_⟩
  unfold bumped
  by_cases ht : t = threadId
  · subst ht
    unfold currentEpochForConn
    rw [h.bumpEpoch_get? hroom, if_pos rfl]
    rfl
  · rw [if_neg ht, ← h.epochs t]
    have hsame : (q.bumpEpoch threadId).threadDispatchEpochs.get? t =
        q.threadDispatchEpochs.get? t := by
      unfold SqliteMailboxStore.bumpEpoch
      cases q.threadDispatchEpochs.get? threadId with
      | none => exact AssocMap.get?_insert_of_ne _ _ ht
      | some cell => exact AssocMap.get?_modify_of_ne _ _ ht
    unfold currentEpochForConn
    rw [hsame]

/-- The dispatches after an interrupt of a thread. -/
def interrupted (m : AssocMap String RunDispatch) (threadId : String) (newEpoch now : UInt64) :
    AssocMap String RunDispatch :=
  m.mapValues fun _ d =>
    if d.threadId == threadId && statusToStr d.status == "Queued"
        && decide (d.dispatchEpoch.toInt64 < newEpoch.toInt64) then
      d.sqlSuperseded d.dispatchEpoch MailboxState.reasonQueuedSupersededByInterrupt now
    else d

/-- An interrupt of a thread whose epoch has room succeeds. -/
theorem Holds.interruptDetailed (h : Holds driver q m epoch) {threadId : String}
    (hroom : epoch threadId ≠ 0x7FFFFFFFFFFFFFFF) (now : UInt64) :
    ∃ details q', SqliteMailboxStore.interruptDetailed driver threadId now q = (.ok details, q') ∧
      Holds driver q' (interrupted m threadId (epoch threadId + 1) now) (bumped epoch threadId) := by
  have hbumped := h.bumpEpoch hroom
  unfold SqliteMailboxStore.interruptDetailed
  simp only [h.bumpEpoch_get? hroom, Option.elim_some, SqlNumber.get, mapErr]
  rw [hbumped.selectWhere, hbumped.decodeRows _ fun d hd => List.mem_of_mem_filter hd]
  dsimp only
  have hupdated := hbumped.updateWhere
    (fun row => row.threadId == threadId && row.status == "Queued"
      && decide (row.dispatchEpoch < (epoch threadId + 1).toInt64))
    (setInterrupted MailboxState.reasonQueuedSupersededByInterrupt now)
    (fun d => d.sqlSuperseded d.dispatchEpoch MailboxState.reasonQueuedSupersededByInterrupt now)
    (fun _ => rfl) (fun _ => rfl) fun k d hd _ =>
      RunDispatch.sqlSuperseded_valid (h.valid k d hd).identified _ _ _
  -- the reported records are marked the way the rows were updated
  have hreport : ∀ d ∈ m.values.filter (fun d => (ofDispatch driver d).threadId == threadId
      && (ofDispatch driver d).status == "Queued"
      && decide ((ofDispatch driver d).dispatchEpoch < (epoch threadId + 1).toInt64)),
      ∃ d', reportSuperseded now d = .ok d' := by
    intro d hd
    obtain ⟨hmem, hcond⟩ := List.mem_filter.mp hd
    simp only [Bool.and_eq_true, beq_iff_eq] at hcond
    have hs : d.status = .queued := statusToStr_injective hcond.1.2
    have hvalid := RunDispatch.writeSuperseded_valid (h.valid_of_mem hmem).identified now
      (some MailboxState.reasonQueuedSupersededByInterrupt)
    refine ⟨d.writeSuperseded now (some MailboxState.reasonQueuedSupersededByInterrupt), ?_⟩
    unfold reportSuperseded MailboxState.markSuperseded RunDispatch.markSuperseded
    rw [InMemoryMailboxStore.expecting_transition_ok _ _ hs hvalid]
    rfl
  obtain ⟨reports, hreports⟩ := mapM_returns hreport
  obtain ⟨active, hactive⟩ := hupdated.selectFirst fun row =>
    row.threadId == threadId && row.status == "Claimed"
  rw [hreports, hactive]
  exact ⟨_, _, rfl, hupdated⟩

end Remo.SqliteMailboxStore
