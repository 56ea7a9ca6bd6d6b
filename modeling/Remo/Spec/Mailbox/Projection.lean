import Remo.Spec.Mailbox.Coherent

/-!
# A part of the store

`s.only p` is the store with only the records whose keys satisfy `p`. When the
dispatches of such a key are exactly those of such a thread, a call on keys that
satisfy `p` does to the part what it does to the whole store, and a call on other
keys leaves the part alone.
-/

namespace Remo.InMemoryMailboxStore

variable {s : InMemoryMailboxStore} {p : String → Bool}

/-- The part of the store under the keys that satisfy `p`. -/
def only (s : InMemoryMailboxStore) (p : String → Bool) : InMemoryMailboxStore where
  dispatches := s.dispatches.retain fun k _ => p k
  state := s.state.retain fun threadId _ => p threadId

/-- Records stand under their own ids, and a dispatch is in the part exactly when
    its thread is. -/
structure Partitioned (p : String → Bool) (s : InMemoryMailboxStore) : Prop where
  keyed : ∀ k d, s.dispatches.get? k = some d → d.dispatchId = k
  thread : ∀ k d, s.dispatches.get? k = some d → p d.threadId = p k

/-! ## Reading the part -/

theorem only_get? (s : InMemoryMailboxStore) (p : String → Bool) (k : String) :
    (s.only p).dispatches.get? k = if p k then s.dispatches.get? k else none :=
  AssocMap.get?_retain_keys _ p k

theorem only_get?_of_pos {k : String} (hk : p k = true) :
    (s.only p).dispatches.get? k = s.dispatches.get? k := by
  rw [only_get?, if_pos hk]

theorem only_currentEpoch {threadId : String} (h : p threadId = true) :
    (s.only p).currentEpoch threadId = s.currentEpoch threadId := by
  unfold currentEpoch
  rw [only, AssocMap.get?_retain_keys, if_pos h]

theorem only_keys : (s.only p).dispatches.keys = s.dispatches.keys.filter p := by
  simp only [only, AssocMap.retain, AssocMap.keys, List.filter_map, Function.comp_def]

/-- A selection of dispatches that all lie in the part is the same there. -/
theorem only_filter_entries (q : RunDispatch → Bool)
    (hq : ∀ k d, s.dispatches.get? k = some d → q d = true → p k = true) :
    ((s.only p).dispatches.entries.filter fun e => q e.2) =
      s.dispatches.entries.filter fun e => q e.2 := by
  simp only [only, AssocMap.retain, List.filter_filter]
  refine List.filter_congr fun e he => ?_
  cases hcase : q e.2 with
  | true => simp [hq e.1 e.2 (AssocMap.get?_eq_some.mpr he) hcase]
  | false => rfl

theorem only_filter_values (q : RunDispatch → Bool)
    (hq : ∀ k d, s.dispatches.get? k = some d → q d = true → p k = true) :
    (s.only p).dispatches.values.filter q = s.dispatches.values.filter q := by
  have hentries := congrArg (List.map Prod.snd) (only_filter_entries q hq)
  simpa only [AssocMap.values, List.filter_map, Function.comp_def] using hentries

/-- A selection of dispatches, restricted to the part. -/
theorem only_filter (h : s.Partitioned p) (q : RunDispatch → Bool) :
    (s.only p).dispatches.values.filter q =
      (s.dispatches.values.filter q).filter fun d => p d.dispatchId := by
  unfold AssocMap.values only AssocMap.retain
  simp only [List.filter_map, List.filter_filter]
  congr 1
  refine List.filter_congr fun e he => ?_
  have hkey := h.keyed e.1 e.2 (AssocMap.get?_eq_some.mpr he)
  simp only [Function.comp_apply, hkey, Bool.and_comm]

theorem only_any_values (q : RunDispatch → Bool)
    (hq : ∀ k d, s.dispatches.get? k = some d → q d = true → p k = true) :
    (s.only p).dispatches.values.any q = s.dispatches.values.any q := by
  rw [Bool.eq_iff_iff, AssocMap.any_values, AssocMap.any_values]
  constructor
  · rintro ⟨k, d, hd, hqd⟩
    rw [only_get?] at hd
    split at hd
    · exact ⟨k, d, hd, hqd⟩
    · cases hd
  · rintro ⟨k, d, hd, hqd⟩
    exact ⟨k, d, by rw [only_get?_of_pos (hq k d hd hqd), hd], hqd⟩

/-- The dispatches of a thread of the part lie in the part. -/
theorem Partitioned.mem_of_thread (h : s.Partitioned p) {threadId k : String} {d : RunDispatch}
    (hthread : p threadId = true) (hd : s.dispatches.get? k = some d)
    (hsame : d.threadId = threadId) : p k = true := by
  rw [← h.thread k d hd, hsame, hthread]

theorem only_hasDuplicate (h : s.Partitioned p) {d : RunDispatch} (hthread : p d.threadId = true) :
    (s.only p).hasDuplicate d = s.hasDuplicate d := by
  unfold hasDuplicate
  split
  · rfl
  · refine only_any_values _ fun k j hj hq => ?_
    simp only [Bool.and_eq_true, beq_iff_eq] at hq
    exact h.mem_of_thread hthread hj hq.1.1

theorem only_hasClaimed (h : s.Partitioned p) {threadId : String} (hthread : p threadId = true) :
    (s.only p).hasClaimed threadId = s.hasClaimed threadId := by
  refine only_any_values _ fun k j hj hq => ?_
  simp only [Bool.and_eq_true, beq_iff_eq] at hq
  exact h.mem_of_thread hthread hj hq.1

theorem only_hasOtherClaimed (h : s.Partitioned p) {threadId : String} (hthread : p threadId = true)
    (dispatchId : String) :
    (s.only p).hasOtherClaimed threadId dispatchId = s.hasOtherClaimed threadId dispatchId := by
  refine only_any_values _ fun k j hj hq => ?_
  simp only [Bool.and_eq_true, beq_iff_eq] at hq
  exact h.mem_of_thread hthread hj hq.1.1

theorem only_eligibleIds (h : s.Partitioned p) {threadId : String} (hthread : p threadId = true)
    (now limit : UInt64) :
    (s.only p).eligibleIds threadId now limit = s.eligibleIds threadId now limit := by
  unfold eligibleIds
  rw [only_filter_entries (eligible threadId now) fun k j hj hq => ?_]
  simp only [eligible, Bool.and_eq_true, beq_iff_eq] at hq
  exact h.mem_of_thread hthread hj hq.1.1

theorem only_queueOrder (h : s.Partitioned p) {threadId : String} (hthread : p threadId = true)
    (statusFilter : Option (List RunDispatchStatus)) :
    (s.only p).queueOrder threadId statusFilter = s.queueOrder threadId statusFilter := by
  unfold queueOrder
  rw [only_filter_values _ fun k j hj hq => ?_]
  simp only [Bool.and_eq_true, beq_iff_eq] at hq
  exact h.mem_of_thread hthread hj hq.1

/-! ## Calls on the part -/

/-- The method does to the part what it does to the whole store, and answers the same. -/
def OnPart {α : Type} (p : String → Bool) (m : Method Fault InMemoryMailboxStore α)
    (s : InMemoryMailboxStore) : Prop :=
  m (s.only p) = ((m s).1, (m s).2.only p)

/-- The method leaves the part alone. -/
def SparesPart {α : Type} (p : String → Bool) (m : Method Fault InMemoryMailboxStore α)
    (s : InMemoryMailboxStore) : Prop :=
  (m s).2.only p = s.only p

theorem OnPart.map {α β : Type} {m : Method Fault InMemoryMailboxStore α} (h : OnPart p m s)
    (f : α → β) : OnPart p (Method.map f m) s := by
  unfold OnPart Method.map at *
  rw [h]

theorem SparesPart.map {α β : Type} {m : Method Fault InMemoryMailboxStore α}
    (h : SparesPart p m s) (f : α → β) : SparesPart p (Method.map f m) s := h

theorem OnPart.bind {α β : Type} {m : Method Fault InMemoryMailboxStore α}
    {f : α → Method Fault InMemoryMailboxStore β} (hm : OnPart p m s)
    (hf : ∀ a s', m s = (.ok a, s') → OnPart p (f a) s') : OnPart p (Method.bind m f) s := by
  unfold OnPart Method.bind at *
  rw [hm]
  rcases hr : m s with ⟨_ | a, s'⟩
  · rfl
  · exact hf a s' hr

theorem SparesPart.bind {α β : Type} {m : Method Fault InMemoryMailboxStore α}
    {f : α → Method Fault InMemoryMailboxStore β} (hm : SparesPart p m s)
    (hf : ∀ a s', m s = (.ok a, s') → SparesPart p (f a) s') :
    SparesPart p (Method.bind m f) s := by
  unfold SparesPart Method.bind at *
  rcases hr : m s with ⟨_ | a, s'⟩
  · rw [hr] at hm
    exact hm
  · rw [hr] at hm
    exact (hf a s' hr).trans hm

theorem withDispatch_onPart {α : Type} {dispatchId : String} (hid : p dispatchId = true)
    {missing : Outcome α} {f : InMemoryMailboxStore → Method Fault RunDispatch α}
    (hf : ∀ d, s.dispatches.get? dispatchId = some d → f (s.only p) d = f s d) :
    OnPart p (withDispatch dispatchId missing f) s := by
  unfold OnPart withDispatch
  rw [only_get?_of_pos hid]
  cases hd : s.dispatches.get? dispatchId with
  | none => rfl
  | some d =>
    simp only [hf d hd]
    simp only [only, AssocMap.retain_modify]

theorem withDispatch_sparesPart {α : Type} {dispatchId : String} {missing : Outcome α}
    {f : InMemoryMailboxStore → Method Fault RunDispatch α}
    (h : p dispatchId = false ∨ ∀ d, s.dispatches.get? dispatchId = some d → (f s d).2 = d) :
    SparesPart p (withDispatch dispatchId missing f) s := by
  unfold SparesPart withDispatch
  cases hd : s.dispatches.get? dispatchId with
  | none => rfl
  | some d =>
    rcases h with hid | hsame
    · simp only [only, AssocMap.retain_modify_of_neg _ _ hid]
    · simp only [hsame d hd, AssocMap.modify_get? hd]

/-- What a call changes of a record keeps the store partitioned. -/
theorem withDispatch_partitioned {α : Type} (h : s.Partitioned p) {dispatchId : String}
    {missing : Outcome α} {f : InMemoryMailboxStore → Method Fault RunDispatch α}
    (hf : ∀ d, s.dispatches.get? dispatchId = some d →
      (f s d).2.dispatchId = d.dispatchId ∧ (f s d).2.threadId = d.threadId) :
    (withDispatch dispatchId missing f s).2.Partitioned p := by
  have hget : ∀ k d', (withDispatch dispatchId missing f s).2.dispatches.get? k = some d' →
      ∃ d, s.dispatches.get? k = some d ∧ d'.dispatchId = d.dispatchId ∧
        d'.threadId = d.threadId := by
    intro k d' hd'
    rw [withDispatch_get?] at hd'
    split at hd'
    · rename_i hk
      obtain ⟨d, hd, rfl⟩ := Option.map_eq_some_iff.mp hd'
      exact ⟨d, hk ▸ hd, hf d hd⟩
    · exact ⟨d', hd', rfl, rfl⟩
  refine ⟨fun k d' hd' => ?_, fun k d' hd' => ?_⟩
  · obtain ⟨d, hd, hid, -⟩ := hget k d' hd'
    rw [hid, h.keyed k d hd]
  · obtain ⟨d, hd, -, hthread⟩ := hget k d' hd'
    rw [hthread, h.thread k d hd]

/-- A loop over dispatch ids, seen on the part: the passes for ids outside it return
    and add nothing to what is collected. -/
theorem forEach_onPart {α β : Type} (missing : String → Outcome α)
    {f : String → InMemoryMailboxStore → Method Fault RunDispatch α} {g : α → Option β}
    (K : InMemoryMailboxStore → Prop) (hK : ∀ i s, K s → K (withDispatch i (missing i) (f i) s).2)
    {ids : List String} (hnd : ids.Nodup) (hs : K s)
    (hin : ∀ i ∈ ids, p i = true → ∀ s₁, K s₁ → ∀ d, s₁.dispatches.get? i = some d →
      f i (s₁.only p) d = f i s₁ d)
    (hout : ∀ i ∈ ids, p i = false → ∀ s₁, K s₁ → s₁.dispatches.get? i = s.dispatches.get? i →
      ∃ b, (withDispatch i (missing i) (f i) s₁).1 = .ok b ∧ g b = none) :
    Method.map (List.filterMap g)
        (Method.forEach (fun id => withDispatch id (missing id) (f id)) (ids.filter p)) (s.only p) =
      ((Method.map (List.filterMap g)
          (Method.forEach (fun id => withDispatch id (missing id) (f id)) ids) s).1,
        (Method.map (List.filterMap g)
          (Method.forEach (fun id => withDispatch id (missing id) (f id)) ids) s).2.only p) := by
  refine Method.forEach_filter (fun s k => s.dispatches.get? k) _
    (fun i j s hj => by rw [withDispatch_get?, if_neg hj]) K hK (fun s => s.only p) p g ids hnd s hs
    (fun i hi hp s₁ hs₁ _ => withDispatch_onPart hp (hin i hi hp s₁ hs₁))
    fun i hi hp s₁ hs₁ hview => ?_
  obtain ⟨b, hb, hg⟩ := hout i hi hp s₁ hs₁ hview
  exact ⟨b, hb, hg, withDispatch_sparesPart (.inl hp)⟩

/-! ## Enqueues -/

theorem enqueue_onPart (h : s.Partitioned p) {d : RunDispatch} (hid : p d.dispatchId = true)
    (hthread : p d.threadId = true) : OnPart p (enqueue d) s := by
  unfold OnPart enqueue
  rw [only_hasDuplicate h hthread]
  cases d.validateForEnqueue with
  | error e => rfl
  | ok _ =>
    simp only [currentEpoch_orInsert, only_currentEpoch hthread]
    split
    · rfl
    · generalize hd : d.prepareForEnqueue (s.currentEpoch d.threadId) = d'
      have hid' : p d'.dispatchId = true := by rw [← hd]; exact hid
      cases d'.validateForPersist with
      | error e => simp only [only, AssocMap.retain_orInsert (p := p) _ _ hthread]
      | ok _ =>
        simp only [only, AssocMap.retain_orInsert (p := p) _ _ hthread,
          AssocMap.retain_insert (p := p) _ _ hid']

theorem enqueue_sparesPart {d : RunDispatch} (hid : p d.dispatchId = false)
    (hthread : p d.threadId = false) : SparesPart p (enqueue d) s := by
  unfold SparesPart enqueue
  cases d.validateForEnqueue with
  | error e => rfl
  | ok _ =>
    simp only [currentEpoch_orInsert]
    split
    · rfl
    · generalize hd : d.prepareForEnqueue (s.currentEpoch d.threadId) = d'
      have hid' : p d'.dispatchId = false := by rw [← hd]; exact hid
      cases d'.validateForPersist with
      | error e => simp only [only, AssocMap.retain_orInsert_of_neg (p := p) _ _ hthread]
      | ok _ =>
        simp only [only, AssocMap.retain_orInsert_of_neg (p := p) _ _ hthread,
          AssocMap.retain_insert_of_neg (p := p) _ _ hid']

/-! ## Claims -/

theorem supersedeIfStale_identity (threadId : String) (now epoch : UInt64) (d : RunDispatch) :
    (supersedeIfStale threadId now epoch d).2.dispatchId = d.dispatchId ∧
      (supersedeIfStale threadId now epoch d).2.threadId = d.threadId := by
  rw [supersedeIfStale_snd]
  split <;> exact ⟨rfl, rfl⟩

/-- The first loop of `claim` visits records of other threads without effect. -/
theorem supersedeIfStale_of_ne {threadId : String} {d : RunDispatch} (h : d.threadId ≠ threadId)
    (now epoch : UInt64) : supersedeIfStale threadId now epoch d = (.ok (), d) := by
  unfold supersedeIfStale
  simp [h]

theorem supersedeStaleQueued_partitioned (h : s.Partitioned p) (threadId : String)
    (now epoch : UInt64) : (supersedeStaleQueued threadId now epoch s).2.Partitioned p :=
  Method.forEach_invariant (Partitioned p) _ _ (fun _ _ _ hs =>
    withDispatch_partitioned hs fun d _ => supersedeIfStale_identity threadId now epoch d) s h

theorem supersedeStaleQueued_onPart (h : s.Partitioned p) {threadId : String}
    (hthread : p threadId = true) (now epoch : UInt64) :
    OnPart p (Method.map (List.filterMap fun _ => (none : Option Unit))
      (supersedeStaleQueued threadId now epoch)) s := by
  have hloop := forEach_onPart (p := p) (fun _ => .ok ())
    (f := fun _ _ => supersedeIfStale threadId now epoch) (g := fun _ => (none : Option Unit))
    (Partitioned p) (fun i s hs => withDispatch_partitioned hs fun d _ =>
      supersedeIfStale_identity threadId now epoch d)
    s.dispatches.nodup_keys h (fun _ _ _ _ _ _ _ => rfl) fun i _ hi s₁ hs₁ _ => ?_
  · rw [← only_keys] at hloop
    exact hloop
  · cases hd : s₁.dispatches.get? i with
    | none => exact ⟨(), by rw [withDispatch, hd], rfl⟩
    | some d =>
      have hne : d.threadId ≠ threadId := by
        intro hsame
        rw [← hs₁.thread i d hd, hsame, hthread] at hi
        cases hi
      exact ⟨(), by rw [withDispatch_fst _ _ _ hd, supersedeIfStale_of_ne hne], rfl⟩

theorem supersedeStaleQueued_sparesPart (h : s.Partitioned p) {threadId : String}
    (hthread : p threadId = false) (now epoch : UInt64) :
    SparesPart p (supersedeStaleQueued threadId now epoch) s := by
  have hloop := Method.forEach_invariant
    (fun s' => s'.Partitioned p ∧ s'.only p = s.only p)
    (fun id => withDispatch id (.ok ()) fun _ => supersedeIfStale threadId now epoch)
    s.dispatches.keys (fun i _ s₁ hs₁ => ⟨withDispatch_partitioned hs₁.1 fun d _ =>
      supersedeIfStale_identity threadId now epoch d, ?_⟩) s ⟨h, rfl⟩
  · exact hloop.2
  · refine (withDispatch_sparesPart ?_).trans hs₁.2
    cases hi : p i with
    | false => exact .inl rfl
    | true =>
      refine .inr fun d hd => ?_
      have hne : d.threadId ≠ threadId := by
        intro hsame
        rw [← hs₁.1.thread i d hd, hsame, hthread] at hi
        cases hi
      rw [supersedeIfStale_of_ne hne]

theorem claimAll_onPart {ids : List String} (hids : ∀ id ∈ ids, p id = true) (consumerId : String)
    (leaseMs now : UInt64) (token : Uuid) : OnPart p (claimAll consumerId leaseMs now token ids) s := by
  induction ids generalizing s with
  | nil => rfl
  | cons i is ih =>
    refine OnPart.bind (withDispatch_onPart (hids i List.mem_cons_self) fun _ _ => rfl)
      fun b s' _ => OnPart.bind (ih fun j hj => hids j (List.mem_cons_of_mem _ hj)) fun _ _ _ => rfl

theorem claimAll_sparesPart {ids : List String} (hids : ∀ id ∈ ids, p id = false)
    (consumerId : String) (leaseMs now : UInt64) (token : Uuid) :
    SparesPart p (claimAll consumerId leaseMs now token ids) s := by
  unfold SparesPart
  exact Method.forEach_invariant (fun s' => s'.only p = s.only p) _ ids
    (fun i hi _ hs' => (withDispatch_sparesPart (.inl (hids i hi))).trans hs') s rfl

theorem claim_onPart (h : s.Partitioned p) {threadId : String} (hthread : p threadId = true)
    (consumerId : String) (leaseMs now limit : UInt64) (token : Uuid) :
    OnPart p (claim threadId consumerId leaseMs now limit token) s := by
  have hfirst := supersedeStaleQueued_onPart h hthread now (s.currentEpoch threadId)
  unfold OnPart claim
  rw [only_currentEpoch hthread]
  have hskip : ∀ k : Method Fault InMemoryMailboxStore (List RunDispatch),
      Method.bind (supersedeStaleQueued threadId now (s.currentEpoch threadId)) (fun _ => k) =
        Method.bind (Method.map (List.filterMap fun _ => (none : Option Unit))
          (supersedeStaleQueued threadId now (s.currentEpoch threadId))) fun _ => k := fun k =>
    (Method.bind_map (supersedeStaleQueued threadId now (s.currentEpoch threadId))
      (List.filterMap fun _ => (none : Option Unit)) fun _ => k).symm
  rw [hskip]
  refine OnPart.bind hfirst fun _ s₁ hr => ?_
  have hs₁ : s₁.Partitioned p := by
    have := supersedeStaleQueued_partitioned h threadId now (s.currentEpoch threadId)
    rwa [show (supersedeStaleQueued threadId now (s.currentEpoch threadId) s).2 = s₁ from
      congrArg Prod.snd hr] at this
  unfold OnPart
  dsimp only
  rw [only_hasClaimed hs₁ hthread, only_eligibleIds hs₁ hthread]
  split
  · rfl
  · refine claimAll_onPart (fun k hk => ?_) consumerId leaseMs now token
    obtain ⟨d, hd, hsame, -⟩ := mem_eligibleIds hk
    exact hs₁.mem_of_thread hthread hd hsame

theorem claim_sparesPart (h : s.Partitioned p) {threadId : String} (hthread : p threadId = false)
    (consumerId : String) (leaseMs now limit : UInt64) (token : Uuid) :
    SparesPart p (claim threadId consumerId leaseMs now limit token) s := by
  refine SparesPart.bind (supersedeStaleQueued_sparesPart h hthread now _) fun _ s₁ hr => ?_
  have hs₁ : s₁.Partitioned p := by
    have := supersedeStaleQueued_partitioned h threadId now (s.currentEpoch threadId)
    rwa [hr] at this
  unfold SparesPart
  dsimp only
  split
  · rfl
  · refine claimAll_sparesPart (fun k hk => ?_) consumerId leaseMs now token
    obtain ⟨d, hd, hsame, -⟩ := mem_eligibleIds hk
    rw [← hs₁.thread k d hd, hsame, hthread]

theorem claimDispatch_onPart (h : s.Partitioned p) {dispatchId : String}
    (hid : p dispatchId = true) (consumerId : String) (leaseMs now : UInt64) (token : Uuid) :
    OnPart p (claimDispatch dispatchId consumerId leaseMs now token) s := by
  refine withDispatch_onPart hid fun d hd => ?_
  have hthread : p d.threadId = true := (h.thread dispatchId d hd).trans hid
  simp only [only_currentEpoch hthread, only_hasOtherClaimed h hthread]

/-! ## Calls of a claim holder -/

theorem withClaim_onPart {α : Type} (h : s.Partitioned p) {dispatchId : String}
    (hid : p dispatchId = true) (missing rejected : Outcome α) (stale : UInt64 → UInt64 → Outcome α)
    (owns : RunDispatch → Bool) (now : UInt64) (reason : String)
    (transition : Method Fault RunDispatch α) :
    OnPart p (withClaim dispatchId missing rejected stale owns now reason transition) s := by
  refine withDispatch_onPart hid fun d hd => ?_
  have hthread : p d.threadId = true := (h.thread dispatchId d hd).trans hid
  simp only [only_currentEpoch hthread]

theorem supersedeClaimed_onPart (h : s.Partitioned p) {dispatchId : String}
    (hid : p dispatchId = true) (claimToken : String) (now : UInt64) (reason : String) :
    OnPart p (supersedeClaimed dispatchId claimToken now reason) s := by
  refine withDispatch_onPart hid fun d hd => ?_
  have hthread : p d.threadId = true := (h.thread dispatchId d hd).trans hid
  simp only [only_currentEpoch hthread]

/-! ## Interrupts -/

/-- What of a visit shows in the report. -/
def InterruptVisit.shown : InterruptVisit → Option InterruptVisit
  | .skipped => none
  | visit => some visit

theorem interruptReport_shown (newDispatchEpoch : UInt64) (visits : List InterruptVisit) :
    interruptReport newDispatchEpoch (visits.filterMap InterruptVisit.shown) =
      interruptReport newDispatchEpoch visits := by
  simp only [interruptReport, List.filterMap_filterMap]
  congr 1 <;> congr 1 <;> congr 1 <;> funext visit <;> cases visit <;> rfl

/-- The interrupt loop visits records of other threads without effect. -/
theorem interruptVisit_of_ne {threadId : String} {d : RunDispatch} (h : d.threadId ≠ threadId)
    (now oldDispatchEpoch : UInt64) :
    interruptVisit threadId now oldDispatchEpoch d = (.ok .skipped, d) := by
  unfold interruptVisit
  rw [if_pos h]

theorem interruptVisit_identity (threadId : String) (now oldDispatchEpoch : UInt64)
    (d : RunDispatch) :
    (interruptVisit threadId now oldDispatchEpoch d).2.dispatchId = d.dispatchId ∧
      (interruptVisit threadId now oldDispatchEpoch d).2.threadId = d.threadId := by
  rw [interruptVisit_snd]
  split <;> exact ⟨rfl, rfl⟩

theorem interruptVisits_onPart (h : s.Partitioned p) {threadId : String}
    (hthread : p threadId = true) (now oldDispatchEpoch : UInt64) :
    OnPart p (Method.map (List.filterMap InterruptVisit.shown)
      (interruptVisits threadId now oldDispatchEpoch)) s := by
  have hloop := forEach_onPart (p := p) (fun _ => .ok .skipped)
    (f := fun _ _ => interruptVisit threadId now oldDispatchEpoch) (g := InterruptVisit.shown)
    (Partitioned p) (fun i s hs => withDispatch_partitioned hs fun d _ =>
      interruptVisit_identity threadId now oldDispatchEpoch d)
    s.dispatches.nodup_keys h (fun _ _ _ _ _ _ _ => rfl) fun i _ hi s₁ hs₁ _ => ?_
  · rw [← only_keys] at hloop
    exact hloop
  · cases hd : s₁.dispatches.get? i with
    | none => exact ⟨.skipped, by rw [withDispatch, hd], rfl⟩
    | some d =>
      have hne : d.threadId ≠ threadId := by
        intro hsame
        rw [← hs₁.thread i d hd, hsame, hthread] at hi
        cases hi
      exact ⟨.skipped, by rw [withDispatch_fst _ _ _ hd, interruptVisit_of_ne hne], rfl⟩

theorem interruptVisits_sparesPart (h : s.Partitioned p) {threadId : String}
    (hthread : p threadId = false) (now oldDispatchEpoch : UInt64) :
    SparesPart p (interruptVisits threadId now oldDispatchEpoch) s := by
  have hloop := Method.forEach_invariant
    (fun s' => s'.Partitioned p ∧ s'.only p = s.only p)
    (fun id => withDispatch id (.ok .skipped) fun _ => interruptVisit threadId now oldDispatchEpoch)
    s.dispatches.keys (fun i _ s₁ hs₁ => ⟨withDispatch_partitioned hs₁.1 fun d _ =>
      interruptVisit_identity threadId now oldDispatchEpoch d, ?_⟩) s ⟨h, rfl⟩
  · exact hloop.2
  · refine (withDispatch_sparesPart ?_).trans hs₁.2
    cases hi : p i with
    | false => exact .inl rfl
    | true =>
      refine .inr fun d hd => ?_
      have hne : d.threadId ≠ threadId := by
        intro hsame
        rw [← hs₁.1.thread i d hd, hsame, hthread] at hi
        cases hi
      rw [interruptVisit_of_ne hne]

theorem interruptDetailed_onPart (h : s.Partitioned p) {threadId : String}
    (hthread : p threadId = true) (now : UInt64) :
    OnPart p (interruptDetailed threadId now) s := by
  unfold OnPart interruptDetailed
  simp only [currentEpoch_orInsert, only_currentEpoch hthread]
  cases Outcome.addU64 (s.currentEpoch threadId) 1 with
  | error f => simp only [only, AssocMap.retain_orInsert (p := p) _ _ hthread]
  | ok newDispatchEpoch =>
    dsimp only
    have hkept : ((s.only p).state.orInsert threadId ⟨0⟩).modify threadId
        (fun _ => ⟨newDispatchEpoch⟩) = ((s.state.orInsert threadId ⟨0⟩).modify threadId
          fun _ => ⟨newDispatchEpoch⟩).retain fun k _ => p k := by
      simp only [only, AssocMap.retain_modify (p := p),
        AssocMap.retain_orInsert (p := p) _ _ hthread]
    rw [hkept]
    generalize (s.state.orInsert threadId ⟨0⟩).modify threadId (fun _ => ⟨newDispatchEpoch⟩) = state
    have hvisits := (interruptVisits_onPart (s := ⟨s.dispatches, state⟩) ⟨h.keyed, h.thread⟩ hthread
      now (s.currentEpoch threadId)).map (interruptReport newDispatchEpoch)
    unfold OnPart at hvisits
    simp only [Method.map_map, interruptReport_shown] at hvisits
    exact hvisits

theorem interruptDetailed_sparesPart (h : s.Partitioned p) {threadId : String}
    (hthread : p threadId = false) (now : UInt64) :
    SparesPart p (interruptDetailed threadId now) s := by
  unfold SparesPart interruptDetailed
  simp only [currentEpoch_orInsert]
  cases Outcome.addU64 (s.currentEpoch threadId) 1 with
  | error f => simp only [only, AssocMap.retain_orInsert_of_neg (p := p) _ _ hthread]
  | ok newDispatchEpoch =>
    dsimp only
    refine Eq.trans (interruptVisits_sparesPart (s := { s with
      state := (s.state.orInsert threadId ⟨0⟩).modify threadId fun _ => ⟨newDispatchEpoch⟩ })
      ⟨h.keyed, h.thread⟩ hthread now (s.currentEpoch threadId)) ?_
    simp only [only, AssocMap.retain_modify_of_neg (p := p) _ _ hthread,
      AssocMap.retain_orInsert_of_neg (p := p) _ _ hthread]

/-! ## Sweeps -/

/-- A sweep takes back dispatches of the part only, or none of the part is left out
    by its limit. -/
def SweepsPart (p : String → Bool) (s : InMemoryMailboxStore) (now limit : UInt64) : Prop :=
  (∀ d ∈ (s.expired now).take limit.toNat, p d.dispatchId = true) ∨
    ∀ d ∈ (s.expired now).drop limit.toNat, p d.dispatchId = false

/-- No dispatch outside the part that the sweep takes back makes it panic: it is
    behind its thread's epoch or has an attempt left. -/
def SweepsQuietly (p : String → Bool) (s : InMemoryMailboxStore) (now limit : UInt64) : Prop :=
  ∀ d ∈ (s.expired now).take limit.toNat, p d.dispatchId = false →
    d.dispatchEpoch < s.currentEpoch d.threadId ∨ d.HasAttemptLeft

theorem only_expiredIds (h : s.Partitioned p) {now limit : UInt64}
    (hsweep : SweepsPart p s now limit) :
    (s.only p).expiredIds now limit = (s.expiredIds now limit).filter p := by
  unfold expiredIds
  rw [expired, only_filter h, ← expired, ← List.filter_take_of_forall hsweep, List.filter_map]
  rfl

theorem reclaimRecord_identity (now epoch : UInt64) (d : RunDispatch) :
    (reclaimRecord now epoch d).2.dispatchId = d.dispatchId ∧
      (reclaimRecord now epoch d).2.threadId = d.threadId := by
  unfold reclaimRecord
  split
  · rw [Method.map_snd, MailboxState.markSupersededAtEpoch, expecting_snd]
    cases hs : d.status <;>
      simp only [RunDispatch.markSupersededAtEpoch, hs, RunDispatch.markSuperseded,
        RunDispatch.transition_of_status, and_self] <;> exact ⟨rfl, rfl⟩
  · rw [Method.bind_snd_of_read _ fun _ _ => rfl, MailboxState.markExpiredLease, expecting_snd]
    by_cases hclaimed : d.status = .claimed
    · rw [RunDispatch.markExpiredLease, RunDispatch.transition_snd _ _ hclaimed,
        RunDispatch.writeExpiredLease_eq]
      split <;> exact ⟨rfl, rfl⟩
    · obtain ⟨e, he⟩ := RunDispatch.transition_of_ne "lease expiration"
        (RunDispatch.writeExpiredLease now MailboxState.reasonLeaseExpiredMaxAttempts) hclaimed
      rw [RunDispatch.markExpiredLease, he]
      exact ⟨rfl, rfl⟩

/-- Taking back an expired record with an attempt left, or a stale one, succeeds. -/
theorem reclaimRecord_returns {d : RunDispatch} (hclaimed : d.status = .claimed)
    (hid : d.Identified) (now : UInt64) {epoch : UInt64}
    (h : d.dispatchEpoch < epoch ∨ d.HasAttemptLeft) :
    ∃ b, (reclaimRecord now epoch d).1 = .ok b ∧ ∀ d', b = some d' → d'.dispatchId = d.dispatchId := by
  have hlive : d.status.isTerminal = false := by rw [hclaimed]; rfl
  unfold reclaimRecord
  by_cases hstale : d.dispatchEpoch < epoch
  · rw [if_pos hstale, Method.map, markSupersededAtEpoch_ok hid hlive]
    refine ⟨none, rfl, fun d' hd' => ?_⟩
    cases hd'
  · have hvalid := (RunDispatch.writeExpiredLease_valid_iff hid now
      MailboxState.reasonLeaseExpiredMaxAttempts).mpr (h.resolve_left hstale)
    have hmark : MailboxState.markExpiredLease now d =
        (.ok (), d.writeExpiredLease now MailboxState.reasonLeaseExpiredMaxAttempts) :=
      expecting_transition_ok _ "lease expiration" hclaimed hvalid
    rw [if_neg hstale]
    simp only [Method.bind, hmark]
    refine ⟨_, rfl, fun d' hd' => ?_⟩
    rw [← Option.some.inj hd', RunDispatch.writeExpiredLease_eq]
    split <;> rfl

/-- A sweep the other dispatches do not get in the way of takes back the same of
    the part, and what it returns of the part is the same. -/
theorem reclaimExpiredLeases_onPart (hs : s.Coherent) (h : s.Partitioned p)
    (hid : ∀ k d, s.dispatches.get? k = some d → d.status.isTerminal = false → d.Identified)
    {now limit : UInt64} (hsweep : SweepsPart p s now limit) (hquiet : SweepsQuietly p s now limit)
    {decode : RunDispatch → Option RunDispatch}
    (hdecode : ∀ d, p d.dispatchId = false → decode d = none) :
    OnPart p (Method.map (List.filterMap decode) (reclaimExpiredLeases now limit)) s := by
  have hloop := forEach_onPart (p := p) (fun id => Outcome.fail (.notFound id))
    (f := fun _ s d => reclaimRecord now (s.currentEpoch d.threadId) d)
    (g := fun b : Option RunDispatch => b.bind decode)
    (fun s₁ => s₁.Partitioned p ∧ s₁.state = s.state)
    (fun i s₁ hs₁ => ⟨withDispatch_partitioned hs₁.1 fun d _ => reclaimRecord_identity now _ d,
      (withDispatch_state _ _ _ _).trans hs₁.2⟩)
    (nodup_expiredIds hs now limit) ⟨h, rfl⟩
    (fun i _ hi s₁ hs₁ d hd => by
      rw [only_currentEpoch ((hs₁.1.thread i d hd).trans hi)])
    fun i hmem hi s₁ hs₁ hview => ?_
  · have hsweeps : ∀ t : InMemoryMailboxStore,
        Method.map (List.filterMap decode) (reclaimExpiredLeases now limit) t =
          Method.map (List.filterMap fun b : Option RunDispatch => b.bind decode)
            (Method.forEach (fun id => withDispatch id (Outcome.fail (.notFound id)) fun s d =>
              reclaimRecord now (s.currentEpoch d.threadId) d) (t.expiredIds now limit)) t := by
      intro t
      have hcollect := congrFun (Method.map_map (Method.forEach (fun id =>
        withDispatch id (Outcome.fail (.notFound id)) fun s d =>
          reclaimRecord now (s.currentEpoch d.threadId) d) (t.expiredIds now limit))
        (fun reclaimed => reclaimed.filterMap id) (List.filterMap decode)) t
      simp only [List.filterMap_filterMap, id_eq] at hcollect
      exact hcollect
    rw [← only_expiredIds h hsweep] at hloop
    unfold OnPart
    rw [hsweeps, hsweeps]
    exact hloop
  · obtain ⟨d, hd, rfl⟩ := List.mem_map.mp hmem
    obtain ⟨hvalue, hexp⟩ := List.mem_filter.mp (List.mem_of_mem_take hd)
    obtain ⟨k, hk⟩ := AssocMap.mem_values.mp hvalue
    have hkey := h.keyed k d hk
    have hat : s₁.dispatches.get? d.dispatchId = some d := by rw [hview, hkey, hk]
    have hclaimed : d.status = .claimed := by
      simp only [leaseExpired, Bool.and_eq_true, beq_iff_eq] at hexp
      exact hexp.1
    rw [withDispatch_fst _ _ _ hat, currentEpoch_congr hs₁.2]
    obtain ⟨b, hb, hown⟩ := reclaimRecord_returns hclaimed
      (hid k d hk (by rw [hclaimed]; rfl)) now (hquiet d hd hi)
    refine ⟨b, hb, ?_⟩
    cases b with
    | none => rfl
    | some d' => exact hdecode d' ((congrArg p (hown d' rfl)).trans hi)

/-- A sweep that takes back nothing of the part leaves it alone. -/
theorem reclaimExpiredLeases_sparesPart {now limit : UInt64}
    (h : ∀ d ∈ (s.expired now).take limit.toNat, p d.dispatchId = false) :
    SparesPart p (reclaimExpiredLeases now limit) s := by
  refine SparesPart.map ?_ _
  unfold SparesPart
  refine Method.forEach_invariant (fun s' => s'.only p = s.only p) _ _ (fun i hi _ hs' => ?_) s rfl
  obtain ⟨d, hd, rfl⟩ := List.mem_map.mp hi
  exact (withDispatch_sparesPart (.inl (h d hd))).trans hs'

end Remo.InMemoryMailboxStore
