import Remo.Native.Mailbox.PendingDelivery
import Remo.Spec.Pending.Atomicity

/-!
# The preflight of a foreground submit

The preflight freezes a queue with one placeholder at the interrupt boundary for no run; the
dispatch freezes it with the submitted messages, at the resume boundary when the submit goes on
with a waiting run. The preflight looks at the first entry it cannot skip, the dispatch has to get
past every entry.

## Key results

- `select_append_iff`: messages behind a queue are selected, all of them, exactly if every entry of
  the queue lets them through, and else none of them is.
- `preflight_ok_iff`: the queues that the preflight accepts.
- `preflightAgrees_iff`: exactly when the preflight tells what the dispatch will do.
-/

namespace Remo

/-! ## Selection behind a queue -/

/-- A freeze takes the entry and goes on, or skips it. -/
def LetsThrough (boundary : DeliveryBoundary) (currentRunId : Option String)
    (entry : PendingMessageRecord) : Prop :=
  entry.deliveryMode.barrier = false ∧
    if eligibleForFreeze entry boundary currentRunId then entry.deliveryMode.granularity = .batch
    else canSkipIneligible entry boundary = true

instance (boundary : DeliveryBoundary) (currentRunId : Option String)
    (entry : PendingMessageRecord) : Decidable (LetsThrough boundary currentRunId entry) :=
  inferInstanceAs (Decidable (_ ∧ _))

/-- The entry is taken together with others. -/
structure Batched (boundary : DeliveryBoundary) (currentRunId : Option String)
    (entry : PendingMessageRecord) : Prop where
  eligible : eligibleForFreeze entry boundary currentRunId = true
  barrier : entry.deliveryMode.barrier = false
  granularity : entry.deliveryMode.granularity = .batch

section Selection

variable {boundary : DeliveryBoundary} {currentRunId : Option String}

/-- Entries that are taken together are all taken. -/
theorem selectPendingFrom_batched {new : List PendingMessageRecord}
    (hnew : ∀ e ∈ new, Batched boundary currentRunId e) (index : Nat) (skippedPrior : Bool)
    (selected : List Nat) :
    selectPendingFrom boundary currentRunId index skippedPrior selected new =
      selected ++ List.range' index new.length := by
  induction new generalizing index selected with
  | nil => simp [selectPendingFrom]
  | cons e rest ih =>
    have he := hnew e List.mem_cons_self
    have hrest : ∀ e' ∈ rest, Batched boundary currentRunId e' :=
      fun e' he' => hnew e' (List.mem_cons_of_mem e he')
    simp [selectPendingFrom, he.eligible, he.barrier, he.granularity, ih hrest,
      List.range'_succ]

/-- Behind entries that let them through, messages that are taken together are all taken. -/
theorem selectPendingFrom_append_through {queue new : List PendingMessageRecord}
    (hqueue : ∀ e ∈ queue, LetsThrough boundary currentRunId e)
    (hnew : ∀ e ∈ new, Batched boundary currentRunId e) (index : Nat) (skippedPrior : Bool)
    (selected : List Nat) :
    ∃ front, selectPendingFrom boundary currentRunId index skippedPrior selected (queue ++ new) =
      front ++ List.range' (index + queue.length) new.length := by
  induction queue generalizing index skippedPrior selected with
  | nil => exact ⟨selected, selectPendingFrom_batched hnew index skippedPrior selected⟩
  | cons e rest ih =>
    obtain ⟨hbarrier, hthrough⟩ := hqueue e List.mem_cons_self
    have hrest : ∀ e' ∈ rest, LetsThrough boundary currentRunId e' :=
      fun e' he' => hqueue e' (List.mem_cons_of_mem e he')
    have hlength : index + (e :: rest).length = index + 1 + rest.length := by
      simp only [List.length_cons]
      omega
    rw [hlength]
    cases heligible : eligibleForFreeze e boundary currentRunId with
    | true =>
      rw [if_pos heligible] at hthrough
      obtain ⟨front, hfront⟩ := ih hrest (index + 1) skippedPrior (selected ++ [index])
      refine ⟨front, ?_⟩
      simpa [selectPendingFrom, heligible, hbarrier, hthrough] using hfront
    | false =>
      rw [if_neg (by simp [heligible])] at hthrough
      obtain ⟨front, hfront⟩ := ih hrest (index + 1) true selected
      refine ⟨front, ?_⟩
      simpa [selectPendingFrom, heligible, hbarrier, hthrough] using hfront

/-- An entry that does not let a freeze through ends it, at the latest with this entry. -/
theorem selectPendingFrom_stop {e : PendingMessageRecord}
    (hblocked : ¬ LetsThrough boundary currentRunId e) (rest : List PendingMessageRecord)
    (index : Nat) (skippedPrior : Bool) (selected : List Nat) :
    selectPendingFrom boundary currentRunId index skippedPrior selected (e :: rest) = selected ∨
      selectPendingFrom boundary currentRunId index skippedPrior selected (e :: rest) =
        selected ++ [index] := by
  unfold LetsThrough at hblocked
  unfold selectPendingFrom
  cases hbarrier : e.deliveryMode.barrier with
  | true =>
    cases eligibleForFreeze e boundary currentRunId <;> cases skippedPrior <;> simp
    tauto
  | false =>
    cases heligible : eligibleForFreeze e boundary currentRunId with
    | true =>
      have hone : e.deliveryMode.granularity = .one := by
        cases hg : e.deliveryMode.granularity with
        | one => rfl
        | batch => simp [hbarrier, heligible, hg] at hblocked
      simp only [hone]
      cases selected <;> simp
    | false =>
      have hskip : canSkipIneligible e boundary = false := by
        simpa [hbarrier, heligible] using hblocked
      simp [hskip]

/-- Behind an entry that does not let it through a freeze takes nothing. -/
theorem selectPendingFrom_append_blocked (new : List PendingMessageRecord)
    {queue : List PendingMessageRecord}
    (hblocked : ∃ e ∈ queue, ¬ LetsThrough boundary currentRunId e) (index : Nat)
    (skippedPrior : Bool) (selected : List Nat) :
    ∀ i ∈ selectPendingFrom boundary currentRunId index skippedPrior selected (queue ++ new),
      i ∈ selected ∨ i < index + queue.length := by
  induction queue generalizing index skippedPrior selected with
  | nil => simp at hblocked
  | cons e rest ih =>
    intro i hi
    rw [List.cons_append] at hi
    by_cases he : LetsThrough boundary currentRunId e
    · have hrest : ∃ e' ∈ rest, ¬ LetsThrough boundary currentRunId e' := by
        obtain ⟨e', he', hne⟩ := hblocked
        cases List.mem_cons.mp he' with
        | inl heq => exact absurd (heq ▸ he) hne
        | inr hmem => exact ⟨e', hmem, hne⟩
      obtain ⟨hbarrier, hthrough⟩ := he
      cases heligible : eligibleForFreeze e boundary currentRunId with
      | true =>
        rw [if_pos heligible] at hthrough
        have hi' : i ∈ selectPendingFrom boundary currentRunId (index + 1) skippedPrior
            (selected ++ [index]) (rest ++ new) := by
          simpa [selectPendingFrom, heligible, hbarrier, hthrough] using hi
        cases ih hrest (index + 1) skippedPrior (selected ++ [index]) i hi' with
        | inl hmem =>
          cases List.mem_append.mp hmem with
          | inl h => exact .inl h
          | inr h =>
            rw [List.mem_singleton.mp h]
            exact .inr (by simp)
        | inr hlt =>
          refine .inr ?_
          simp only [List.length_cons]
          omega
      | false =>
        rw [if_neg (by simp [heligible])] at hthrough
        have hi' : i ∈ selectPendingFrom boundary currentRunId (index + 1) true selected
            (rest ++ new) := by
          simpa [selectPendingFrom, heligible, hbarrier, hthrough] using hi
        cases ih hrest (index + 1) true selected i hi' with
        | inl hmem => exact .inl hmem
        | inr hlt =>
          refine .inr ?_
          simp only [List.length_cons]
          omega
    · cases selectPendingFrom_stop he (rest ++ new) index skippedPrior selected with
      | inl hstop =>
        rw [hstop] at hi
        exact .inl hi
      | inr hstop =>
        rw [hstop] at hi
        cases List.mem_append.mp hi with
        | inl h => exact .inl h
        | inr h =>
          rw [List.mem_singleton.mp h]
          exact .inr (by simp)

/-- Messages behind a queue are all selected exactly if every entry lets them through. -/
theorem select_append_iff (queue : List PendingMessageRecord) {new : List PendingMessageRecord}
    (hnew : ∀ e ∈ new, Batched boundary currentRunId e) (hne : new ≠ []) :
    (∀ i, queue.length ≤ i → i < queue.length + new.length →
        i ∈ selectPendingForFreezeForRun (queue ++ new) boundary currentRunId) ↔
      ∀ e ∈ queue, LetsThrough boundary currentRunId e := by
  constructor
  · intro hall
    by_contra hblocked
    simp only [not_forall, exists_prop] at hblocked
    have hlt : queue.length < queue.length + new.length := by
      have := List.length_pos_iff.mpr hne
      omega
    have hmem := hall queue.length (Nat.le_refl _) hlt
    have hstop := selectPendingFrom_append_blocked new hblocked 0 false [] _ hmem
    simp at hstop
  · intro hqueue i hge hlt
    obtain ⟨front, hfront⟩ := selectPendingFrom_append_through hqueue hnew 0 false []
    rw [selectPendingForFreezeForRun, hfront, List.mem_append, List.mem_range'_1]
    exact .inr (by omega)

/-- None of the messages behind a queue is selected exactly if some entry does not let them
    through. -/
theorem select_append_none_iff (queue : List PendingMessageRecord)
    {new : List PendingMessageRecord}
    (hnew : ∀ e ∈ new, Batched boundary currentRunId e) (hne : new ≠ []) :
    (∀ i ∈ selectPendingForFreezeForRun (queue ++ new) boundary currentRunId, i < queue.length) ↔
      ¬ ∀ e ∈ queue, LetsThrough boundary currentRunId e := by
  have hpos := List.length_pos_iff.mpr hne
  constructor
  · intro hnone hqueue
    have hmem := (select_append_iff queue hnew hne).mpr hqueue queue.length (Nat.le_refl _) (by omega)
    exact absurd (hnone _ hmem) (Nat.lt_irrefl _)
  · intro hblocked i hi
    simp only [not_forall, exists_prop] at hblocked
    have hstop := selectPendingFrom_append_blocked new hblocked 0 false [] i hi
    simpa using hstop

end Selection

/-! ## The preflight -/

/-- The foreground freeze skips the entry: it waits for a new run and is no barrier. -/
def isSkipped (entry : PendingMessageRecord) : Bool :=
  entry.deliveryMode.boundary = .newRun && !entry.deliveryMode.barrier

/-- The preflight accepts the queue: the first entry it does not skip, if any, is an interrupt for
    no run in particular, and no barrier behind skipped entries. -/
def Admits (queue : List PendingMessageRecord) : Prop :=
  match queue.find? fun e => !isSkipped e with
  | none => True
  | some e =>
    e.deliveryMode.boundary = .interrupt ∧ e.deliveryMode.targetRunId = none ∧
      (e.deliveryMode.barrier = true → queue.head? = some e)

instance (queue : List PendingMessageRecord) : Decidable (Admits queue) := by
  unfold Admits
  split <;> infer_instance

theorem admits_iff (queue : List PendingMessageRecord) :
    Admits queue ↔ ∀ e, (queue.find? fun e => !isSkipped e) = some e →
      e.deliveryMode.boundary = .interrupt ∧ e.deliveryMode.targetRunId = none ∧
        (e.deliveryMode.barrier = true → queue.head? = some e) := by
  unfold Admits
  cases queue.find? fun e => !isSkipped e <;> simp

/-- An entry that the interrupt boundary takes for no run. -/
theorem eligible_interrupt_iff (e : PendingMessageRecord) :
    eligibleForFreeze e .interrupt none = true ↔
      e.deliveryMode.boundary = .interrupt ∧ e.deliveryMode.targetRunId = none := by
  cases hb : e.deliveryMode.boundary <;> cases ht : e.deliveryMode.targetRunId <;>
    simp [eligibleForFreeze, hb, ht, DeliveryBoundary.eligibleAt, DeliveryBoundary.precedence]

/-- What the preflight selects of a queue from some entry on, when nothing is selected yet. -/
theorem selectPendingFrom_preflight (queue : List PendingMessageRecord)
    {last : PendingMessageRecord} (hlast : Batched .interrupt none last) (index : Nat)
    (skippedPrior : Bool) :
    selectPendingFrom .interrupt none index skippedPrior [] (queue ++ [last]) ≠ [] ↔
      ∀ e, (queue.find? fun e => !isSkipped e) = some e →
        eligibleForFreeze e .interrupt none = true ∧
          (e.deliveryMode.barrier = true → skippedPrior = false ∧ queue.head? = some e) := by
  induction queue generalizing index skippedPrior with
  | nil => simp [selectPendingFrom, hlast.eligible, hlast.barrier, hlast.granularity]
  | cons e rest ih =>
    cases hskip : isSkipped e with
    | true =>
      obtain ⟨hnewRun, hbarrier⟩ : e.deliveryMode.boundary = .newRun ∧
          e.deliveryMode.barrier = false := by simpa [isSkipped] using hskip
      have hineligible : eligibleForFreeze e .interrupt none = false := by
        rw [Bool.eq_false_iff, ne_eq, eligible_interrupt_iff, hnewRun]
        simp
      have hcan : canSkipIneligible e .interrupt = true := by simp [canSkipIneligible, hnewRun]
      have hgo : selectPendingFrom .interrupt none index skippedPrior [] (e :: rest ++ [last]) =
          selectPendingFrom .interrupt none (index + 1) true [] (rest ++ [last]) := by
        simp [selectPendingFrom, hineligible, hbarrier, hcan]
      rw [hgo, ih, List.find?_cons_of_neg (by simp [hskip])]
      -- no entry behind a skipped one is at the head
      have hhead : ∀ e', (rest.find? fun e => !isSkipped e) = some e' → e ≠ e' := by
        rintro e' he' rfl
        have := List.find?_some he'
        simp [hskip] at this
      constructor
      · intro h e' he'
        obtain ⟨heligible, hbar⟩ := h e' he'
        exact ⟨heligible, fun hb => absurd (hbar hb).1 (by simp)⟩
      · intro h e' he'
        obtain ⟨heligible, hbar⟩ := h e' he'
        refine ⟨heligible, fun hb => absurd (hbar hb).2 ?_⟩
        simpa using hhead e' he'
    | false =>
      rw [List.find?_cons_of_pos (by simp [hskip])]
      have hfirst : (∀ e', some e = some e' → eligibleForFreeze e' .interrupt none = true ∧
          (e'.deliveryMode.barrier = true →
            skippedPrior = false ∧ (e :: rest).head? = some e')) ↔
          eligibleForFreeze e .interrupt none = true ∧
            (e.deliveryMode.barrier = true → skippedPrior = false) := by
        simp
      rw [hfirst, List.cons_append, selectPendingFrom]
      cases heligible : eligibleForFreeze e .interrupt none with
      | false =>
        have hcan : e.deliveryMode.barrier = false → canSkipIneligible e .interrupt = false := by
          intro hbarrier
          simpa [isSkipped, hbarrier, canSkipIneligible] using hskip
        cases hbarrier : e.deliveryMode.barrier with
        | true => simp
        | false => simp [hcan hbarrier]
      | true =>
        cases hbarrier : e.deliveryMode.barrier with
        | true => cases skippedPrior <;> simp
        | false =>
          obtain ⟨new, hnew, -⟩ := selectPendingFrom_spec .interrupt none (rest ++ [last])
            (index + 1) skippedPrior [index]
          cases e.deliveryMode.granularity <;> simp [hnew]

/-- The placeholder is taken together with others. -/
theorem batched_placeholder (threadId : String) (pending : List PendingMessageRecord) :
    Batched .interrupt none (Mailbox.placeholder threadId pending) :=
  ⟨rfl, rfl, rfl⟩

/-- The preflight accepts exactly the queues that admit an interrupt. -/
theorem preflight_ok_iff {s : InMemoryStore} {threadId : String}
    (hload : s.loadPendingMessageRecords threadId = .ok (s.pending threadId)) :
    Mailbox.preflightForegroundPending s threadId = .ok () ↔ Admits (s.pending threadId) := by
  have hselect := selectPendingFrom_preflight (s.pending threadId)
    (batched_placeholder threadId (s.pending threadId)) 0 false
  have hadmits : Admits (s.pending threadId) ↔ selectPendingForFreezeForRun (s.pending threadId ++
      [Mailbox.placeholder threadId (s.pending threadId)]) .interrupt none ≠ [] := by
    rw [selectPendingForFreezeForRun, hselect]
    simp only [admits_iff, eligible_interrupt_iff, true_and, and_assoc]
  rw [hadmits, Mailbox.preflightForegroundPending, hload]
  cases hqueue : s.pending threadId with
  | nil => simp [selectPendingForFreezeForRun, selectPendingFrom, Mailbox.placeholder,
      Mailbox.deliveryModeForDispatch, eligible_interrupt_iff]
  | cons e rest =>
    simp only [List.isEmpty_cons, Bool.false_eq_true, if_false]
    split_ifs with hempty
    · simpa using hempty
    · simpa using hempty


/-! ## The dispatch -/

namespace Mailbox

/-- The boundary and the run a foreground submit is dispatched at. -/
def dispatchTarget (s : InMemoryStore) (threadId : String) (request : RunActivation)
    (fresh : Uuid) : Option (DeliveryBoundary × String) :=
  let request := routeToWaitingRun s threadId request
  (dispatchBoundary request).map fun boundary => (boundary, dispatchRunId request fresh)

/-- The queue a dispatch selects from: its messages stand behind the pending ones. -/
def dispatchQueue (s : InMemoryStore) (threadId : String) (messages : List Message)
    (boundary : DeliveryBoundary) (runId : String) (ids : Nat → Uuid) :
    List PendingMessageRecord :=
  simulatedPending threadId (s.pending threadId)
    (some (messages, deliveryModeForDispatch boundary runId)) ids

/-- What a dispatch selects of the queue. -/
def dispatchSelection (s : InMemoryStore) (threadId : String) (request : RunActivation)
    (fresh : Uuid) (messages : List Message) (ids : Nat → Uuid) : List Nat :=
  match dispatchTarget s threadId request fresh with
  | none => []
  | some (boundary, runId) =>
    selectPendingForFreezeForRun (dispatchQueue s threadId messages boundary runId ids) boundary
      (some runId)

/-- The preflight tells what the dispatch of the messages will do with the queue it saw: all of
    them are selected when it accepts, none of them when it is blocked. -/
structure PreflightAgrees (s : InMemoryStore) (threadId : String) (request : RunActivation)
    (fresh : Uuid) (messages : List Message) (ids : Nat → Uuid) : Prop where
  delivers : preflightForegroundPending s threadId = .ok () → ∀ i, (s.pending threadId).length ≤ i →
    i < (s.pending threadId).length + messages.length →
      i ∈ dispatchSelection s threadId request fresh messages ids
  blocks : ∀ blocking,
    preflightForegroundPending s threadId = .error (.deliveryBlockedByBarrier blocking) →
      ∀ i ∈ dispatchSelection s threadId request fresh messages ids,
        i < (s.pending threadId).length

/-- A dispatched message is taken together with others. -/
theorem batched_fromMessage (threadId : String) (position : Nat) (message : Message)
    (boundary : DeliveryBoundary) (runId : String) (generated : Uuid) :
    Batched boundary (some runId) (PendingMessageRecord.fromMessage threadId position message
      (deliveryModeForDispatch boundary runId) generated) := by
  cases boundary <;> exact ⟨by simp [eligibleForFreeze, PendingMessageRecord.fromMessage,
    deliveryModeForDispatch, DeliveryBoundary.eligibleAt], rfl, rfl⟩

/-- The selection only depends on the delivery modes. -/
theorem selectPendingFrom_congr {boundary : DeliveryBoundary} {currentRunId : Option String}
    {queue queue' : List PendingMessageRecord}
    (h : queue.map PendingMessageRecord.deliveryMode =
      queue'.map PendingMessageRecord.deliveryMode)
    (index : Nat) (skippedPrior : Bool) (selected : List Nat) :
    selectPendingFrom boundary currentRunId index skippedPrior selected queue =
      selectPendingFrom boundary currentRunId index skippedPrior selected queue' := by
  induction queue generalizing queue' index skippedPrior selected with
  | nil =>
    cases queue' with
    | nil => rfl
    | cons e rest => cases h
  | cons e rest ih =>
    cases queue' with
    | nil => cases h
    | cons e' rest' =>
      obtain ⟨hmode, hrest⟩ := List.cons.inj h
      have heligible : eligibleForFreeze e boundary currentRunId =
          eligibleForFreeze e' boundary currentRunId := by simp only [eligibleForFreeze, hmode]
      have hskip : canSkipIneligible e boundary = canSkipIneligible e' boundary := by
        simp only [canSkipIneligible, hmode]
      rw [selectPendingFrom, selectPendingFrom, heligible, hskip, hmode, ih hrest, ih hrest]

/-- A foreground submit has a boundary to be dispatched at. -/
theorem exists_dispatchTarget (s : InMemoryStore) (threadId : String) {request : RunActivation}
    (hmode : (request.normalizeMailboxRunMode false).runMode = .foreground) (fresh : Uuid) :
    ∃ boundary runId, dispatchTarget s threadId (request.normalizeMailboxRunMode false) fresh =
      some (boundary, runId) := by
  have hseeded : (request.normalizeMailboxRunMode false).seededDecisions = [] := by
    by_contra hne
    unfold RunActivation.normalizeMailboxRunMode at hmode hne
    split_ifs at hmode hne <;> simp_all
  generalize request.normalizeMailboxRunMode false = request at hmode hseeded
  unfold dispatchTarget routeToWaitingRun
  split_ifs
  · cases s.reusableWaitingRunId threadId with
    | some waitingRunId => exact ⟨.resumeInput, _, by simp [dispatchBoundary, hseeded]; rfl⟩
    | none => exact ⟨.interrupt, _, by simp [dispatchBoundary, hmode]; rfl⟩
  · exact ⟨.interrupt, _, by simp [dispatchBoundary, hmode]; rfl⟩

/-- A preflight that can read the queue accepts it or reports what blocks it. -/
theorem preflight_cases {s : InMemoryStore} {threadId : String}
    (hload : s.loadPendingMessageRecords threadId = .ok (s.pending threadId)) :
    preflightForegroundPending s threadId = .ok () ∨
      ∃ blocking, preflightForegroundPending s threadId =
        .error (.deliveryBlockedByBarrier blocking) := by
  unfold preflightForegroundPending
  rw [hload]
  simp only
  split_ifs
  · exact .inl rfl
  · exact .inl rfl
  · exact .inr ⟨_, rfl⟩

/-- The messages of a dispatch are taken together with others. -/
theorem batched_dispatched (threadId : String) (queued : Nat) (messages : List Message)
    (boundary : DeliveryBoundary) (runId : String) (ids : Nat → Uuid) :
    ∀ e ∈ messages.mapIdx fun index message =>
        PendingMessageRecord.fromMessage threadId (queued + 1 + index) message
          (deliveryModeForDispatch boundary runId) (ids index),
      Batched boundary (some runId) e := by
  intro e he
  obtain ⟨i, hi, rfl⟩ := List.mem_mapIdx.mp he
  exact batched_fromMessage _ _ _ _ _ _

/-- For every queue and every history of runs: the preflight of a foreground submit tells what the
    dispatch will do exactly if the queue cannot be read, or the first entry the preflight does not
    skip admits the submit just when every entry lets the dispatched messages through. -/
theorem preflightAgrees_iff (s : InMemoryStore) (threadId : String) (request : RunActivation)
    (hmode : (request.normalizeMailboxRunMode false).runMode = .foreground) (fresh : Uuid)
    (messages : List Message) (hmessages : messages ≠ []) (ids : Nat → Uuid) :
    PreflightAgrees s threadId (request.normalizeMailboxRunMode false) fresh messages ids ↔
      (∃ e, s.loadPendingMessageRecords threadId = .error e) ∨
        ∀ boundary runId, dispatchTarget s threadId (request.normalizeMailboxRunMode false) fresh =
            some (boundary, runId) →
          (Admits (s.pending threadId) ↔
            ∀ e ∈ s.pending threadId, LetsThrough boundary (some runId) e) := by
  obtain ⟨boundary, runId, htarget⟩ := exists_dispatchTarget s threadId hmode fresh
  cases hload : s.loadPendingMessageRecords threadId with
  | error e =>
    have hpreflight : preflightForegroundPending s threadId = .error (.store (.storage e)) := by
      simp [preflightForegroundPending, hload]
    refine iff_of_true ⟨?_, ?_⟩ (.inl ⟨e, rfl⟩)
    · intro hok
      rw [hpreflight] at hok
      cases hok
    · intro blocking hblocked
      rw [hpreflight] at hblocked
      cases hblocked
  | ok pending =>
    have hpending : s.loadPendingMessageRecords threadId = .ok (s.pending threadId) := by
      unfold InMemoryStore.loadPendingMessageRecords at hload ⊢
      cases hvalid : validatePendingMessageRecords (s.pending threadId) with
      | error e => rw [hvalid] at hload; cases hload
      | ok _ => rfl
    have hnew := batched_dispatched threadId (s.pending threadId).length messages boundary runId ids
    have hne : (messages.mapIdx fun index message =>
        PendingMessageRecord.fromMessage threadId ((s.pending threadId).length + 1 + index) message
          (deliveryModeForDispatch boundary runId) (ids index)) ≠ [] := by
      simpa using hmessages
    have hall := select_append_iff (s.pending threadId) hnew hne
    have hnone := select_append_none_iff (s.pending threadId) hnew hne
    have hselection : dispatchSelection s threadId (request.normalizeMailboxRunMode false) fresh
        messages ids = selectPendingForFreezeForRun (s.pending threadId ++
          messages.mapIdx fun index message => PendingMessageRecord.fromMessage threadId
            ((s.pending threadId).length + 1 + index) message
            (deliveryModeForDispatch boundary runId) (ids index)) boundary (some runId) := by
      simp only [dispatchSelection, htarget]
      rfl
    rw [List.length_mapIdx] at hall
    rw [← hselection] at hall hnone
    have hok := preflight_ok_iff hpending
    have hcond : ((∃ e, (Except.ok pending : Except StorageError _) = .error e) ∨
        ∀ boundary' runId', dispatchTarget s threadId (request.normalizeMailboxRunMode false)
            fresh = some (boundary', runId') →
          (Admits (s.pending threadId) ↔
            ∀ e ∈ s.pending threadId, LetsThrough boundary' (some runId') e)) ↔
        (Admits (s.pending threadId) ↔
          ∀ e ∈ s.pending threadId, LetsThrough boundary (some runId) e) := by
      constructor
      · intro h
        cases h with
        | inl h => obtain ⟨e, he⟩ := h; cases he
        | inr h => exact h boundary runId htarget
      · intro h
        refine .inr fun boundary' runId' htarget' => ?_
        rw [htarget] at htarget'
        cases htarget'
        exact h
    rw [hcond, ← hok]
    constructor
    · intro hagrees
      constructor
      · intro haccepts
        exact hall.mp (hagrees.delivers haccepts)
      · intro hthrough
        cases preflight_cases hpending with
        | inl haccepts => exact haccepts
        | inr hblocked =>
          obtain ⟨blocking, hblocked⟩ := hblocked
          exact absurd hthrough (hnone.mp (hagrees.blocks blocking hblocked))
    · intro hiff
      refine ⟨fun haccepts => hall.mpr (hiff.mp haccepts), fun blocking hblocked => ?_⟩
      apply hnone.mpr
      intro hthrough
      rw [hiff.mpr hthrough] at hblocked
      cases hblocked

/-- A queued message of a mode, and a foreground submit. -/
private def queued (pendingId : String) (deliveryMode : DeliveryMode) : PendingMessageRecord where
  pendingId := pendingId
  threadId := "t"
  position := 1
  message := Message.user "earlier" pendingId
  revision := 1
  deliveryMode := deliveryMode
  createdAt := none
  updatedAt := none

private def foreground : RunActivation where
  intent := ⟨none, "t", .newIntent⟩
  trace := ⟨none, none, none, none, none, none⟩
  runMode := .foreground
  internalOrigin := false
  seededDecisions := []
  runIdHint := none

/-- A run that waits for its user. -/
private def waitingRun : RunRecord :=
  { RunRecord.new "waiting" "t" "agent" with
    status := .waiting
    waiting := some ⟨.userInput⟩ }

private def generatedIds : Nat → Uuid := fun _ => .generated

/-- A queue with a message for a new run and no waiting run. -/
theorem preflightAgrees_newRun :
    PreflightAgrees (InMemoryStore.new.setPending "t" [queued "p-1" (.newRun .batch)]) "t"
      (foreground.normalizeMailboxRunMode false) .token [.user "hello" "m-1"] generatedIds := by
  refine (preflightAgrees_iff _ "t" foreground (by decide) .token _ (by decide) generatedIds).mpr
    (.inr ?_)
  intro boundary runId htarget
  have hinterrupt : dispatchTarget (InMemoryStore.new.setPending "t"
      [queued "p-1" (.newRun .batch)]) "t" (foreground.normalizeMailboxRunMode false) .token =
        some (.interrupt, "token") := by decide
  rw [hinterrupt] at htarget
  cases htarget
  decide

/-- The submit goes on with a waiting run. An interrupt in the queue makes the preflight accept it,
    but nothing is selected for the run; a message for the run in the queue makes the preflight
    refuse it, although the submitted message would be selected. -/
theorem preflight_disagrees :
    let accepted : InMemoryStore :=
      { InMemoryStore.new with
        runs := AssocMap.empty.insert "waiting" waitingRun
        pendingMessages := AssocMap.empty.insert "t"
          [queued "p-1" (deliveryModeForDispatch .interrupt "")] }
    let refused : InMemoryStore :=
      { InMemoryStore.new with
        runs := AssocMap.empty.insert "waiting" waitingRun
        pendingMessages := AssocMap.empty.insert "t"
          [queued "p-1" (deliveryModeForDispatch .resumeInput "waiting")] }
    ¬ PreflightAgrees accepted "t" (foreground.normalizeMailboxRunMode false) .token
        [.user "hello" "m-1"] generatedIds ∧
      ¬ PreflightAgrees refused "t" (foreground.normalizeMailboxRunMode false) .token
        [.user "hello" "m-1"] generatedIds := by
  intro accepted refused
  constructor
  · intro h
    have hselected := h.delivers (by decide) 1 (by decide) (by decide)
    have hnone : dispatchSelection accepted "t" (foreground.normalizeMailboxRunMode false) .token
        [.user "hello" "m-1"] generatedIds = [] := by decide
    rw [hnone] at hselected
    cases hselected
  · intro h
    have hnone := h.blocks "p-1" (by decide) 1 (by decide)
    exact absurd hnone (by decide)

end Mailbox

end Remo
