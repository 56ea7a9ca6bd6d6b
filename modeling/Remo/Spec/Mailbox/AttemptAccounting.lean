import Remo.ForStd.BoundedRetry
import Remo.Spec.Mailbox.Replies

/-!
# Fencing and attempts of one dispatch

What interrupts make impossible for the dispatches of a thread, and how one dispatch is retried.
-/

/-! ## Interrupt fencing

An interrupt supersedes the queued dispatches of its thread and leaves the
claimed one behind the thread epoch. From then on every dispatch the thread had
is fenced: no call works on it, and all that can still happen to it is to be
superseded or purged.
-/

namespace Remo.InMemoryMailboxStore

variable {s : InMemoryMailboxStore}

/-- A dispatch that no call can work on: terminal, or claimed and behind the
    epoch of its thread. -/
def Fenced (s : InMemoryMailboxStore) (dispatchId : String) : Prop :=
  ∀ d, s.dispatches.get? dispatchId = some d → d.status.isTerminal = true ∨
    (d.status = .claimed ∧ d.dispatchEpoch < s.currentEpoch d.threadId)

theorem Fenced.not_fresh {dispatchId : String} (h : s.Fenced dispatchId) :
    ¬s.Fresh dispatchId := by
  rintro ⟨d, hd, hlive, he⟩
  rcases h d hd with hterm | ⟨-, hstale⟩
  · rw [hlive] at hterm; cases hterm
  · exact absurd hstale (UInt64.not_lt.mpr he)

/-- What a fenced dispatch may still become. -/
def Settles (d d' : RunDispatch) : Prop :=
  d'.status = d.status ∨ (d.status = .claimed ∧ d'.status = .superseded)

/-- The only change left to a fenced dispatch is to be superseded. -/
theorem Change.of_fenced {op : MailboxOp} {d d' : RunDispatch} (h : Change s d op d')
    (hclaimed : d.status = .claimed) (hstale : d.dispatchEpoch < s.currentEpoch d.threadId) :
    d'.status = .superseded := by
  have hfresh : ¬s.currentEpoch d.threadId ≤ d.dispatchEpoch := UInt64.not_le.mpr hstale
  cases h with
  | superseded | supersedeClaimed => rfl
  | claim _ _ _ _ _ _ he => exact absurd he hfresh
  | claimDispatch _ _ _ _ _ he => exact absurd he hfresh
  | ack _ _ _ _ he => exact absurd he hfresh
  | recordDispatchStart _ _ _ _ _ he => exact absurd he hfresh
  | recordRunResult _ _ _ _ _ he => exact absurd he hfresh
  | nackRequeued _ _ _ _ _ _ he => exact absurd he hfresh
  | nackExhausted _ _ _ _ _ _ he => exact absurd he hfresh
  | deadLetter _ _ _ _ _ he => exact absurd he hfresh
  | extendLease _ _ _ _ _ he => exact absurd he hfresh
  | cancel _ hqueued => rw [hclaimed] at hqueued; cases hqueued
  | interrupted _ _ _ hqueued => rw [hclaimed] at hqueued; cases hqueued
  | leaseRequeued _ _ _ _ _ _ he => exact absurd he hfresh
  | leaseExhausted _ _ _ _ _ _ he => exact absurd he hfresh

/-- The call admits no dispatch under the id. -/
def Spares (dispatchId : String) (op : MailboxOp) : Prop :=
  ∀ d, op = .enqueue d → d.dispatchId ≠ dispatchId

/-- What an effect leaves of a fenced dispatch. -/
theorem Effect.of_fenced {k : String} {op : MailboxOp} {d' : RunDispatch}
    (h : Effect s k op (s.dispatches.get? k) (some d')) (hspares : Spares k op)
    (hfenced : s.Fenced k) :
    ∃ d, s.dispatches.get? k = some d ∧ Settles d d' ∧ (d' = d ∨ d'.status = .superseded) := by
  generalize hx : s.dispatches.get? k = x at h
  cases h with
  | kept => exact ⟨d', rfl, .inl rfl, .inl rfl⟩
  | admitted d _ _ _ _ hk => exact absurd hk (hspares d rfl)
  | changed _ d _ hchange =>
    rcases hfenced d hx with hterm | ⟨hclaimed, hstale⟩
    · rw [hchange.live] at hterm; cases hterm
    · have hsup := hchange.of_fenced hclaimed hstale
      exact ⟨d, rfl, .inr ⟨hclaimed, hsup⟩, .inr hsup⟩

/-- A fenced dispatch stays fenced. -/
theorem step_fenced {e : MailboxEvent} {k : String} (hs : s.Coherent) (hspares : Spares k e.op)
    (hfenced : s.Fenced k) : (machine.step s e).2.Fenced k := by
  intro d' hd'
  have heffect := step_effect hs e k
  rw [hd'] at heffect
  obtain ⟨d, hd, -, rfl | hsup⟩ := heffect.of_fenced hspares hfenced
  · rcases hfenced d' hd with hterm | ⟨hclaimed, hstale⟩
    · exact .inl hterm
    · exact .inr ⟨hclaimed, UInt64.lt_of_lt_of_le hstale (step_currentEpoch_mono s e hd')⟩
  · exact .inl (by rw [hsup]; rfl)

/-- Over a run that does not reuse its id, a fenced dispatch is never worked on
    and can only settle. -/
theorem run_fenced (k : String) (fs : List MailboxEvent) (hs : s.Coherent)
    (hfenced : s.Fenced k) (hspares : ∀ f ∈ fs, Spares k f.op) :
    (∀ t ∈ machine.trace s fs, worksOn k t.event.op t.reply = false) ∧
      ∀ d', (machine.run s fs).dispatches.get? k = some d' →
        ∃ d, s.dispatches.get? k = some d ∧ Settles d d' := by
  induction fs generalizing s with
  | nil => exact ⟨fun t ht => absurd ht List.not_mem_nil, fun d' hd' => ⟨d', hd', .inl rfl⟩⟩
  | cons f fs ih =>
    have hspare := hspares f List.mem_cons_self
    have hnext := step_fenced hs hspare hfenced
    obtain ⟨hworks, hsettles⟩ :=
      ih (step_coherent s f hs) hnext fun g hg => hspares g (List.mem_cons_of_mem _ hg)
    constructor
    · intro t ht
      rcases List.mem_cons.mp ht with rfl | ht'
      · rw [← Bool.not_eq_true]
        exact fun hworked => hfenced.not_fresh (step_worksOn_fresh hs hworked)
      · exact hworks t ht'
    · intro d' hd'
      obtain ⟨d₁, hd₁, hsettle₁⟩ := hsettles d' hd'
      have heffect := step_effect hs f k
      rw [hd₁] at heffect
      obtain ⟨d, hd, hsettle, -⟩ := heffect.of_fenced hspare hfenced
      refine ⟨d, hd, ?_⟩
      rcases hsettle₁ with hsame₁ | ⟨hclaimed₁, hsup₁⟩
      · rcases hsettle with hsame | ⟨hclaimed, hsup⟩
        · exact .inl (hsame₁.trans hsame)
        · exact .inr ⟨hclaimed, hsame₁.trans hsup⟩
      · rcases hsettle with hsame | ⟨hclaimed, -⟩
        · exact .inr ⟨hsame ▸ hclaimed₁, hsup₁⟩
        · exact .inr ⟨hclaimed, hsup₁⟩

/-! ## The interrupt itself -/

/-- What an interrupt that returned leaves of a dispatch of its thread: the queued
    ones are superseded, the others untouched, and all of them are fenced. -/
theorem interruptDetailed_fences (hs : s.Coherent) {threadId : String} {now : UInt64}
    {details : MailboxInterruptDetails}
    (hok : (interruptDetailed threadId now s).1 = .ok details) {k : String} {d : RunDispatch}
    (hd : s.dispatches.get? k = some d) (hthread : d.threadId = threadId) :
    (interruptDetailed threadId now s).2.Fenced k ∧
      ∃ d', (interruptDetailed threadId now s).2.dispatches.get? k = some d' ∧
        (d.status = .queued → d'.status = .superseded) ∧
        (d.status ≠ .queued → d' = d) := by
  have hepoch := interruptDetailed_currentEpoch s threadId now threadId
  unfold interruptDetailed at hok hepoch ⊢
  simp only [currentEpoch_orInsert] at hok hepoch ⊢
  cases hadd : Outcome.addU64 (s.currentEpoch threadId) 1 with
  | error f => rw [hadd] at hok; cases hok
  | ok newDispatchEpoch =>
    simp only [hadd, if_true] at hok hepoch ⊢
    obtain ⟨visits, hvisits, -⟩ := Method.map_ok hok
    have hle : d.dispatchEpoch ≤ s.currentEpoch threadId := hthread ▸ hs.epoch k d hd
    have hat : (interruptVisits threadId now (s.currentEpoch threadId) _).2.dispatches.get? k =
        some _ := interruptVisits_ok hvisits hd
    rw [interruptVisit_snd] at hat
    have hlt := Outcome.lt_of_addU64_one hadd
    simp only [Method.map_snd] at hepoch ⊢
    by_cases hqueued : d.status = .queued
    · rw [if_pos ⟨hthread, hqueued, hle⟩] at hat
      refine ⟨fun d' hd' => ?_, _, hat, fun _ => rfl, fun hne => absurd hqueued hne⟩
      rw [hat] at hd'
      cases hd'
      exact .inl rfl
    · rw [if_neg fun h => hqueued h.2.1] at hat
      refine ⟨fun d' hd' => ?_, _, hat, fun h => absurd h hqueued, fun _ => rfl⟩
      rw [hat] at hd'
      cases hd'
      cases hterm : d.status.isTerminal with
      | true => exact .inl rfl
      | false =>
        have hclaimed := (RunDispatch.isTerminal_eq_false.mp hterm).resolve_left hqueued
        refine .inr ⟨hclaimed, ?_⟩
        rw [hthread, hepoch]
        exact UInt64.lt_of_le_of_lt hle hlt

/-- Once an interrupt of a thread has returned, no later call works on a dispatch
    the thread had, whatever the calls are, as long as they enqueue under other
    ids: the queued ones are superseded at once, the claimed one stays claimed
    until it is superseded, and the terminal ones keep their status. -/
theorem interrupt_fences_thread (es : List MailboxEvent) (e : MailboxEvent) (threadId : String)
    (now : UInt64)
    (hop : e.op = .interrupt threadId now ∨ e.op = .interruptDetailed threadId now)
    (hreturned : (machine.step (machine.run new es) e).1.isOk = true) (k : String)
    (d : RunDispatch) (hd : (machine.run new es).dispatches.get? k = some d)
    (hthread : d.threadId = threadId) (fs : List MailboxEvent)
    (hfresh : ∀ f ∈ fs, Spares k f.op) :
    (d.status = .queued → ∃ d', (machine.run new (es ++ [e])).dispatches.get? k = some d' ∧
      d'.status = .superseded) ∧
    (∀ t ∈ machine.trace (machine.run new (es ++ [e])) fs,
      worksOn k t.event.op t.reply = false) ∧
    ∀ d', (machine.run new (es ++ e :: fs)).dispatches.get? k = some d' →
      (d.status = .queued → d'.status = .superseded) ∧
      (d.status = .claimed → d'.status = .claimed ∨ d'.status = .superseded) ∧
      (d.status.isTerminal = true → d'.status = d.status) := by
  have hs := run_coherent es
  generalize hstore : machine.run new es = s at hs hreturned hd
  have hstep : machine.run new (es ++ [e]) = (machine.step s e).2 := by
    rw [machine.run_append, hstore]; rfl
  have hlater : machine.run new (es ++ e :: fs) = machine.run (machine.step s e).2 fs := by
    rw [machine.run_append, hstore]; rfl
  rw [hstep, hlater]
  have hdetails : ∃ details, (interruptDetailed threadId now (s.reorder e.order)).1 = .ok details ∧
      (machine.step s e).2 = (interruptDetailed threadId now (s.reorder e.order)).2 := by
    cases hr : (interruptDetailed threadId now (s.reorder e.order)).1 with
    | ok details =>
      refine ⟨details, rfl, ?_⟩
      rcases hop with hop | hop <;> simp only [machine, hop] <;> rfl
    | error f =>
      rcases hop with hop | hop <;>
        simp [machine, hop, call, interrupt, Method.map, hr, Except.map, Outcome.isOk] at hreturned
  obtain ⟨details, hok, hafter⟩ := hdetails
  obtain ⟨hfenced, d₁, hd₁, hqueued, hother⟩ :=
    interruptDetailed_fences (reorder_coherent e.order hs) hok (by simpa using hd) hthread
  rw [← hafter] at hfenced hd₁
  obtain ⟨hworks, hsettles⟩ := run_fenced k fs (step_coherent s e hs) hfenced hfresh
  refine ⟨fun hq => ⟨d₁, hd₁, hqueued hq⟩, hworks, fun d' hd' => ?_⟩
  obtain ⟨d₂, hd₂, hsettle⟩ := hsettles d' hd'
  rw [hd₁] at hd₂
  cases hd₂
  refine ⟨fun hq => ?_, fun hc => ?_, fun ht => ?_⟩
  · rcases hsettle with hsame | ⟨hclaimed, -⟩
    · exact hsame.trans (hqueued hq)
    · rw [hqueued hq] at hclaimed; cases hclaimed
  · have hkept : d₁ = d := hother (by simp [hc])
    subst hkept
    rcases hsettle with hsame | ⟨-, hsup⟩
    · exact .inl (hsame.trans hc)
    · exact .inr hsup
  · have hkept : d₁ = d := hother (by intro hq; rw [hq] at ht; cases ht)
    subst hkept
    rcases hsettle with hsame | ⟨hclaimed, -⟩
    · exact hsame
    · rw [hclaimed] at ht; cases ht

/-- A claim taken before the interrupt cannot be acked after it. -/
theorem interrupt_fences_claimed_dispatch :
    let es : List MailboxEvent :=
      [.inOrder (.enqueue (.queued "d-1" "t" "r-1" 0)),
        .inOrder (.claimDispatch "d-1" "c" 100 0 .token)]
    let e : MailboxEvent := .inOrder (.interrupt "t" 10)
    let fs : List MailboxEvent := [.inOrder (.ack "d-1" "token" 20)]
    let d := (RunDispatch.queued "d-1" "t" "r-1" 0).writeClaimed "c" "token" 100 0
    (∀ t ∈ machine.trace (machine.run new (es ++ [e])) fs,
      worksOn "d-1" t.event.op t.reply = false) ∧
    ∀ d', (machine.run new (es ++ e :: fs)).dispatches.get? "d-1" = some d' →
      (d.status = .queued → d'.status = .superseded) ∧
      (d.status = .claimed → d'.status = .claimed ∨ d'.status = .superseded) ∧
      (d.status.isTerminal = true → d'.status = d.status) := by
  intro es e fs d
  exact (interrupt_fences_thread es e "t" 10 (.inl rfl) (by decide) "d-1" d (by decide) rfl fs
    (by simp [fs, Spares, MailboxEvent.inOrder])).2

end Remo.InMemoryMailboxStore

/-! ## Attempt accounting

One dispatch of the in-memory store is a work item with bounded retry: every step
of a run is a step of the work item, so its counters, hand-outs and end are those
of `BoundedRetry`. Claim holders other than the current one, and all calls on a
terminal dispatch, change nothing.
-/

namespace Remo.InMemoryMailboxStore

open BoundedRetry (Item Label)

variable {s : InMemoryMailboxStore}

/-- One step of a run of the store. -/
abbrev MailboxStep := Machine.Step InMemoryMailboxStore MailboxEvent (Outcome MailboxReply)

/-- Where a dispatch stands for its workers. -/
def phaseOf : RunDispatchStatus → BoundedRetry.Phase
  | .queued => .waiting
  | .claimed => .running
  | .acked | .cancelled | .superseded | .deadLetter => .finished

/-- What a call did to a dispatch that went from one status to another. -/
def labelOf (op : MailboxOp) : RunDispatchStatus → RunDispatchStatus → Label
  | .queued, .claimed => .handOut
  | .claimed, .queued => .retry
  | .claimed, .deadLetter =>
    match op with
    | .deadLetter .. => .finish
    | _ => .exhaust
  | before, after => if !before.isTerminal && after.isTerminal then .finish else .quiet

/-- The status of the dispatch stored under an id. -/
def statusAt (s : InMemoryMailboxStore) (k : String) : Option RunDispatchStatus :=
  (s.dispatches.get? k).map RunDispatch.status

/-- What a step did to the dispatch stored under an id. -/
def stepLabel (k : String) (t : MailboxStep) : Label :=
  match statusAt t.before k, statusAt t.after k with
  | some before, some after => labelOf t.event.op before after
  | _, _ => .quiet

/-- The step is a nack of the dispatch that was accepted. -/
def nackApplied (k : String) (t : MailboxStep) : Bool :=
  match t.event.op with
  | .nack id _ _ _ _ => id == k && t.reply.isOk
  | _ => false

/-- The step is a sweep that took the dispatch back because its lease ran out. -/
def leaseExpiryApplied (k : String) (t : MailboxStep) : Bool :=
  match t.event.op with
  | .reclaimExpiredLeases _ _ => statusAt t.before k == some .claimed &&
      (statusAt t.after k == some .queued || statusAt t.after k == some .deadLetter)
  | _ => false

/-- The step moved the dispatch to a terminal status. -/
def terminates (k : String) (t : MailboxStep) : Bool :=
  (statusAt t.before k).any (!·.isTerminal) && (statusAt t.after k).any (·.isTerminal)

/-- The work item of a record. -/
def itemOf (d : RunDispatch) : Item := ⟨phaseOf d.status, d.attemptCount.toNat⟩

/-- The work item that stands for what is stored under an id. -/
def Tracks (limit : UInt32) : Option RunDispatch → Item → Prop
  | none, i => i.phase = .finished
  | some d, i => d.Identified ∧ d.maxAttempts = limit ∧
      i = itemOf d

theorem phaseOf_of_isTerminal {status : RunDispatchStatus} (h : status.isTerminal = true) :
    phaseOf status = .finished := by
  cases status <;> first | rfl | cases h

theorem saturatingSucc_toNat {n m : UInt32} (h : n < m) :
    (RunDispatch.saturatingSucc n).toNat = n.toNat + 1 := by
  have hlt : n.toNat < m.toNat := UInt32.lt_iff_toNat_lt.mp h
  have hmax := m.toNat_lt
  have hne : n ≠ 0xFFFFFFFF := by
    rintro rfl
    have : (0xFFFFFFFF : UInt32).toNat = 4294967295 := rfl
    omega
  rw [RunDispatch.saturatingSucc, if_neg hne, UInt32.toNat_add]
  simp only [UInt32.toNat_one]
  omega

/-- A change that only ends the dispatch is a finishing step. -/
theorem step_finish {limit : Nat} {op : MailboxOp} {d d' : RunDispatch}
    (hlive : d.status.isTerminal = false) (hterm : d'.status.isTerminal = true)
    (hlabel : labelOf op d.status d'.status = .finish)
    (hcount : d'.attemptCount = d.attemptCount) :
    BoundedRetry.Step limit (itemOf d) (labelOf op d.status d'.status) (itemOf d') := by
  rw [hlabel, itemOf, itemOf, phaseOf_of_isTerminal hterm, hcount]
  refine .finish _ _ ?_
  rcases RunDispatch.isTerminal_eq_false.mp hlive with hs | hs <;> simp [hs, phaseOf]

/-- A change that keeps the dispatch claimed is quiet. -/
theorem step_quiet {limit : Nat} {op : MailboxOp} {d d' : RunDispatch}
    (hclaimed : d.status = .claimed) (hclaimed' : d'.status = .claimed)
    (hcount : d'.attemptCount = d.attemptCount) :
    BoundedRetry.Step limit (itemOf d) (labelOf op d.status d'.status) (itemOf d') := by
  rw [itemOf, itemOf, hclaimed, hclaimed', hcount]
  exact .quiet _

/-- Every change of a dispatch is a step of its work item. -/
theorem Change.step {op : MailboxOp} {d d' : RunDispatch} (h : Change s d op d')
    (hopen : d.attemptCount < d.maxAttempts) :
    BoundedRetry.Step d.maxAttempts.toNat (itemOf d) (labelOf op d.status d'.status)
      (itemOf d') := by
  have hsucc := saturatingSucc_toNat hopen
  cases h with
  | claim _ _ _ _ _ hqueued => rw [itemOf, hqueued]; exact .handOut _
  | claimDispatch _ _ _ _ hqueued => rw [itemOf, hqueued]; exact .handOut _
  | superseded _ _ _ hlive =>
    refine step_finish hlive rfl ?_ rfl
    rcases RunDispatch.isTerminal_eq_false.mp hlive with hs | hs <;> rw [hs] <;> rfl
  | ack _ _ hclaimed =>
    exact step_finish (by rw [hclaimed]; rfl) rfl (by rw [hclaimed]; rfl) rfl
  | recordDispatchStart _ _ _ hclaimed => exact step_quiet hclaimed hclaimed rfl
  | recordRunResult _ _ _ hclaimed => exact step_quiet hclaimed hclaimed rfl
  | extendLease _ _ _ hclaimed => exact step_quiet hclaimed hclaimed rfl
  | deadLetter _ _ _ hclaimed =>
    exact step_finish (by rw [hclaimed]; rfl) rfl (by rw [hclaimed]; rfl) rfl
  | cancel _ hqueued => exact step_finish (by rw [hqueued]; rfl) rfl (by rw [hqueued]; rfl) rfl
  | interrupted _ _ _ hqueued =>
    exact step_finish (by rw [hqueued]; rfl) rfl (by rw [hqueued]; rfl) rfl
  | supersedeClaimed _ _ _ hclaimed =>
    exact step_finish (by rw [hclaimed]; rfl) rfl (by rw [hclaimed]; rfl) rfl
  | nackRequeued token retryAt error now hclaimed _ _ hleft =>
    have hafter : itemOf (d.writeNackRequeued now retryAt error) =
        ⟨.waiting, d.attemptCount.toNat + 1⟩ := by rw [← hsucc]; rfl
    rw [hafter, itemOf, hclaimed]
    exact .retry _ (hsucc ▸ UInt32.lt_iff_toNat_lt.mp hleft)
  | nackExhausted token retryAt error now hclaimed _ _ hused =>
    have hafter : itemOf (d.writeNackExhausted now error) =
        ⟨.finished, d.attemptCount.toNat + 1⟩ := by rw [← hsucc]; rfl
    rw [hafter, itemOf, hclaimed]
    exact .exhaust _ (hsucc ▸ UInt32.le_iff_toNat_le.mp hused)
  | leaseRequeued now limit leaseUntil hclaimed _ _ _ hleft =>
    have hafter : itemOf (d.writeLeaseRequeued now) =
        ⟨.waiting, d.attemptCount.toNat + 1⟩ := by rw [← hsucc]; rfl
    rw [hafter, itemOf, hclaimed]
    exact .retry _ (hsucc ▸ UInt32.lt_iff_toNat_lt.mp hleft)
  | leaseExhausted now limit leaseUntil hclaimed _ _ _ hused =>
    have hafter : itemOf (d.writeLeaseExhausted now
        MailboxState.reasonLeaseExpiredMaxAttempts) =
        ⟨.finished, d.attemptCount.toNat + 1⟩ := by rw [← hsucc]; rfl
    rw [hafter, itemOf, hclaimed]
    exact .exhaust _ (hsucc ▸ UInt32.le_iff_toNat_le.mp hused)

/-! ## Runs as runs of the work item -/

/-- The step a run of the store takes at an event. -/
def stepAt (s : InMemoryMailboxStore) (e : MailboxEvent) : MailboxStep :=
  ⟨s, e, (machine.step s e).1, (machine.step s e).2⟩

theorem labelOf_self (op : MailboxOp) (status : RunDispatchStatus) :
    labelOf op status status = .quiet := by
  cases status <;> rfl

/-- Every step of the store is a step of the work item. -/
theorem step_tracks {limit : UInt32} {i : Item} {k : String} {e : MailboxEvent} (hs : s.Coherent)
    (hspares : Spares k e.op) (htracks : Tracks limit (s.dispatches.get? k) i)
    (hopen : i.Open limit.toNat) :
    ∃ j, Tracks limit ((machine.step s e).2.dispatches.get? k) j ∧
      BoundedRetry.Step limit.toNat i (stepLabel k (stepAt s e)) j := by
  have heffect := step_effect hs e k
  simp only [stepLabel, statusAt, stepAt]
  generalize s.dispatches.get? k = x at heffect htracks ⊢
  generalize (machine.step s e).2.dispatches.get? k = y at heffect ⊢
  obtain ⟨order, op⟩ := e
  cases heffect with
  | kept =>
    refine ⟨i, htracks, ?_⟩
    cases x with
    | none => exact .quiet i
    | some d =>
      simp only [Option.map_some, labelOf_self]
      exact .quiet i
  | admitted d _ _ _ _ hk => exact absurd hk (hspares d rfl)
  | purged d _ hterm =>
    obtain ⟨-, -, rfl⟩ := htracks
    exact ⟨itemOf d, phaseOf_of_isTerminal hterm, .quiet _⟩
  | changed _ d d' hchange =>
    obtain ⟨hid, rfl, rfl⟩ := htracks
    have hlt : d.attemptCount < d.maxAttempts := by
      refine UInt32.lt_iff_toNat_lt.mpr (hopen ?_)
      rcases RunDispatch.isTerminal_eq_false.mp hchange.live with hstatus | hstatus <;>
        simp [itemOf, phaseOf, hstatus]
    exact ⟨itemOf d', ⟨hchange.identified hid (.inl hlt), hchange.sameIdentity.maxAttempts, rfl⟩,
      hchange.step hlt⟩

/-- Every run of the store is a run of the work item. -/
theorem run_tracks {limit : UInt32} {i : Item} {k : String} (es : List MailboxEvent)
    (hs : s.Coherent) (hspares : ∀ e ∈ es, Spares k e.op)
    (htracks : Tracks limit (s.dispatches.get? k) i) (hopen : i.Open limit.toNat) :
    ∃ j, Tracks limit ((machine.run s es).dispatches.get? k) j ∧
      BoundedRetry.Steps limit.toNat i ((machine.trace s es).map (stepLabel k)) j := by
  induction es generalizing s i with
  | nil => exact ⟨i, htracks, .nil i⟩
  | cons e es ih =>
    obtain ⟨j, htracks', hstep⟩ :=
      step_tracks hs (hspares e List.mem_cons_self) htracks hopen
    obtain ⟨j', htracks'', hsteps⟩ := ih (step_coherent s e hs)
      (fun f hf => hspares f (List.mem_cons_of_mem _ hf)) htracks' (hstep.open hopen)
    exact ⟨j', htracks'', .cons hstep hsteps⟩

/-! ## What the labels mean -/

/-- A step that ends the dispatch is an ending step of the work item. -/
theorem isEnd_stepLabel (k : String) (t : MailboxStep) :
    (stepLabel k t).isEnd = terminates k t := by
  unfold stepLabel terminates
  cases statusAt t.before k with
  | none => rfl
  | some before =>
    cases statusAt t.after k with
    | none => simp [Label.isEnd]
    | some after =>
      cases before <;> cases after <;> first
        | rfl
        | (simp only [labelOf]; split <;> rfl)

/-- A step that hands the dispatch out is a hand-out of the work item. -/
theorem stepLabel_of_handsOut {e : MailboxEvent} {k : String} (hs : s.Coherent)
    (h : handsOut k e.op (machine.step s e).1 = true) :
    stepLabel k (stepAt s e) = .handOut := by
  have hs' := reorder_coherent e.order hs
  have hclaimed : ∀ d d', (s.reorder e.order).dispatches.get? k = some d → d.status = .queued →
      (machine.step s e).2.dispatches.get? k = some d' → d'.status = .claimed →
      stepLabel k (stepAt s e) = .handOut := by
    intro d d' hd hqueued hd' hstatus
    rw [reorder_get?] at hd
    simp [stepLabel, stepAt, statusAt, hd, hd', hqueued, hstatus, labelOf]
  obtain ⟨order, op⟩ := e
  cases op with
  | claim threadId consumerId leaseMs now limit token =>
    cases hr : (claim threadId consumerId leaseMs now limit token (s.reorder order)).1 with
    | error f => simp [machine, call, Method.map, Except.map, hr, handsOut] at h
    | ok ds =>
      obtain ⟨d', hd', rfl⟩ : ∃ d' ∈ ds, d'.dispatchId = k := by
        simpa [machine, call, Method.map, Except.map, hr, handsOut] using h
      obtain ⟨d, hd, hqueued, -, -, hwrite, hat⟩ := claim_ok hs' hr hd'
      exact hclaimed d d' hd hqueued hat (by rw [hwrite]; rfl)
  | claimDispatch id consumerId leaseMs now token =>
    cases hr : (claimDispatch id consumerId leaseMs now token (s.reorder order)).1 with
    | error f => simp [machine, call, Method.map, Except.map, hr, handsOut] at h
    | ok x =>
      cases x with
      | none => simp [machine, call, Method.map, Except.map, hr, handsOut] at h
      | some d' =>
        obtain rfl : d'.dispatchId = k := by
          simpa [machine, call, Method.map, Except.map, hr, handsOut] using h
        obtain ⟨d, hd, hid, hqueued, -, hwrite, hat⟩ := claimDispatch_ok hs' hr
        subst hid
        exact hclaimed d d' hd hqueued hat (by rw [hwrite]; rfl)
  | _ => exact absurd h (by simp [handsOut])

/-- A sweep fails an attempt exactly when it takes the dispatch back. -/
theorem isFailure_stepLabel_reclaim (k : String) (t : MailboxStep) {now limit : UInt64}
    (hop : t.event.op = .reclaimExpiredLeases now limit) :
    (stepLabel k t).isFailure = leaseExpiryApplied k t := by
  unfold stepLabel leaseExpiryApplied
  rw [hop]
  cases statusAt t.before k with
  | none => rfl
  | some before =>
    cases statusAt t.after k with
    | none => cases before <;> rfl
    | some after => cases before <;> cases after <;> rfl

/-- A nack that was accepted took the dispatch from its holder and counted the attempt. -/
theorem nack_ok (hs : s.Coherent) {k claimToken : String} {retryAt : UInt64} {error : String}
    {now : UInt64} {r : Unit} (hok : (nack k claimToken retryAt error now s).1 = .ok r) :
    ∃ d, s.dispatches.get? k = some d ∧ d.status = .claimed ∧
      (nack k claimToken retryAt error now s).2.dispatches.get? k =
        some (d.writeNack now retryAt error) := by
  obtain ⟨d, hd, hclaimed, htoken, he, -⟩ := withClaim_ok hs hok
    (fun d => claimToken_of_holdsToken) (by rintro ⟨⟩) (by rintro ⟨⟩) (by rintro _ _ ⟨⟩)
  have howned : holdsToken claimToken d = true := by
    rw [holdsToken, htoken]; exact beq_self_eq_true _
  refine ⟨d, hd, hclaimed, ?_⟩
  rw [nack, withClaim_get?_of_fresh hd howned he, MailboxState.markNackResult, expecting_snd,
    RunDispatch.markNackResult, RunDispatch.transition_snd _ _ hclaimed]

/-- A nack by the holder of a claim that is not stale is accepted when an attempt
    is left. -/
theorem nack_isOk {k claimToken : String} (retryAt : UInt64) (error : String) (now : UInt64)
    {d : RunDispatch} (hd : s.dispatches.get? k = some d) (hclaimed : d.status = .claimed)
    (htoken : d.claimToken = some claimToken) (he : s.currentEpoch d.threadId ≤ d.dispatchEpoch)
    (hid : d.Identified) (hleft : d.HasAttemptLeft) :
    (nack k claimToken retryAt error now s).1 = .ok () := by
  have hvalid := (RunDispatch.writeNack_valid_iff hid now retryAt error).mpr hleft
  rw [nack, withClaim, withDispatch_fst _ _ _ hd]
  simp only [holdsToken, htoken, beq_self_eq_true, Bool.not_true, Bool.false_eq_true, if_false,
    UInt64.not_lt.mpr he, MailboxState.markNackResult, MailboxState.expecting,
    RunDispatch.markNackResult]
  rw [RunDispatch.transition_ok "nack" _ hclaimed hvalid]
  rfl

/-- Only nacks by the holder and sweeps fail an attempt. -/
theorem Change.of_isFailure {op : MailboxOp} {d d' : RunDispatch} (h : Change s d op d')
    (hfail : (labelOf op d.status d'.status).isFailure = true) :
    (∃ claimToken retryAt error now, op = .nack d.dispatchId claimToken retryAt error now ∧
      d.status = .claimed ∧ d.claimToken = some claimToken ∧
      s.currentEpoch d.threadId ≤ d.dispatchEpoch) ∨
    ∃ now limit, op = .reclaimExpiredLeases now limit := by
  cases h with
  | nackRequeued token retryAt error now hclaimed htoken he =>
    exact .inl ⟨token, retryAt, error, now, rfl, hclaimed, htoken, he⟩
  | nackExhausted token retryAt error now hclaimed htoken he =>
    exact .inl ⟨token, retryAt, error, now, rfl, hclaimed, htoken, he⟩
  | leaseRequeued now limit => exact .inr ⟨now, limit, rfl⟩
  | leaseExhausted now limit => exact .inr ⟨now, limit, rfl⟩
  | claim _ _ _ _ _ hqueued => rw [hqueued] at hfail; cases hfail
  | claimDispatch _ _ _ _ hqueued => rw [hqueued] at hfail; cases hfail
  | superseded _ _ _ hlive =>
    rcases RunDispatch.isTerminal_eq_false.mp hlive with hs | hs <;> rw [hs] at hfail <;>
      cases hfail
  | ack _ _ hclaimed => rw [hclaimed] at hfail; cases hfail
  | deadLetter _ _ _ hclaimed => rw [hclaimed] at hfail; cases hfail
  | supersedeClaimed _ _ _ hclaimed => rw [hclaimed] at hfail; cases hfail
  | cancel _ hqueued => rw [hqueued] at hfail; cases hfail
  | interrupted _ _ _ hqueued => rw [hqueued] at hfail; cases hfail
  | recordDispatchStart =>
    change (labelOf _ d.status d.status).isFailure = true at hfail
    rw [labelOf_self] at hfail
    cases hfail
  | recordRunResult =>
    change (labelOf _ d.status d.status).isFailure = true at hfail
    rw [labelOf_self] at hfail
    cases hfail
  | extendLease =>
    change (labelOf _ d.status d.status).isFailure = true at hfail
    rw [labelOf_self] at hfail
    cases hfail

/-- An accepted nack fails an attempt. -/
theorem isFailure_of_nackApplied {k : String} {e : MailboxEvent} (hs : s.Coherent)
    (h : nackApplied k (stepAt s e) = true) : (stepLabel k (stepAt s e)).isFailure = true := by
  obtain ⟨order, op⟩ := e
  cases op with
  | nack id claimToken retryAt error now =>
    simp only [nackApplied, stepAt, Bool.and_eq_true, beq_iff_eq] at h
    obtain ⟨rfl, hreply⟩ := h
    cases hr : (nack id claimToken retryAt error now (s.reorder order)).1 with
    | error f => simp [machine, call, Method.map, Except.map, hr, Outcome.isOk] at hreply
    | ok r =>
      obtain ⟨d, hd, hclaimed, hat⟩ := nack_ok (reorder_coherent order hs) hr
      rw [reorder_get?] at hd
      have hafter : (machine.step s ⟨order, .nack id claimToken retryAt error now⟩).2.dispatches.get?
          id = some (d.writeNack now retryAt error) := hat
      simp only [stepLabel, stepAt, statusAt, hd, hafter, Option.map_some, hclaimed,
        RunDispatch.writeNack_eq]
      split <;> rfl
  | _ => cases h

/-- A failed attempt outside a sweep is an accepted nack. -/
theorem nackApplied_of_isFailure {limit : UInt32} {i : Item} {k : String} {e : MailboxEvent}
    (hs : s.Coherent) (hspares : Spares k e.op) (htracks : Tracks limit (s.dispatches.get? k) i)
    (hopen : i.Open limit.toNat) (hsweep : ∀ now limit, e.op ≠ .reclaimExpiredLeases now limit)
    (hfail : (stepLabel k (stepAt s e)).isFailure = true) :
    nackApplied k (stepAt s e) = true := by
  have heffect := step_effect hs e k
  simp only [stepLabel, statusAt, stepAt] at hfail
  generalize hx : s.dispatches.get? k = x at heffect htracks hfail
  generalize (machine.step s e).2.dispatches.get? k = y at heffect hfail
  obtain ⟨order, op⟩ := e
  cases heffect with
  | kept =>
    cases x with
    | none => cases hfail
    | some d => simp [labelOf_self, Label.isFailure] at hfail
  | admitted d _ _ _ _ hk => exact absurd hk (hspares d rfl)
  | purged => cases hfail
  | changed _ d d' hchange =>
    obtain ⟨hid, rfl, rfl⟩ := htracks
    rcases hchange.of_isFailure hfail with
      ⟨token, retryAt, error, now, rfl, hclaimed, htoken, he⟩ | ⟨now, limit, hop⟩
    · have hlt : d.attemptCount < d.maxAttempts :=
        UInt32.lt_iff_toNat_lt.mpr (hopen (by simp [itemOf, phaseOf, hclaimed]))
      have hkey := hs.keyed k d hx
      have hd : (s.reorder order).dispatches.get? k = some d := by rw [reorder_get?, hx]
      have hreply := nack_isOk retryAt error now hd hclaimed htoken he hid (.inl hlt)
      simp [nackApplied, stepAt, machine, call, Method.map, hreply, Except.map, Outcome.isOk, hkey]
    · exact absurd hop (hsweep now limit)

/-- A step fails an attempt exactly when it is an accepted nack of the dispatch or
    a sweep that takes it back. -/
theorem isFailure_stepLabel {limit : UInt32} {i : Item} {k : String} {e : MailboxEvent}
    (hs : s.Coherent) (hspares : Spares k e.op) (htracks : Tracks limit (s.dispatches.get? k) i)
    (hopen : i.Open limit.toNat) :
    (stepLabel k (stepAt s e)).isFailure =
        (nackApplied k (stepAt s e) || leaseExpiryApplied k (stepAt s e)) ∧
      ¬(nackApplied k (stepAt s e) = true ∧ leaseExpiryApplied k (stepAt s e) = true) := by
  by_cases hsweep : ∃ now limit, e.op = .reclaimExpiredLeases now limit
  · obtain ⟨now, limit, hop⟩ := hsweep
    have hnack : nackApplied k (stepAt s e) = false := by simp [nackApplied, stepAt, hop]
    rw [isFailure_stepLabel_reclaim k (stepAt s e) hop, hnack]
    simp
  · have hexpiry : leaseExpiryApplied k (stepAt s e) = false := by
      unfold leaseExpiryApplied
      split
      · rename_i now limit hop
        exact absurd ⟨now, limit, hop⟩ hsweep
      · rfl
    rw [hexpiry, Bool.or_false]
    refine ⟨Bool.eq_iff_iff.mpr ⟨fun hfail => ?_, isFailure_of_nackApplied hs⟩, by simp⟩
    exact nackApplied_of_isFailure hs hspares htracks hopen
      (fun now limit hop => hsweep ⟨now, limit, hop⟩) hfail

/-! ## Tokens and terminal records -/

/-- A call with a token that is not the current one of a dispatch leaves it alone. -/
theorem step_of_foreign_token {k : String} {e : MailboxEvent} (hs : s.Coherent)
    {dispatchId claimToken : String} (hpresented : e.op.presented = some (dispatchId, claimToken))
    (hforeign : ∀ d, s.dispatches.get? k = some d → d.claimToken ≠ some claimToken) :
    (machine.step s e).2.dispatches.get? k = s.dispatches.get? k := by
  have heffect := step_effect hs e k
  generalize hx : s.dispatches.get? k = x at heffect
  generalize (machine.step s e).2.dispatches.get? k = y at heffect
  obtain ⟨order, op⟩ := e
  cases heffect with
  | kept => rfl
  | admitted => cases hpresented
  | purged => cases hpresented
  | changed _ d _ hchange =>
    exact absurd (hchange.entitled dispatchId claimToken hpresented).2 (hforeign d hx)

/-- A terminal dispatch is only ever purged. -/
theorem step_of_terminal {k : String} {e : MailboxEvent} (hs : s.Coherent)
    (hspares : Spares k e.op) (hpurge : ∀ olderThan, e.op ≠ .purgeTerminal olderThan)
    {d : RunDispatch} (hd : s.dispatches.get? k = some d) (hterm : d.status.isTerminal = true) :
    (machine.step s e).2.dispatches.get? k = some d := by
  have heffect := step_effect hs e k
  rw [hd] at heffect
  generalize (machine.step s e).2.dispatches.get? k = y at heffect ⊢
  obtain ⟨order, op⟩ := e
  cases heffect with
  | kept => rfl
  | admitted d _ _ _ _ hk => exact absurd hk (hspares d rfl)
  | purged _ olderThan => exact absurd rfl (hpurge olderThan)
  | changed _ _ _ hchange => rw [hchange.live] at hterm; cases hterm

/-- The token is not the current one of the dispatch. -/
def Released (s : InMemoryMailboxStore) (k token : String) : Prop :=
  ∀ d, s.dispatches.get? k = some d → d.claimToken ≠ some token

/-- A released token that is not generated again stays released. -/
theorem step_released {k token : String} {e : MailboxEvent} (hs : s.Coherent)
    (hspares : Spares k e.op) (hnew : ∀ t, e.op.generated = some t → t.text ≠ token)
    (h : s.Released k token) : (machine.step s e).2.Released k token := by
  intro d' hd' htoken
  have heffect := step_effect hs e k
  rw [hd'] at heffect
  generalize hx : s.dispatches.get? k = x at heffect
  obtain ⟨order, op⟩ := e
  cases heffect with
  | kept => exact h d' hx htoken
  | admitted d _ _ _ _ hk => exact absurd hk (hspares d rfl)
  | changed _ d _ hchange =>
    rcases hchange.claimToken with hkept | hnone | ⟨t, hgen, hset⟩
    · exact h d hx (hkept ▸ htoken)
    · rw [hnone] at htoken; cases htoken
    · rw [hset] at htoken
      exact hnew t hgen (Option.some.inj htoken)

/-- The tokens the calls of a run generate. -/
def generatedTokens (es : List MailboxEvent) : List String :=
  es.filterMap fun e => e.op.generated.map Uuid.text

/-- Once released, a token has no effect on the dispatch in a run that does not
    generate it again. -/
theorem run_released {k token : String} (es : List MailboxEvent) (hs : s.Coherent)
    (hspares : ∀ e ∈ es, Spares k e.op) (hnew : token ∉ generatedTokens es)
    (h : s.Released k token) :
    ∀ t ∈ machine.trace s es, ∀ dispatchId, t.event.op.presented = some (dispatchId, token) →
      t.after.dispatches.get? k = t.before.dispatches.get? k := by
  refine machine.trace_forall (fun s => s.Coherent ∧ s.Released k token)
    (fun _ e => Spares k e.op ∧ ∀ t, e.op.generated = some t → t.text ≠ token) _
    (fun s e hinv hok => ⟨step_coherent s e hinv.1, step_released hinv.1 hok.1 hok.2 hinv.2⟩)
    (fun s e hinv hok dispatchId hpresented => ?_) ⟨hs, h⟩ es (machine.along_of_forall s ?_)
  · exact step_of_foreign_token hinv.1 hpresented hinv.2
  · refine fun e he => ⟨hspares e he, fun t hgen htext => hnew ?_⟩
    exact List.mem_filterMap.mpr ⟨e, he, by rw [hgen, ← htext]; rfl⟩

/-! ## The account of one dispatch -/

/-- The step labels of a run read off the trace. -/
theorem trace_labels {limit : UInt32} {i : Item} {k : String} (es : List MailboxEvent)
    (hs : s.Coherent) (hspares : ∀ e ∈ es, Spares k e.op)
    (htracks : Tracks limit (s.dispatches.get? k) i) (hopen : i.Open limit.toNat) :
    ∀ t ∈ machine.trace s es,
      (handsOut k t.event.op t.reply = true → (stepLabel k t).isHandOut = true) ∧
      (stepLabel k t).isFailure = (nackApplied k t || leaseExpiryApplied k t) ∧
      ¬(nackApplied k t = true ∧ leaseExpiryApplied k t = true) := by
  refine machine.trace_forall
    (fun s => s.Coherent ∧ ∃ i, Tracks limit (s.dispatches.get? k) i ∧ i.Open limit.toNat)
    (fun _ e => Spares k e.op) _ (fun s e hinv hspare => ?_) (fun s e hinv hspare => ?_)
    ⟨hs, i, htracks, hopen⟩ es (machine.along_of_forall s hspares)
  · obtain ⟨hs, i, htracks, hopen⟩ := hinv
    obtain ⟨j, htracks', hstep⟩ := step_tracks hs hspare htracks hopen
    exact ⟨step_coherent s e hs, j, htracks', hstep.open hopen⟩
  · obtain ⟨hs, i, htracks, hopen⟩ := hinv
    refine ⟨fun hout => ?_, isFailure_stepLabel hs hspare htracks hopen⟩
    have hlabel : stepLabel k (stepAt s e) = .handOut := stepLabel_of_handsOut hs hout
    change (stepLabel k (stepAt s e)).isHandOut = true
    rw [hlabel]
    rfl

/-- The account of a dispatch over a run that starts when it was just enqueued. -/
structure Account (d₀ : RunDispatch) (s₀ : InMemoryMailboxStore) (es : List MailboxEvent) :
    Prop where
  /-- The attempt count is the number of accepted nacks and of lease expiries. -/
  attempts : ∀ d, (machine.run s₀ es).dispatches.get? d₀.dispatchId = some d →
    d.attemptCount.toNat = (machine.trace s₀ es).countP (nackApplied d₀.dispatchId) +
      (machine.trace s₀ es).countP (leaseExpiryApplied d₀.dispatchId)
  /-- The dispatch is handed out at most `max_attempts` times. -/
  handOuts : (machine.trace s₀ es).countP
    (fun t => handsOut d₀.dispatchId t.event.op t.reply) ≤ d₀.maxAttempts.toNat
  /-- At most one call moves it to a terminal status. -/
  ends : (machine.trace s₀ es).countP (terminates d₀.dispatchId) ≤ 1
  /-- A call with a token it does not hold leaves it alone. -/
  foreign : ∀ t ∈ machine.trace s₀ es, ∀ id token, t.event.op.presented = some (id, token) →
    t.before.Released d₀.dispatchId token →
    t.after.dispatches.get? d₀.dispatchId = t.before.dispatches.get? d₀.dispatchId
  /-- Once it is terminal, only a purge touches it. -/
  terminal : ∀ t ∈ machine.trace s₀ es, ∀ d,
    t.before.dispatches.get? d₀.dispatchId = some d → d.status.isTerminal = true →
    (∀ olderThan, t.event.op ≠ .purgeTerminal olderThan) →
    t.after.dispatches.get? d₀.dispatchId = some d
  /-- A token it was handed out with and has released never acts on it again. -/
  released : ∀ p q token, es = p ++ q → token ∈ generatedTokens p →
    (machine.run s₀ p).Released d₀.dispatchId token →
    ∀ t ∈ machine.trace (machine.run s₀ p) q, ∀ id, t.event.op.presented = some (id, token) →
      t.after.dispatches.get? d₀.dispatchId = t.before.dispatches.get? d₀.dispatchId

/-- A dispatch enqueued once, with attempt count 0, is accounted for in every run
    whose generated tokens are distinct. -/
theorem run_accounts (es₁ : List MailboxEvent) (e : MailboxEvent) (es₂ : List MailboxEvent)
    (d₀ : RunDispatch) (hop : e.op = .enqueue d₀)
    (haccepted : (machine.step (machine.run new es₁) e).1.isOk = true)
    (hzero : d₀.attemptCount = 0) (honce : ∀ f ∈ es₂, Spares d₀.dispatchId f.op)
    (htokens : (generatedTokens es₂).Nodup) :
    Account d₀ (machine.run new (es₁ ++ [e])) es₂ := by
  have hs₀ := run_coherent (es₁ ++ [e])
  -- the dispatch starts out as a waiting item without failures
  have hstored : ∃ epoch, d₀.Valid ∧ (machine.run new (es₁ ++ [e])).dispatches.get? d₀.dispatchId =
      some (d₀.prepareForEnqueue epoch) := by
    rw [machine.run_append]
    generalize machine.run new es₁ = s at haccepted
    obtain ⟨order, op⟩ := e
    cases hop
    cases hr : (enqueue d₀ (s.reorder order)).1 with
    | error f =>
      simp [machine, call, Method.map, Except.map, hr, Outcome.isOk] at haccepted
    | ok r =>
      obtain ⟨hvalid, hget⟩ := enqueue_ok hr
      simp only [Machine.run, machine, call, Method.map_snd]
      exact ⟨(s.reorder order).currentEpoch d₀.threadId, hvalid, hget⟩
  obtain ⟨epoch, hvalid, hget⟩ := hstored
  generalize machine.run new (es₁ ++ [e]) = s₀ at hs₀ hget ⊢
  have hitem : itemOf (d₀.prepareForEnqueue epoch) = ⟨.waiting, 0⟩ := by
    change Item.mk .waiting d₀.attemptCount.toNat = _
    rw [hzero]
    rfl
  have htracks : Tracks d₀.maxAttempts (s₀.dispatches.get? d₀.dispatchId) ⟨.waiting, 0⟩ := by
    rw [hget]
    exact ⟨(RunDispatch.prepareForEnqueue_valid hvalid epoch).identified, rfl, hitem.symm⟩
  have hopen : (Item.mk .waiting 0).Open d₀.maxAttempts.toNat := by
    intro _
    have hbudget := hvalid.identified.budget
    have hne : d₀.maxAttempts.toNat ≠ 0 := fun h => hbudget (UInt32.toNat_inj.mp h)
    exact Nat.pos_of_ne_zero hne
  obtain ⟨j, hend, hsteps⟩ := run_tracks es₂ hs₀ honce htracks hopen
  have hlabels := trace_labels es₂ hs₀ honce htracks hopen
  refine ⟨fun d hd => ?_, ?_, ?_, ?_, ?_, ?_⟩
  · have hfailed := hsteps.failed_eq
    rw [hd] at hend
    obtain ⟨-, -, rfl⟩ := hend
    rw [List.countP_map, Nat.zero_add] at hfailed
    rw [List.countP_add_countP _ fun t ht => (hlabels t ht).2]
    exact hfailed
  · have hbound := hsteps.handOuts_le hopen
    rw [List.countP_map] at hbound
    have hcount := List.countP_mono_left (l := machine.trace s₀ es₂)
      (p := fun t => handsOut d₀.dispatchId t.event.op t.reply)
      (q := Label.isHandOut ∘ stepLabel d₀.dispatchId) fun t ht => (hlabels t ht).1
    have hleft : (Item.mk .waiting 0).left d₀.maxAttempts.toNat = d₀.maxAttempts.toNat := rfl
    refine Nat.le_trans hcount ?_
    omega
  · have hends := hsteps.ends_le
    rw [List.countP_map] at hends
    have hcount : (machine.trace s₀ es₂).countP (Label.isEnd ∘ stepLabel d₀.dispatchId) =
        (machine.trace s₀ es₂).countP (terminates d₀.dispatchId) :=
      List.countP_congr fun t _ => by rw [Function.comp_apply, isEnd_stepLabel]
    have hone : (Item.mk .waiting 0).endsLeft = 1 := rfl
    omega
  · refine machine.trace_forall Coherent (fun _ _ => True) _ (fun s e hs _ => step_coherent s e hs)
      (fun s e hs _ id token hpresented hrel => ?_) hs₀ es₂
      (machine.along_of_forall s₀ fun _ _ => trivial)
    exact step_of_foreign_token hs hpresented hrel
  · refine machine.trace_forall Coherent (fun _ e => Spares d₀.dispatchId e.op) _
      (fun s e hs _ => step_coherent s e hs) (fun s e hs hspare d hd hterm hpurge => ?_) hs₀ es₂
      (machine.along_of_forall s₀ honce)
    exact step_of_terminal hs hspare hpurge hd hterm
  · rintro p q token rfl hgen hrel
    have hsplit : generatedTokens (p ++ q) = generatedTokens p ++ generatedTokens q :=
      List.filterMap_append
    rw [hsplit] at htokens
    have hnew : token ∉ generatedTokens q := fun h =>
      (List.disjoint_of_nodup_append htokens) hgen h
    have hsp : (machine.run s₀ p).Coherent := machine.run_invariant Coherent step_coherent hs₀ p
    exact run_released q hsp (fun f hf => honce f (List.mem_append_right p hf)) hnew hrel

/-- A dispatch that is claimed, nacked and claimed again is accounted for. -/
theorem run_accounts_of_retry :
    Account (.queued "d-1" "t" "r-1" 0)
      (machine.run new [.inOrder (.enqueue (.queued "d-1" "t" "r-1" 0))])
      [.inOrder (.claimDispatch "d-1" "c" 100 0 .firstToken),
        .inOrder (.nack "d-1" "token-1" 5 "failed" 1),
        .inOrder (.claimDispatch "d-1" "c" 100 5 .secondToken)] :=
  run_accounts [] (.inOrder (.enqueue (.queued "d-1" "t" "r-1" 0))) _ (.queued "d-1" "t" "r-1" 0)
    rfl (by decide) rfl (by simp [Spares, MailboxEvent.inOrder]) (by decide)

end Remo.InMemoryMailboxStore
