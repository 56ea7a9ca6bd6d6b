import Remo.Spec.Engine.BreakerRuns
import Mathlib.Algebra.GroupWithZero.Nat

/-!
# What a circuit breaker admits

Once the circuit of a model has opened, every elapsed cooldown buys at most as many requests as
a half-open circuit may probe with, until a success closes the circuit. The peek agrees with the
check, and a circuit whose requests record their outcomes admits again after a cooldown.

## Key results

- `circuitBreaker`: the laws of admission
- `lateSuccess_admits`: a success from before the opening lifts the bound
-/

namespace Remo.BreakerRun

/-! ## The laws -/

/-- How many requests to the model the calls admit. -/
def admissions (model : String) (s : BreakerRun) (events : List BreakerEvent) : Nat :=
  (machine.trace s events).countP (admits model)

/-- The time the calls take. -/
def duration (events : List BreakerEvent) : Nat := (events.map BreakerEvent.elapsed).sum

/-- The steps record the success of a request to the model. -/
def RecordsSuccess (model : String) (steps : List Step) : Prop :=
  ∃ t ∈ steps, succeeds model t = true

/-- The steps admit a request to the model and record its success. -/
def RecordsProbeSuccess (model : String) (steps : List Step) : Prop :=
  ∃ t u, [t, u].Sublist steps ∧ admits model t = true ∧ succeeds model u = true ∧
    u.event.request = t.event.request

/-- From the opening of a circuit until its end, every elapsed cooldown buys one round of
    probes. -/
def AdmitsPerCooldown (config : CircuitBreakerConfig)
    (ended : String → List Step → Prop) : Prop :=
  ∀ (model : String) (before : List BreakerEvent) (opening : BreakerEvent)
    (after : List BreakerEvent),
    Opens model (machine.run (start config) before) opening →
      ¬ ended model (machine.trace (machine.run (start config) (before ++ [opening])) after) →
        ∃ cooldowns, cooldowns * config.cooldown ≤ duration after ∧
          admissions model (machine.run (start config) (before ++ [opening])) after ≤
            cooldowns * config.halfOpenMax.toNat

/-- From the opening of a circuit until a success, calls made within less than a cooldown are
    admitted once round the probes at most. -/
def AdmitsWithinCooldown (config : CircuitBreakerConfig) : Prop :=
  ∀ (model : String) (before : List BreakerEvent) (opening : BreakerEvent)
    (early : List BreakerEvent) (first : BreakerEvent) (late : List BreakerEvent),
    Opens model (machine.run (start config) before) opening →
      ¬ RecordsSuccess model (machine.trace (machine.run (start config) (before ++ [opening]))
        (early ++ first :: late)) →
        duration late < config.cooldown →
          admissions model (machine.run (start config) (before ++ [opening] ++ early))
            (first :: late) ≤ config.halfOpenMax.toNat

/-- The peek tells what the check would do at the instant. -/
def PeekAgrees (b : CircuitBreaker) : Prop :=
  ∀ model now, b.isAvailable model now = true ↔ (b.check model now).1 = .ok ()

/-- The breaker admits a request to the model after any wait of a cooldown or more. -/
def AdmitsAfterCooldown (model : String) (s : BreakerRun) : Prop :=
  ∀ wait, s.breaker.config.cooldown ≤ wait → (s.breaker.check model (s.now + wait)).1 = .ok ()

/-- Every request to the model that the calls admit records an outcome, in them or in the calls
    that follow. -/
def OutcomesRecorded (model : String) (s : BreakerRun) (events more : List BreakerEvent) : Prop :=
  ∀ pre t post, machine.trace s events = pre ++ t :: post → admits model t = true →
    ∃ u ∈ post ++ machine.trace (machine.run s events) more,
      records model t.event.request u = true

/-- At every point of a run, if the requests admitted so far record their outcomes, the breaker
    comes to admit requests after a cooldown again. -/
def Recovers (config : CircuitBreakerConfig) : Prop :=
  ∀ model events more, OutcomesRecorded model (start config) events more →
    ∃ soon later, more = soon ++ later ∧
      AdmitsAfterCooldown model (machine.run (start config) (events ++ soon))

/-- The laws of admission. -/
structure Governs (config : CircuitBreakerConfig) : Prop where
  perCooldown : AdmitsPerCooldown config RecordsSuccess
  withinCooldown : AdmitsWithinCooldown config
  peek : ∀ b, PeekAgrees b
  recovers : Recovers config

variable {s : BreakerRun} {e : BreakerEvent} {model : String} {st : CircuitState}
variable {config : CircuitBreakerConfig}

/-! ## Probes since the opening -/

/-- What the requests admitted since the circuit opened have cost. -/
inductive Paid (config : CircuitBreakerConfig) (opened count now : Nat) (st : CircuitState) :
    Prop where
  | opened (status : st.status = .opened) (late : opened ≤ st.lastFailure)
      (past : st.lastFailure ≤ now) (cooldowns : Nat)
      (elapsed : cooldowns * config.cooldown ≤ st.lastFailure - opened)
      (bound : count ≤ cooldowns * config.halfOpenMax.toNat)
  | halfOpen (status : st.status = .halfOpen)
      (limit : st.halfOpenAttempts.toNat ≤ config.halfOpenMax.toNat)
      (past : st.lastFailure ≤ now) (cooldowns : Nat)
      (elapsed : (cooldowns + 1) * config.cooldown ≤ now - opened)
      (bound : count ≤ cooldowns * config.halfOpenMax.toNat + st.halfOpenAttempts.toNat)

/-- What `Paid` says about the circuit of a model. -/
def PaidBy (config : CircuitBreakerConfig) (model : String) (opened count : Nat)
    (s : BreakerRun) : Prop :=
  s.breaker.config = config ∧ opened ≤ s.now ∧
    ∃ st, s.circuit model = some st ∧ Paid config opened count s.now st

theorem toNat_attempts_succ {attempts limit : UInt32} (h : attempts < limit) :
    (attempts + 1).toNat = attempts.toNat + 1 := by
  have hlt := UInt32.lt_iff_toNat_lt.mp h
  have hmax := limit.toNat_lt
  rw [UInt32.toNat_add]
  have hone : (1 : UInt32).toNat = 1 := rfl
  rw [hone, Nat.mod_eq_of_lt (by omega)]

theorem paidBy_step (hmax : 1 ≤ config.halfOpenMax.toNat) {opened count : Nat}
    (h : PaidBy config model opened count s) (hsuccess : succeeds model (stepOf s e) = false) :
    PaidBy config model opened (count + if admits model (stepOf s e) then 1 else 0)
      (machine.step s e).2 := by
  obtain ⟨hconfig, hnow, st, hst, hpaid⟩ := h
  refine ⟨by rw [config_step, hconfig], by rw [now_step]; omega, ?_⟩
  rw [now_step]
  cases hpaid with
  | opened status late past cooldowns elapsed bound =>
    obtain ⟨st', hst', hcase⟩ := step_opened hst status hsuccess
    refine ⟨st', hst', ?_⟩
    cases hcase with
    | inl h =>
      obtain ⟨hadmits, hstatus, hlast⟩ := h
      rw [hadmits]
      have hkept : opened ≤ st'.lastFailure ∧ st'.lastFailure ≤ s.now + e.elapsed ∧
          st.lastFailure ≤ st'.lastFailure := by omega
      exact .opened hstatus hkept.1 hkept.2.1 cooldowns (by omega) bound
    | inr h =>
      obtain ⟨hadmits, hcool, hstatus, hattempts, hlast⟩ := h
      rw [hadmits, if_pos rfl]
      rw [hconfig] at hcool
      have hone : st'.halfOpenAttempts.toNat = 1 := by
        rw [hattempts]
        rfl
      apply Paid.halfOpen hstatus (by omega) (by omega) cooldowns
      · rw [Nat.succ_mul]
        omega
      · omega
  | halfOpen status limit past cooldowns elapsed bound =>
    obtain ⟨st', hst', hcase⟩ := step_halfOpen hst status hsuccess
    refine ⟨st', hst', ?_⟩
    rcases hcase with ⟨hadmits, rfl⟩ | ⟨hadmits, hlt, hstatus, hattempts, hlast⟩ |
      ⟨hadmits, hstatus, hlast⟩
    · rw [hadmits]
      exact .halfOpen status limit (by omega) cooldowns (by omega) bound
    · rw [hadmits, if_pos rfl]
      rw [hconfig] at hlt
      have hnext : st'.halfOpenAttempts.toNat = st.halfOpenAttempts.toNat + 1 := by
        rw [hattempts, toNat_attempts_succ hlt]
      have hroom := UInt32.lt_iff_toNat_lt.mp hlt
      exact .halfOpen hstatus (by omega) (by omega) cooldowns (by omega) (by omega)
    · rw [hadmits]
      -- the round of probes is over and its cooldown is paid
      have hround : cooldowns * config.halfOpenMax.toNat + st.halfOpenAttempts.toNat ≤
          (cooldowns + 1) * config.halfOpenMax.toNat := by
        rw [Nat.succ_mul]
        omega
      apply Paid.opened hstatus (by omega) (by omega) (cooldowns + 1)
      · omega
      · simp only [Bool.false_eq_true, if_false]
        omega

/-- No step of the trace succeeds. -/
theorem along_of_not_success {events : List BreakerEvent}
    (h : ¬ RecordsSuccess model (machine.trace s events)) :
    machine.Along (fun s e => succeeds model (stepOf s e) = false) s events := by
  induction events generalizing s with
  | nil => trivial
  | cons e events ih =>
    have hnone : ∀ t ∈ machine.trace s (e :: events), succeeds model t = false := by
      intro t ht
      cases hsucceeds : succeeds model t with
      | false => rfl
      | true => exact absurd ⟨t, ht, hsucceeds⟩ h
    constructor
    · exact hnone (stepOf s e) List.mem_cons_self
    · apply ih
      intro hlater
      obtain ⟨t, ht, hsucceeds⟩ := hlater
      rw [hnone t (List.mem_cons_of_mem _ ht)] at hsucceeds
      cases hsucceeds

@[simp] theorem now_run (events : List BreakerEvent) :
    (machine.run s events).now = s.now + duration events := by
  induction events generalizing s with
  | nil => rfl
  | cons e events ih =>
    show (machine.run (machine.step s e).2 events).now = _
    rw [ih, now_step]
    simp only [duration, List.map_cons, List.sum_cons]
    omega

@[simp] theorem config_run (events : List BreakerEvent) :
    (machine.run s events).breaker.config = s.breaker.config := by
  induction events generalizing s with
  | nil => rfl
  | cons e events ih =>
    show (machine.run (machine.step s e).2 events).breaker.config = _
    rw [ih, config_step]

/-- Nothing is owed when the circuit opens. -/
theorem paidBy_opening (before : List BreakerEvent) {opening : BreakerEvent}
    (h : Opens model (machine.run (start config) before) opening) :
    PaidBy config model (machine.run (start config) (before ++ [opening])).now 0
      (machine.run (start config) (before ++ [opening])) := by
  have hrun : machine.run (start config) (before ++ [opening]) =
      (machine.step (machine.run (start config) before) opening).2 := by
    rw [Machine.run_append]
    rfl
  obtain ⟨st', hst', hstatus, hlast⟩ := opens_circuit h
  refine ⟨by rw [config_run]; rfl, le_refl _, st', by rw [hrun, hst'], ?_⟩
  rw [hrun, now_step]
  exact .opened hstatus (by omega) (by omega) 0 (by omega) (by omega)

theorem paidBy_run (hmax : 1 ≤ config.halfOpenMax.toNat) {opened : Nat}
    (h : PaidBy config model opened 0 s) {events : List BreakerEvent}
    (hsuccess : ¬ RecordsSuccess model (machine.trace s events)) :
    PaidBy config model opened (admissions model s events) (machine.run s events) := by
  have hcount := machine.countP_trace_invariant (admits model) (PaidBy config model opened)
    (fun s e => succeeds model (stepOf s e) = false)
    (fun _ _ _ hpaid hok => paidBy_step hmax hpaid hok) h events
    (along_of_not_success hsuccess)
  rw [Nat.zero_add] at hcount
  exact hcount

theorem admitsPerCooldown (hmax : 1 ≤ config.halfOpenMax.toNat) :
    AdmitsPerCooldown config RecordsSuccess := by
  intro model before opening after hopens hsuccess
  have hpaid := paidBy_run hmax (paidBy_opening before hopens) hsuccess
  obtain ⟨-, -, st, -, hst⟩ := hpaid
  have hnow := now_run (s := machine.run (start config) (before ++ [opening])) after
  cases hst with
  | opened status late past cooldowns elapsed bound => exact ⟨cooldowns, by omega, bound⟩
  | halfOpen status limit past cooldowns elapsed bound =>
    refine ⟨cooldowns + 1, by omega, ?_⟩
    rw [Nat.succ_mul]
    omega

/-! ## Probes within a cooldown -/

/-- What the calls since the instant `first` were admitted from. -/
inductive Window (config : CircuitBreakerConfig) (first count now : Nat) (st : CircuitState) :
    Prop where
  | opened (status : st.status = .opened) (past : st.lastFailure ≤ now)
      (fresh : count = 0 ∨ first ≤ st.lastFailure ∧ count ≤ config.halfOpenMax.toNat)
  | halfOpen (status : st.status = .halfOpen) (past : st.lastFailure ≤ now)
      (bound : count ≤ st.halfOpenAttempts.toNat)
      (limit : st.halfOpenAttempts.toNat ≤ config.halfOpenMax.toNat)

/-- What `Window` says about the circuit of a model. -/
def WindowBy (config : CircuitBreakerConfig) (model : String) (first count : Nat)
    (s : BreakerRun) : Prop :=
  s.breaker.config = config ∧ ∃ st, s.circuit model = some st ∧ Window config first count s.now st

/-- The call comes less than a cooldown after the instant `first`. -/
def Soon (config : CircuitBreakerConfig) (first : Nat) (s : BreakerRun) (e : BreakerEvent) :
    Prop :=
  first ≤ s.now + e.elapsed ∧ s.now + e.elapsed < first + config.cooldown

theorem windowBy_step (hmax : 1 ≤ config.halfOpenMax.toNat) {first count : Nat}
    (h : WindowBy config model first count s) (hsuccess : succeeds model (stepOf s e) = false)
    (hsoon : Soon config first s e) :
    WindowBy config model first (count + if admits model (stepOf s e) then 1 else 0)
      (machine.step s e).2 := by
  obtain ⟨hconfig, st, hst, hwindow⟩ := h
  obtain ⟨hlate, hbefore⟩ := hsoon
  refine ⟨by rw [config_step, hconfig], ?_⟩
  rw [now_step]
  cases hwindow with
  | opened status past fresh =>
    obtain ⟨st', hst', hcase⟩ := step_opened hst status hsuccess
    refine ⟨st', hst', ?_⟩
    cases hcase with
    | inl h =>
      obtain ⟨hadmits, hstatus, hlast⟩ := h
      rw [hadmits]
      simp only [Bool.false_eq_true, if_false]
      exact .opened hstatus (by omega) (by omega)
    | inr h =>
      obtain ⟨hadmits, hcool, hstatus, hattempts, hlast⟩ := h
      rw [hadmits, if_pos rfl]
      rw [hconfig] at hcool
      have hone : st'.halfOpenAttempts.toNat = 1 := by
        rw [hattempts]
        rfl
      -- a circuit that opened since would still be cooling down
      exact .halfOpen hstatus (by omega) (by omega) (by omega)
  | halfOpen status past bound limit =>
    obtain ⟨st', hst', hcase⟩ := step_halfOpen hst status hsuccess
    refine ⟨st', hst', ?_⟩
    rcases hcase with ⟨hadmits, rfl⟩ | ⟨hadmits, hlt, hstatus, hattempts, hlast⟩ |
      ⟨hadmits, hstatus, hlast⟩
    · rw [hadmits]
      exact .halfOpen status (by omega) bound limit
    · rw [hadmits, if_pos rfl]
      rw [hconfig] at hlt
      have hnext : st'.halfOpenAttempts.toNat = st.halfOpenAttempts.toNat + 1 := by
        rw [hattempts, toNat_attempts_succ hlt]
      have hroom := UInt32.lt_iff_toNat_lt.mp hlt
      exact .halfOpen hstatus (by omega) (by omega) (by omega)
    · rw [hadmits]
      simp only [Bool.false_eq_true, if_false]
      exact .opened hstatus (by omega) (Or.inr ⟨by omega, by omega⟩)

theorem along_soon {first : Nat} {events : List BreakerEvent} (hfirst : first ≤ s.now)
    (hlast : s.now + duration events < first + config.cooldown) :
    machine.Along (Soon config first) s events := by
  induction events generalizing s with
  | nil => trivial
  | cons e events ih =>
    have hsum : duration (e :: events) = e.elapsed + duration events := by
      simp only [duration, List.map_cons, List.sum_cons]
    constructor
    · exact ⟨by omega, by omega⟩
    · apply ih
      · rw [now_step]
        omega
      · rw [now_step]
        omega

theorem admitsWithinCooldown (hmax : 1 ≤ config.halfOpenMax.toNat) :
    AdmitsWithinCooldown config := by
  intro model before opening early first late hopens hsuccess hlate
  rw [Machine.run_append _ _ _ early]
  rw [Machine.trace_append] at hsuccess
  have hearly : ¬ RecordsSuccess model
      (machine.trace (machine.run (start config) (before ++ [opening])) early) := by
    intro h
    obtain ⟨t, ht, hsucceeds⟩ := h
    exact hsuccess ⟨t, List.mem_append_left _ ht, hsucceeds⟩
  have hrest : ¬ RecordsSuccess model (machine.trace (machine.run
      (machine.run (start config) (before ++ [opening])) early) (first :: late)) := by
    intro h
    obtain ⟨t, ht, hsucceeds⟩ := h
    exact hsuccess ⟨t, List.mem_append_right _ ht, hsucceeds⟩
  have hpaid := paidBy_run hmax (paidBy_opening before hopens) hearly
  generalize machine.run (machine.run (start config) (before ++ [opening])) early = s
    at hrest hpaid ⊢
  obtain ⟨hconfig, -, st, hst, hpaid⟩ := hpaid
  have hwindow : WindowBy config model (s.now + first.elapsed) 0 s := by
    refine ⟨hconfig, st, hst, ?_⟩
    cases hpaid with
    | opened status late past cooldowns elapsed bound => exact .opened status past (Or.inl rfl)
    | halfOpen status limit past cooldowns elapsed bound =>
      exact .halfOpen status past (by omega) limit
  have hsoon : machine.Along (Soon config (s.now + first.elapsed)) s (first :: late) := by
    constructor
    · exact ⟨by omega, by omega⟩
    · apply along_soon
      · rw [now_step]
      · rw [now_step]
        omega
  have hcount := machine.countP_trace_invariant (admits model)
    (WindowBy config model (s.now + first.elapsed))
    (fun s e => succeeds model (stepOf s e) = false ∧ Soon config _ s e)
    (fun _ _ _ hwindow hok => windowBy_step hmax hwindow hok.1 hok.2) hwindow (first :: late)
    ((along_of_not_success hrest).and hsoon)
  rw [Nat.zero_add] at hcount
  obtain ⟨-, st', -, hend⟩ := hcount
  show (machine.trace s (first :: late)).countP (admits model) ≤ _
  cases hend with
  | opened status past fresh => omega
  | halfOpen status past bound limit => omega

/-! ## The peek -/

theorem peekAgrees (b : CircuitBreaker) : PeekAgrees b := by
  intro model now
  show b.isAvailable model now = true ↔
    ((b.stateOrNew model now).check b.config model now).1 = .ok ()
  unfold CircuitBreaker.isAvailable CircuitBreaker.stateOrNew
  cases b.states.get? model with
  | none =>
    have hnew : (CircuitState.new now).check b.config model now = (.ok (), .new now) :=
      CircuitState.check_closed rfl
    simp [hnew]
  | some st => exact st.isAvailable_iff b.config model now

/-! ## Recovery -/

/-- A circuit that is not half open admits requests after a cooldown. -/
theorem admitsAfterCooldown (hpast : s.Past)
    (h : ∀ st, s.circuit model = some st → st.status ≠ .halfOpen) :
    AdmitsAfterCooldown model s := by
  intro wait hwait
  show ((s.breaker.stateOrNew model (s.now + wait)).check s.breaker.config model
    (s.now + wait)).1 = .ok ()
  unfold CircuitBreaker.stateOrNew
  cases hcircuit : s.breaker.states.get? model with
  | none =>
    have hnew : (CircuitState.new (s.now + wait)).check s.breaker.config model (s.now + wait) =
        (.ok (), .new (s.now + wait)) := CircuitState.check_closed rfl
    rw [Option.getD_none, hnew]
  | some st =>
    have hlast := hpast model st hcircuit
    rw [Option.getD_some]
    cases hstatus : st.status with
    | closed => rw [CircuitState.check_closed hstatus]
    | halfOpen => exact absurd hstatus (h st hcircuit)
    | opened =>
      have hcool : s.breaker.config.cooldown ≤ st.elapsed (s.now + wait) := by
        unfold CircuitState.elapsed
        omega
      simp only [CircuitState.check, hstatus, if_pos hcool]

/-- A half-open circuit has admitted a request that has recorded no outcome since. -/
theorem pendingProbe {events : List BreakerEvent}
    (hst : (machine.run (start config) events).circuit model = some st)
    (hstatus : st.status = .halfOpen) :
    ∃ pre t post, machine.trace (start config) events = pre ++ t :: post ∧
      admits model t = true ∧ ∀ u ∈ post, ∀ request, records model request u = false := by
  induction events using List.reverseRecOn generalizing st with
  | nil => cases hst
  | append_singleton events e ih =>
    have htrace : machine.trace (start config) (events ++ [e]) =
        machine.trace (start config) events ++ [stepOf (machine.run (start config) events) e] := by
      rw [Machine.trace_append]
      rfl
    rw [Machine.run_append] at hst
    rw [htrace]
    cases halfOpen_origin hst hstatus with
    | inl hadmits =>
      refine ⟨machine.trace (start config) events, stepOf _ e, [], rfl, hadmits, ?_⟩
      intro u hu
      cases hu
    | inr hbefore =>
      obtain ⟨st₀, hst₀, hstatus₀⟩ := hbefore
      obtain ⟨pre, t, post, heq, hadmits, hpost⟩ := ih hst₀ hstatus₀
      refine ⟨pre, t, post ++ [stepOf (machine.run (start config) events) e], ?_, hadmits, ?_⟩
      · rw [heq, List.append_assoc, List.cons_append]
      · intro u hu request
        cases List.mem_append.mp hu with
        | inl hu => exact hpost u hu request
        | inr hu =>
          rw [List.mem_singleton.mp hu]
          cases hrecords : records model request (stepOf (machine.run (start config) events) e) with
          | false => rfl
          | true => exact absurd hstatus (records_not_halfOpen hrecords hst)

theorem recovers (config : CircuitBreakerConfig) : Recovers config := by
  intro model events more houtcomes
  have hdone : ∀ es : List BreakerEvent,
      (∀ st, (machine.run (start config) es).circuit model = some st →
        st.status ≠ .halfOpen) →
        AdmitsAfterCooldown model (machine.run (start config) es) :=
    fun es h => admitsAfterCooldown (past_run config es) h
  by_cases hhalf : ∃ st, (machine.run (start config) events).circuit model = some st ∧
      st.status = .halfOpen
  · obtain ⟨st, hst, hstatus⟩ := hhalf
    obtain ⟨pre, t, post, htrace, hadmits, hpost⟩ := pendingProbe hst hstatus
    obtain ⟨u, hu, hrecords⟩ := houtcomes pre t post htrace hadmits
    cases List.mem_append.mp hu with
    | inl hu =>
      rw [hpost u hu] at hrecords
      cases hrecords
    | inr hu =>
      -- the outcome of the last probe comes later
      obtain ⟨soon, later, hmore, hbefore, hreply, hafter⟩ := machine.mem_trace hu
      refine ⟨soon ++ [u.event], later, by rw [hmore]; simp, ?_⟩
      apply hdone
      have hrun : machine.run (start config) (events ++ (soon ++ [u.event])) =
          (machine.step u.before u.event).2 := by
        rw [Machine.run_append, Machine.run_append, ← hbefore]
        rfl
      have hstep : u = stepOf u.before u.event := by
        cases u
        simp only [stepOf, Machine.Step.mk.injEq, true_and]
        exact ⟨hreply, hafter⟩
      rw [hstep] at hrecords
      intro st' hst'
      rw [hrun] at hst'
      exact records_not_halfOpen hrecords hst'
  · refine ⟨[], more, rfl, ?_⟩
    rw [List.append_nil]
    apply hdone
    intro st hst hstatus
    exact hhalf ⟨st, hst, hstatus⟩

/-! ## The result -/

/-- The breaker with at least one probe per round. -/
theorem circuitBreaker (config : CircuitBreakerConfig) (hmax : 1 ≤ config.halfOpenMax) :
    Governs config where
  perCooldown := admitsPerCooldown (UInt32.le_iff_toNat_le.mp hmax)
  withinCooldown := admitsWithinCooldown (UInt32.le_iff_toNat_le.mp hmax)
  peek := peekAgrees
  recovers := recovers config

/-- The default configuration. -/
theorem circuitBreaker_default : Governs ⟨5, 30000, 1⟩ :=
  circuitBreaker ⟨5, 30000, 1⟩ (by decide)

/-- Two requests are admitted, one opens the circuit, the other one's success closes it, and
    another is admitted at the same instant. -/
theorem lateSuccess_admits : ¬ AdmitsPerCooldown ⟨1, 10, 1⟩ RecordsProbeSuccess := by
  intro h
  have hopens : Opens "m" (machine.run (start ⟨1, 10, 1⟩)
      [⟨0, 1, "m", .check⟩, ⟨0, 2, "m", .check⟩]) ⟨0, 1, "m", .recordFailure⟩ :=
    ⟨by decide, by decide⟩
  have hended : ¬ RecordsProbeSuccess "m" (machine.trace (machine.run (start ⟨1, 10, 1⟩)
      ([⟨0, 1, "m", .check⟩, ⟨0, 2, "m", .check⟩] ++ [⟨0, 1, "m", .recordFailure⟩]))
      [⟨0, 2, "m", .recordSuccess⟩, ⟨0, 3, "m", .check⟩]) := by
    intro hended
    obtain ⟨t, u, hsub, hadmits, -⟩ := hended
    -- the first of the two steps would have to admit a request
    have hpair := hsub.eq_of_length rfl
    rw [(List.cons.inj hpair).1] at hadmits
    revert hadmits
    decide +kernel
  obtain ⟨cooldowns, hcost, hbound⟩ := h "m" _ _ _ hopens hended
  have hnone : cooldowns = 0 := by
    have hzero : cooldowns * 10 ≤ 0 := hcost
    omega
  rw [hnone] at hbound
  revert hbound
  decide +kernel

end Remo.BreakerRun
