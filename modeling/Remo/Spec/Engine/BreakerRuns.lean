import Remo.ForStd.Machine
import Remo.Native.Engine.CircuitBreaker

/-!
# Runs of a circuit breaker

Calls for requests to any models come in any order, each some time after the one before it. The
circuit of a model sees the calls for that model only.

## Key results

- `step_opened`, `step_halfOpen`: what a call does to a circuit that is not closed
- `opens_cell`: a circuit opens with the cooldown ahead of it
-/

namespace Remo

inductive BreakerCall where
  | check
  | recordSuccess
  | recordFailure
  | recordAbandonedProbe
deriving Repr, DecidableEq

/-- A call made for a request to a model, some time after the call before it. -/
structure BreakerEvent where
  elapsed : Nat
  request : Nat
  model : String
  call : BreakerCall
deriving Repr, DecidableEq

inductive BreakerReply where
  | admitted
  | refused (message : String)
  | recorded
  | panicked
deriving Repr, DecidableEq

def BreakerReply.ofCheck : Except String Unit → BreakerReply
  | .ok _ => .admitted
  | .error message => .refused message

def BreakerReply.ofRecord : Except Panic Unit → BreakerReply
  | .ok _ => .recorded
  | .error _ => .panicked

/-- A breaker and the clock at the last call. -/
structure BreakerRun where
  breaker : CircuitBreaker
  now : Nat

namespace CircuitState

variable {st : CircuitState} {config : CircuitBreakerConfig} {model : String} {now : Nat}

/-! ## One circuit -/

theorem recordFailure_lastFailure : (st.recordFailure config now).lastFailure = now := by
  unfold recordFailure
  dsimp only
  split
  · rfl
  · split <;> rfl

/-- After a failure the circuit is open, or as it was before. -/
theorem recordFailure_status :
    (st.recordFailure config now).status = .opened ∨
      st.status ≠ .halfOpen ∧ (st.recordFailure config now).status = st.status := by
  unfold recordFailure
  dsimp only
  split
  · exact Or.inl rfl
  · rename_i hstatus
    split
    · exact Or.inl rfl
    · exact Or.inr ⟨hstatus, rfl⟩

theorem recordAbandonedProbe_of_halfOpen (h : st.status = .halfOpen) :
    (st.recordAbandonedProbe now).status = .opened ∧
      (st.recordAbandonedProbe now).lastFailure = now := by
  unfold recordAbandonedProbe
  rw [if_pos h]
  exact ⟨rfl, rfl⟩

theorem recordAbandonedProbe_of_ne (h : st.status ≠ .halfOpen) :
    st.recordAbandonedProbe now = st := by
  unfold recordAbandonedProbe
  rw [if_neg h]

theorem check_closed (h : st.status = .closed) : st.check config model now = (.ok (), st) := by
  simp only [check, h]

/-- An open circuit admits the request when its cooldown is over. -/
theorem check_opened (config : CircuitBreakerConfig) (model : String) (now : Nat)
    (h : st.status = .opened) :
    (config.cooldown ≤ st.elapsed now ∧
        st.check config model now =
          (.ok (), { st with status := .halfOpen, halfOpenAttempts := 1 })) ∨
      ∃ message, st.check config model now = (.error message, st) := by
  by_cases hcool : config.cooldown ≤ st.elapsed now
  · exact Or.inl ⟨hcool, by simp only [check, h, if_pos hcool]⟩
  · exact Or.inr ⟨_, by simp only [check, h, if_neg hcool]; rfl⟩

/-- A half-open circuit admits requests up to its limit. -/
theorem check_halfOpen (config : CircuitBreakerConfig) (model : String) (now : Nat)
    (h : st.status = .halfOpen) :
    (st.halfOpenAttempts < config.halfOpenMax ∧
        st.check config model now =
          (.ok (), { st with halfOpenAttempts := st.halfOpenAttempts + 1 })) ∨
      ∃ message, st.check config model now = (.error message, st) := by
  by_cases hlt : st.halfOpenAttempts < config.halfOpenMax
  · exact Or.inl ⟨hlt, by simp only [check, h, if_pos hlt]⟩
  · exact Or.inr ⟨_, by simp only [check, h, if_neg hlt]; rfl⟩

/-- A check does not open a circuit, and does not touch the time of its last failure. -/
theorem check_lastFailure : (st.check config model now).2.lastFailure = st.lastFailure := by
  cases hstatus : st.status with
  | closed => rw [check_closed hstatus]
  | opened =>
    cases check_opened config model now hstatus with
    | inl h => rw [h.2]
    | inr h =>
      obtain ⟨message, h⟩ := h
      rw [h]
  | halfOpen =>
    cases check_halfOpen config model now hstatus with
    | inl h => rw [h.2]
    | inr h =>
      obtain ⟨message, h⟩ := h
      rw [h]

/-- The peek at a circuit agrees with the check of it. -/
theorem isAvailable_iff (st : CircuitState) (config : CircuitBreakerConfig) (model : String)
    (now : Nat) :
    st.isAvailable config now = true ↔ (st.check config model now).1 = .ok () := by
  unfold isAvailable check
  cases st.status with
  | closed => simp
  | opened =>
    by_cases h : config.cooldown ≤ st.elapsed now
    · simp [h]
    · simp [h]
  | halfOpen =>
    by_cases h : st.halfOpenAttempts < config.halfOpenMax
    · simp [h]
    · simp [h]

end CircuitState

namespace BreakerRun

def start (config : CircuitBreakerConfig) : BreakerRun := ⟨.new config, 0⟩

/-- The circuit of a model, if the breaker has seen the model. -/
def circuit (s : BreakerRun) (model : String) : Option CircuitState :=
  s.breaker.states.get? model

def call (s : BreakerRun) (e : BreakerEvent) : BreakerReply × BreakerRun :=
  let now := s.now + e.elapsed
  match e.call with
  | .check =>
    (.ofCheck (s.breaker.check e.model now).1, ⟨(s.breaker.check e.model now).2, now⟩)
  | .recordSuccess => (.recorded, ⟨s.breaker.recordSuccess e.model, now⟩)
  | .recordFailure =>
    (.ofRecord (s.breaker.recordFailure e.model now).1,
      ⟨(s.breaker.recordFailure e.model now).2, now⟩)
  | .recordAbandonedProbe => (.recorded, ⟨s.breaker.recordAbandonedProbe e.model now, now⟩)

/-- The calls on a breaker. -/
def machine : Machine BreakerRun BreakerEvent BreakerReply := ⟨call⟩

/-- A step of a run. -/
abbrev Step := Machine.Step BreakerRun BreakerEvent BreakerReply

/-- The step admits a request to the model. -/
def admits (model : String) (t : Step) : Bool :=
  t.event.model == model && t.reply == .admitted

/-- The step records the success of a request to the model. -/
def succeeds (model : String) (t : Step) : Bool :=
  t.event.model == model && t.event.call == .recordSuccess

/-- The step records an outcome of the request to the model. -/
def records (model : String) (request : Nat) (t : Step) : Bool :=
  t.event.model == model && t.event.request == request && t.reply == .recorded

/-- The circuit of the model opens with the call. -/
def Opens (model : String) (s : BreakerRun) (e : BreakerEvent) : Prop :=
  (s.circuit model).map CircuitState.status ≠ some .opened ∧
    ((machine.step s e).2.circuit model).map CircuitState.status = some .opened

variable {s : BreakerRun} {e : BreakerEvent} {model : String} {st : CircuitState}

/-! ## One call -/

@[simp] theorem now_step : (machine.step s e).2.now = s.now + e.elapsed := by
  show (s.call e).2.now = _
  unfold call
  cases e.call <;> rfl

@[simp] theorem config_step : (machine.step s e).2.breaker.config = s.breaker.config := by
  show (s.call e).2.breaker.config = _
  unfold call
  cases e.call with
  | recordFailure =>
    show ((s.breaker.recordFailure e.model (s.now + e.elapsed)).2).config = _
    unfold CircuitBreaker.recordFailure
    dsimp only
    split <;> rfl
  | check => rfl
  | recordSuccess => rfl
  | recordAbandonedProbe => rfl

/-- The circuits of other models do not notice the call. -/
theorem circuit_step_of_ne (h : e.model ≠ model) :
    (machine.step s e).2.circuit model = s.circuit model := by
  have hne : model ≠ e.model := h.symm
  show (s.call e).2.breaker.states.get? model = _
  unfold call
  cases e.call with
  | check => exact AssocMap.get?_insert_of_ne _ _ hne
  | recordSuccess => exact AssocMap.get?_modify_of_ne _ _ hne
  | recordAbandonedProbe => exact AssocMap.get?_modify_of_ne _ _ hne
  | recordFailure =>
    show ((s.breaker.recordFailure e.model (s.now + e.elapsed)).2).states.get? model = _
    unfold CircuitBreaker.recordFailure
    dsimp only
    split <;> exact AssocMap.get?_insert_of_ne _ _ hne

theorem step_check (hcall : e.call = .check) :
    machine.step s e =
      (.ofCheck (s.breaker.check e.model (s.now + e.elapsed)).1,
        ⟨(s.breaker.check e.model (s.now + e.elapsed)).2, s.now + e.elapsed⟩) := by
  show s.call e = _
  simp only [call, hcall]

/-- A success closes the circuit. -/
theorem circuit_success (hcall : e.call = .recordSuccess) :
    (machine.step s e).2.circuit e.model = (s.circuit e.model).map CircuitState.recordSuccess := by
  show (s.call e).2.breaker.states.get? e.model = _
  simp only [call, hcall, CircuitBreaker.recordSuccess, AssocMap.get?_modify_self]
  rfl

theorem circuit_abandoned (hcall : e.call = .recordAbandonedProbe) :
    (machine.step s e).2.circuit e.model =
      (s.circuit e.model).map fun st => st.recordAbandonedProbe (s.now + e.elapsed) := by
  show (s.call e).2.breaker.states.get? e.model = _
  simp only [call, hcall, CircuitBreaker.recordAbandonedProbe, AssocMap.get?_modify_self]
  rfl

/-- The circuit a check or a failure works on. -/
theorem stateOrNew_eq (s : BreakerRun) (e : BreakerEvent) :
    s.breaker.stateOrNew e.model (s.now + e.elapsed) =
      (s.circuit e.model).getD (.new (s.now + e.elapsed)) := rfl

theorem circuit_check (hcall : e.call = .check) :
    (machine.step s e).2.circuit e.model =
        some ((s.breaker.stateOrNew e.model (s.now + e.elapsed)).check s.breaker.config e.model
          (s.now + e.elapsed)).2 ∧
      (machine.step s e).1 =
        .ofCheck ((s.breaker.stateOrNew e.model (s.now + e.elapsed)).check s.breaker.config
          e.model (s.now + e.elapsed)).1 := by
  rw [step_check hcall]
  exact ⟨AssocMap.get?_insert_self _ _ _, rfl⟩

/-- A failure is counted, or panics and leaves the circuit as it was. -/
theorem circuit_failure (hcall : e.call = .recordFailure) :
    ((machine.step s e).1 = .recorded ∧
        (machine.step s e).2.circuit e.model =
          some ((s.breaker.stateOrNew e.model (s.now + e.elapsed)).recordFailure
            s.breaker.config (s.now + e.elapsed))) ∨
      (machine.step s e).1 = .panicked ∧
        (machine.step s e).2.circuit e.model =
          some (s.breaker.stateOrNew e.model (s.now + e.elapsed)) := by
  have hstep : machine.step s e =
      (.ofRecord (s.breaker.recordFailure e.model (s.now + e.elapsed)).1,
        ⟨(s.breaker.recordFailure e.model (s.now + e.elapsed)).2, s.now + e.elapsed⟩) := by
    show s.call e = _
    simp only [call, hcall]
  rw [hstep]
  unfold CircuitBreaker.recordFailure
  dsimp only
  split
  · exact Or.inl ⟨rfl, AssocMap.get?_insert_self _ _ _⟩
  · exact Or.inr ⟨rfl, AssocMap.get?_insert_self _ _ _⟩

/-! ## Circuits that are not closed -/

theorem stateOrNew_of_circuit (h : s.circuit e.model = some st) :
    s.breaker.stateOrNew e.model (s.now + e.elapsed) = st := by
  rw [stateOrNew_eq, h]
  rfl

theorem admits_iff {t : Step} :
    admits model t = true ↔ t.event.model = model ∧ t.reply = .admitted := by
  simp [admits]

theorem succeeds_iff {t : Step} :
    succeeds model t = true ↔ t.event.model = model ∧ t.event.call = .recordSuccess := by
  simp [succeeds]

/-- The step a call makes. -/
def stepOf (s : BreakerRun) (e : BreakerEvent) : Step :=
  ⟨s, e, (machine.step s e).1, (machine.step s e).2⟩

/-- Outcomes are not admissions. -/
theorem admits_of_not_check (h : e.call ≠ .check) : admits model (stepOf s e) = false := by
  have hreply : (machine.step s e).1 ≠ .admitted := by
    show (s.call e).1 ≠ .admitted
    unfold call
    cases hcall : e.call with
    | check => exact absurd hcall h
    | recordSuccess => simp
    | recordAbandonedProbe => simp
    | recordFailure =>
      show BreakerReply.ofRecord _ ≠ _
      cases (s.breaker.recordFailure e.model (s.now + e.elapsed)).1 <;> simp [BreakerReply.ofRecord]
  cases hadmits : admits model (stepOf s e) with
  | false => rfl
  | true => exact absurd (admits_iff.mp hadmits).2 hreply

/-- What a call does to an open circuit. -/
theorem step_opened (hst : s.circuit model = some st) (hstatus : st.status = .opened)
    (hsuccess : succeeds model (stepOf s e) = false) :
    ∃ st', (machine.step s e).2.circuit model = some st' ∧
      ((admits model (stepOf s e) = false ∧ st'.status = .opened ∧
          (st'.lastFailure = st.lastFailure ∨ st'.lastFailure = s.now + e.elapsed)) ∨
        admits model (stepOf s e) = true ∧
          s.breaker.config.cooldown ≤ s.now + e.elapsed - st.lastFailure ∧
          st'.status = .halfOpen ∧ st'.halfOpenAttempts = 1 ∧
          st'.lastFailure = st.lastFailure) := by
  by_cases hmodel : e.model = model
  · subst hmodel
    have hcircuit := stateOrNew_of_circuit hst
    cases hcall : e.call with
    | check =>
      obtain ⟨hafter, hreply⟩ := circuit_check (s := s) hcall
      rw [hcircuit] at hafter hreply
      cases CircuitState.check_opened s.breaker.config e.model (s.now + e.elapsed) hstatus with
      | inl h =>
        rw [h.2] at hafter hreply
        exact ⟨_, hafter, Or.inr ⟨admits_iff.mpr ⟨rfl, hreply⟩, h.1, rfl, rfl, rfl⟩⟩
      | inr h =>
        obtain ⟨message, h⟩ := h
        rw [h] at hafter hreply
        have hrefused : admits e.model (stepOf s e) = false := by
          simp [admits, stepOf, hreply, BreakerReply.ofCheck]
        exact ⟨_, hafter, Or.inl ⟨hrefused, hstatus, Or.inl rfl⟩⟩
    | recordSuccess =>
      have htrue : succeeds e.model (stepOf s e) = true := succeeds_iff.mpr ⟨rfl, hcall⟩
      rw [hsuccess] at htrue
      cases htrue
    | recordFailure =>
      have hadmits : admits e.model (stepOf s e) = false := by
        apply admits_of_not_check
        simp [hcall]
      cases circuit_failure (s := s) hcall with
      | inl h =>
        obtain ⟨-, hafter⟩ := h
        rw [hcircuit] at hafter
        have hopened : (st.recordFailure s.breaker.config (s.now + e.elapsed)).status =
            .opened := by
          cases @CircuitState.recordFailure_status st s.breaker.config (s.now + e.elapsed) with
          | inl h => exact h
          | inr h => rw [h.2, hstatus]
        exact ⟨_, hafter,
          Or.inl ⟨hadmits, hopened, Or.inr CircuitState.recordFailure_lastFailure⟩⟩
      | inr h =>
        obtain ⟨-, hafter⟩ := h
        rw [hcircuit] at hafter
        exact ⟨_, hafter, Or.inl ⟨hadmits, hstatus, Or.inl rfl⟩⟩
    | recordAbandonedProbe =>
      have hadmits : admits e.model (stepOf s e) = false := by
        apply admits_of_not_check
        simp [hcall]
      have hafter := circuit_abandoned (s := s) hcall
      rw [hst, Option.map_some,
        CircuitState.recordAbandonedProbe_of_ne (by simp [hstatus])] at hafter
      exact ⟨_, hafter, Or.inl ⟨hadmits, hstatus, Or.inl rfl⟩⟩
  · have hadmits : admits model (stepOf s e) = false := by simp [admits, stepOf, hmodel]
    exact ⟨st, by rw [circuit_step_of_ne hmodel, hst],
      Or.inl ⟨hadmits, hstatus, Or.inl rfl⟩⟩

/-- What a call does to a half-open circuit. -/
theorem step_halfOpen (hst : s.circuit model = some st) (hstatus : st.status = .halfOpen)
    (hsuccess : succeeds model (stepOf s e) = false) :
    ∃ st', (machine.step s e).2.circuit model = some st' ∧
      ((admits model (stepOf s e) = false ∧ st' = st) ∨
        (admits model (stepOf s e) = true ∧
          st.halfOpenAttempts < s.breaker.config.halfOpenMax ∧
          st'.status = .halfOpen ∧ st'.halfOpenAttempts = st.halfOpenAttempts + 1 ∧
          st'.lastFailure = st.lastFailure) ∨
        admits model (stepOf s e) = false ∧ st'.status = .opened ∧
          st'.lastFailure = s.now + e.elapsed) := by
  by_cases hmodel : e.model = model
  · subst hmodel
    have hcircuit := stateOrNew_of_circuit hst
    cases hcall : e.call with
    | check =>
      obtain ⟨hafter, hreply⟩ := circuit_check (s := s) hcall
      rw [hcircuit] at hafter hreply
      cases CircuitState.check_halfOpen s.breaker.config e.model (s.now + e.elapsed) hstatus with
      | inl h =>
        rw [h.2] at hafter hreply
        exact ⟨_, hafter,
          Or.inr (Or.inl ⟨admits_iff.mpr ⟨rfl, hreply⟩, h.1, hstatus, rfl, rfl⟩)⟩
      | inr h =>
        obtain ⟨message, h⟩ := h
        rw [h] at hafter hreply
        have hrefused : admits e.model (stepOf s e) = false := by
          simp [admits, stepOf, hreply, BreakerReply.ofCheck]
        exact ⟨_, hafter, Or.inl ⟨hrefused, rfl⟩⟩
    | recordSuccess =>
      have htrue : succeeds e.model (stepOf s e) = true := succeeds_iff.mpr ⟨rfl, hcall⟩
      rw [hsuccess] at htrue
      cases htrue
    | recordFailure =>
      have hadmits : admits e.model (stepOf s e) = false := by
        apply admits_of_not_check
        simp [hcall]
      cases circuit_failure (s := s) hcall with
      | inl h =>
        obtain ⟨-, hafter⟩ := h
        rw [hcircuit] at hafter
        have hopened : (st.recordFailure s.breaker.config (s.now + e.elapsed)).status =
            .opened := by
          cases @CircuitState.recordFailure_status st s.breaker.config (s.now + e.elapsed) with
          | inl h => exact h
          | inr h => exact absurd hstatus h.1
        exact ⟨_, hafter,
          Or.inr (Or.inr ⟨hadmits, hopened, CircuitState.recordFailure_lastFailure⟩)⟩
      | inr h =>
        obtain ⟨-, hafter⟩ := h
        rw [hcircuit] at hafter
        exact ⟨_, hafter, Or.inl ⟨hadmits, rfl⟩⟩
    | recordAbandonedProbe =>
      have hadmits : admits e.model (stepOf s e) = false := by
        apply admits_of_not_check
        simp [hcall]
      have hafter := circuit_abandoned (s := s) hcall
      rw [hst, Option.map_some] at hafter
      exact ⟨_, hafter,
        Or.inr (Or.inr ⟨hadmits, CircuitState.recordAbandonedProbe_of_halfOpen hstatus⟩)⟩
  · have hadmits : admits model (stepOf s e) = false := by simp [admits, stepOf, hmodel]
    exact ⟨st, by rw [circuit_step_of_ne hmodel, hst], Or.inl ⟨hadmits, rfl⟩⟩

/-! ## Where circuits come from -/

/-- How the circuit of a model comes out of a call. -/
inductive Origin (s : BreakerRun) (e : BreakerEvent) (model : String) (st' : CircuitState) :
    Prop where
  /-- The circuit is as it was. -/
  | unchanged (before : s.circuit model = some st')
  /-- A check of the model, of a circuit that was there or is new. -/
  | checked (st : CircuitState)
      (before : s.circuit model = some st ∨ st = .new (s.now + e.elapsed))
      (call : e.call = .check) (hmodel : e.model = model)
      (after : st' = (st.check s.breaker.config model (s.now + e.elapsed)).2)
      (reply : (machine.step s e).1 =
        .ofCheck (st.check s.breaker.config model (s.now + e.elapsed)).1)
  /-- A success of the model. -/
  | succeeded (st : CircuitState) (before : s.circuit model = some st)
      (hmodel : e.model = model) (after : st' = st.recordSuccess)
  /-- A failure of the model. -/
  | failed (st : CircuitState)
      (before : s.circuit model = some st ∨ st = .new (s.now + e.elapsed))
      (hmodel : e.model = model)
      (after : st' = st.recordFailure s.breaker.config (s.now + e.elapsed))
  /-- A failure that panicked. -/
  | panicked (before : s.circuit model = some st' ∨ st' = .new (s.now + e.elapsed))
      (call : e.call = .recordFailure) (reply : (machine.step s e).1 = .panicked)
  /-- An abandoned probe of the model. -/
  | abandoned (st : CircuitState) (before : s.circuit model = some st)
      (hmodel : e.model = model) (after : st' = st.recordAbandonedProbe (s.now + e.elapsed))

/-- The circuit a call works on was there or is new. -/
theorem stateOrNew_cases (s : BreakerRun) (e : BreakerEvent) :
    s.circuit e.model = some (s.breaker.stateOrNew e.model (s.now + e.elapsed)) ∨
      s.breaker.stateOrNew e.model (s.now + e.elapsed) = .new (s.now + e.elapsed) := by
  rw [stateOrNew_eq]
  cases s.circuit e.model with
  | none => exact Or.inr rfl
  | some st => exact Or.inl rfl

theorem origin_of_step {st' : CircuitState} (h : (machine.step s e).2.circuit model = some st') :
    Origin s e model st' := by
  by_cases hmodel : e.model = model
  · subst hmodel
    cases hcall : e.call with
    | check =>
      obtain ⟨hafter, hreply⟩ := circuit_check (s := s) hcall
      rw [h] at hafter
      exact .checked _ (stateOrNew_cases s e) hcall rfl (Option.some.inj hafter) hreply
    | recordSuccess =>
      rw [circuit_success hcall] at h
      obtain ⟨st, hst, hafter⟩ := Option.map_eq_some_iff.mp h
      exact .succeeded st hst rfl hafter.symm
    | recordFailure =>
      cases circuit_failure (s := s) hcall with
      | inl hfail =>
        rw [h] at hfail
        exact .failed _ (stateOrNew_cases s e) rfl (Option.some.inj hfail.2)
      | inr hpanic =>
        rw [h] at hpanic
        rw [Option.some.inj hpanic.2]
        exact .panicked (stateOrNew_cases s e) hcall hpanic.1
    | recordAbandonedProbe =>
      rw [circuit_abandoned hcall] at h
      obtain ⟨st, hst, hafter⟩ := Option.map_eq_some_iff.mp h
      exact .abandoned st hst rfl hafter.symm
  · rw [circuit_step_of_ne hmodel] at h
    exact .unchanged h

/-- A circuit opens with the cooldown ahead of it. -/
theorem opens_circuit (h : Opens model s e) :
    ∃ st', (machine.step s e).2.circuit model = some st' ∧ st'.status = .opened ∧
      st'.lastFailure = s.now + e.elapsed := by
  obtain ⟨hbefore, hafter⟩ := h
  obtain ⟨st', hst', hstatus⟩ := Option.map_eq_some_iff.mp hafter
  refine ⟨st', hst', hstatus, ?_⟩
  have hnot : ∀ st, s.circuit model = some st ∨ st = .new (s.now + e.elapsed) →
      st.status ≠ .opened := by
    intro st hst hopened
    cases hst with
    | inl hst =>
      rw [hst] at hbefore
      exact hbefore (congrArg some hopened)
    | inr hst =>
      rw [hst] at hopened
      cases hopened
  cases origin_of_step hst' with
  | unchanged before => exact absurd hstatus (hnot st' (Or.inl before))
  | panicked before call reply => exact absurd hstatus (hnot st' before)
  | checked st before call hmodel after reply =>
    have hwas := hnot st before
    cases hcase : st.status with
    | opened => exact absurd hcase hwas
    | closed =>
      rw [after, CircuitState.check_closed hcase, hcase] at hstatus
      cases hstatus
    | halfOpen =>
      cases CircuitState.check_halfOpen s.breaker.config model (s.now + e.elapsed) hcase with
      | inl hcheck =>
        rw [after, hcheck.2, hcase] at hstatus
        cases hstatus
      | inr hcheck =>
        obtain ⟨message, hcheck⟩ := hcheck
        rw [after, hcheck, hcase] at hstatus
        cases hstatus
  | succeeded st before hmodel after =>
    rw [after] at hstatus
    cases hstatus
  | failed st before hmodel after =>
    rw [after, CircuitState.recordFailure_lastFailure]
  | abandoned st before hmodel after =>
    by_cases hhalf : st.status = .halfOpen
    · rw [after, (CircuitState.recordAbandonedProbe_of_halfOpen hhalf).2]
    · rw [after, CircuitState.recordAbandonedProbe_of_ne hhalf] at hstatus
      exact absurd hstatus (hnot st (Or.inl before))

/-- No circuit has failed in the future. -/
def Past (s : BreakerRun) : Prop :=
  ∀ model st, s.circuit model = some st → st.lastFailure ≤ s.now

theorem past_step (h : s.Past) : (machine.step s e).2.Past := by
  intro model st' hst'
  rw [now_step]
  have hwas : ∀ st, s.circuit model = some st ∨ st = .new (s.now + e.elapsed) →
      st.lastFailure ≤ s.now + e.elapsed := by
    intro st hst
    cases hst with
    | inl hst =>
      have := h model st hst
      omega
    | inr hst =>
      rw [hst]
      exact le_refl _
  cases origin_of_step hst' with
  | unchanged before => exact hwas st' (Or.inl before)
  | panicked before call reply => exact hwas st' before
  | checked st before call hmodel after reply =>
    rw [after, CircuitState.check_lastFailure]
    exact hwas st before
  | succeeded st before hmodel after =>
    rw [after]
    exact hwas st (Or.inl before)
  | failed st before hmodel after =>
    rw [after, CircuitState.recordFailure_lastFailure]
  | abandoned st before hmodel after =>
    by_cases hhalf : st.status = .halfOpen
    · rw [after, (CircuitState.recordAbandonedProbe_of_halfOpen hhalf).2]
    · rw [after, CircuitState.recordAbandonedProbe_of_ne hhalf]
      exact hwas st (Or.inl before)

theorem past_run (config : CircuitBreakerConfig) (events : List BreakerEvent) :
    (machine.run (start config) events).Past := by
  apply machine.run_invariant Past
  · intro s e h
    exact past_step h
  · intro model st hst
    cases hst

/-- A recorded outcome leaves no circuit half open. -/
theorem records_not_halfOpen {request : Nat} (h : records model request (stepOf s e) = true)
    {st' : CircuitState} (hst' : (machine.step s e).2.circuit model = some st') :
    st'.status ≠ .halfOpen := by
  simp only [records, stepOf, Bool.and_eq_true, beq_iff_eq] at h
  obtain ⟨⟨hmodel, -⟩, hreply⟩ := h
  subst hmodel
  cases hcall : e.call with
  | check =>
    have hcheck := (circuit_check (s := s) hcall).2
    rw [hreply] at hcheck
    cases hresult : ((s.breaker.stateOrNew e.model (s.now + e.elapsed)).check s.breaker.config
        e.model (s.now + e.elapsed)).1 <;> rw [hresult] at hcheck <;> cases hcheck
  | recordSuccess =>
    rw [circuit_success hcall] at hst'
    obtain ⟨st, -, hafter⟩ := Option.map_eq_some_iff.mp hst'
    rw [← hafter]
    show CircuitStatus.closed ≠ .halfOpen
    decide
  | recordFailure =>
    cases circuit_failure (s := s) hcall with
    | inl hfail =>
      have hafter := hfail.2
      rw [hst'] at hafter
      rw [Option.some.inj hafter]
      cases @CircuitState.recordFailure_status
        (s.breaker.stateOrNew e.model (s.now + e.elapsed)) s.breaker.config
        (s.now + e.elapsed) with
      | inl hopened =>
        rw [hopened]
        decide
      | inr hsame =>
        rw [hsame.2]
        exact hsame.1
    | inr hpanic =>
      rw [hreply] at hpanic
      cases hpanic.1
  | recordAbandonedProbe =>
    rw [circuit_abandoned hcall] at hst'
    obtain ⟨st, -, hafter⟩ := Option.map_eq_some_iff.mp hst'
    rw [← hafter]
    by_cases hhalf : st.status = .halfOpen
    · rw [(CircuitState.recordAbandonedProbe_of_halfOpen hhalf).1]
      decide
    · rw [CircuitState.recordAbandonedProbe_of_ne hhalf]
      exact hhalf

/-- A half-open circuit was half open before, or has just admitted a request. -/
theorem halfOpen_origin {st' : CircuitState}
    (hst' : (machine.step s e).2.circuit model = some st') (hstatus : st'.status = .halfOpen) :
    admits model (stepOf s e) = true ∨
      ∃ st, s.circuit model = some st ∧ st.status = .halfOpen := by
  cases origin_of_step hst' with
  | unchanged before => exact Or.inr ⟨st', before, hstatus⟩
  | panicked before call reply =>
    cases before with
    | inl before => exact Or.inr ⟨st', before, hstatus⟩
    | inr before =>
      rw [before] at hstatus
      cases hstatus
  | checked st before call hmodel after reply =>
    cases hcase : st.status with
    | closed =>
      rw [after, CircuitState.check_closed hcase, hcase] at hstatus
      cases hstatus
    | halfOpen =>
      cases before with
      | inl before => exact Or.inr ⟨st, before, hcase⟩
      | inr before =>
        rw [before] at hcase
        cases hcase
    | opened =>
      cases CircuitState.check_opened s.breaker.config model (s.now + e.elapsed) hcase with
      | inl hcheck =>
        rw [hcheck.2] at reply
        exact Or.inl (admits_iff.mpr ⟨hmodel, reply⟩)
      | inr hcheck =>
        obtain ⟨message, hcheck⟩ := hcheck
        rw [after, hcheck, hcase] at hstatus
        cases hstatus
  | succeeded st before hmodel after =>
    rw [after] at hstatus
    cases hstatus
  | failed st before hmodel after =>
    rw [after] at hstatus
    cases @CircuitState.recordFailure_status st s.breaker.config (s.now + e.elapsed) with
    | inl hopened =>
      rw [hopened] at hstatus
      cases hstatus
    | inr hsame =>
      rw [hsame.2] at hstatus
      exact absurd hstatus hsame.1
  | abandoned st before hmodel after =>
    by_cases hhalf : st.status = .halfOpen
    · exact Or.inr ⟨st, before, hhalf⟩
    · rw [after, CircuitState.recordAbandonedProbe_of_ne hhalf] at hstatus
      exact absurd hstatus hhalf

end BreakerRun

end Remo
