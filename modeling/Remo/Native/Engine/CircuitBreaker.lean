import Remo.ForStd.AssocMap
import Remo.Native.Storage.Error

/-!
# The circuit breaker of a model

The breaker keeps a state for every model it has seen. A call holds the lock of the states from
its start to its end and reads the clock under it; instants and durations count the same unit
of time.
-/

namespace Remo

/-- Circuit breaker status. -/
inductive CircuitStatus where
  | closed
  | opened
  | halfOpen
deriving Repr, DecidableEq

/-- Internal per-model state. -/
structure CircuitState where
  consecutiveFailures : UInt32
  lastFailure : Nat
  status : CircuitStatus
  halfOpenAttempts : UInt32
deriving Repr, DecidableEq

def CircuitState.new (now : Nat) : CircuitState := ⟨0, now, .closed, 0⟩

/-- Configuration for the circuit breaker. -/
structure CircuitBreakerConfig where
  failureThreshold : UInt32
  cooldown : Nat
  halfOpenMax : UInt32
deriving Repr, DecidableEq

structure CircuitBreaker where
  states : AssocMap String CircuitState
  config : CircuitBreakerConfig

namespace CircuitState

/-- `Instant::elapsed` since the last failure. -/
def elapsed (state : CircuitState) (now : Nat) : Nat := now - state.lastFailure

/-- The branches of `check`. A refusal is the text of a provider error. -/
def check (state : CircuitState) (config : CircuitBreakerConfig) (model : String) (now : Nat) :
    Except String Unit × CircuitState :=
  match state.status with
  | .closed => (.ok (), state)
  | .opened =>
    if config.cooldown ≤ state.elapsed now then
      (.ok (), { state with status := .halfOpen, halfOpenAttempts := 1 })
    else (.error s!"circuit breaker open for model {model}", state)
  | .halfOpen =>
    if state.halfOpenAttempts < config.halfOpenMax then
      (.ok (), { state with halfOpenAttempts := state.halfOpenAttempts + 1 })
    else (.error s!"circuit breaker open for model {model}", state)

def isAvailable (state : CircuitState) (config : CircuitBreakerConfig) (now : Nat) : Bool :=
  match state.status with
  | .closed => true
  | .opened => config.cooldown ≤ state.elapsed now
  | .halfOpen => state.halfOpenAttempts < config.halfOpenMax

def recordSuccess (state : CircuitState) : CircuitState :=
  { state with consecutiveFailures := 0, halfOpenAttempts := 0, status := .closed }

/-- The new count of failures is in range. -/
def recordFailure (state : CircuitState) (config : CircuitBreakerConfig) (now : Nat) :
    CircuitState :=
  let failures := state.consecutiveFailures + 1
  let state := { state with consecutiveFailures := failures, lastFailure := now }
  if state.status = .halfOpen then { state with status := .opened }
  else if config.failureThreshold ≤ failures then { state with status := .opened }
  else state

def recordAbandonedProbe (state : CircuitState) (now : Nat) : CircuitState :=
  if state.status = .halfOpen then
    { state with status := .opened, halfOpenAttempts := 0, lastFailure := now }
  else state

end CircuitState

namespace CircuitBreaker

/-- Create a circuit breaker with the given configuration. -/
def new (config : CircuitBreakerConfig) : CircuitBreaker := ⟨AssocMap.empty, config⟩

/-- The state of a model, a new one where there is none. -/
def stateOrNew (b : CircuitBreaker) (model : String) (now : Nat) : CircuitState :=
  (b.states.get? model).getD (.new now)

def setState (b : CircuitBreaker) (model : String) (state : CircuitState) : CircuitBreaker :=
  { b with states := b.states.insert model state }

/-- Check whether a request to `model` is allowed. -/
def check (b : CircuitBreaker) (model : String) (now : Nat) :
    Except String Unit × CircuitBreaker :=
  let checked := (b.stateOrNew model now).check b.config model now
  (checked.1, b.setState model checked.2)

/-- Read-only health peek: would `check` currently admit a request to `model`? -/
def isAvailable (b : CircuitBreaker) (model : String) (now : Nat) : Bool :=
  match b.states.get? model with
  | none => true
  | some state => state.isAvailable b.config now

/-- Record a successful request to `model`, resetting the circuit to closed. -/
def recordSuccess (b : CircuitBreaker) (model : String) : CircuitBreaker :=
  { b with states := b.states.modify model CircuitState.recordSuccess }

/-- Record a failed request to `model`, potentially opening the circuit. The count of failures
    panics on overflow, before anything else is written. -/
def recordFailure (b : CircuitBreaker) (model : String) (now : Nat) :
    Except Panic Unit × CircuitBreaker :=
  let state := b.stateOrNew model now
  if state.consecutiveFailures.toNat + 1 < 0x100000000 then
    (.ok (), b.setState model (state.recordFailure b.config now))
  else (.error .arithmeticOverflow, b.setState model state)

/-- Release an abandoned half-open probe without counting it as a normal provider failure. -/
def recordAbandonedProbe (b : CircuitBreaker) (model : String) (now : Nat) : CircuitBreaker :=
  { b with states := b.states.modify model fun state => state.recordAbandonedProbe now }

end CircuitBreaker

end Remo
