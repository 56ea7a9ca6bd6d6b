import Remo.Native.Engine.Inference
import Remo.Native.Engine.PoolRouter

/-!
# Failover inside one call of a model pool

A call asks one member after the other until one answers or there is no other to ask. Other calls
share the session and the health of the members, so each turn of the loop gets them as arguments.
-/

namespace Remo

/-- Triggers for leaving the active member. -/
structure PoolSwitchPolicy where
  onQuota : Bool
  quotaRetryAfterThresholdSecs : Option Nat
  onPermanent : Bool
  maxSwitchesPerSession : Option Nat

namespace PoolSwitchPolicy

/-- A quota signal is worth a switch unless the time to wait is below the threshold. -/
def quotaThresholdMet (p : PoolSwitchPolicy) (retryAfter : Option Nat) : Bool :=
  match p.quotaRetryAfterThresholdSecs, retryAfter with
  | some threshold, some after => decide (threshold ≤ after)
  | _, _ => true

/-- The error warrants leaving the member. The hint when to try again stands beside it. -/
def shouldSwitchOnError (p : PoolSwitchPolicy) (retryAfter : Option Nat) :
    InferenceExecutionError → Bool
  | .rateLimited _ | .overloaded _ => p.onQuota && p.quotaThresholdMet retryAfter
  | .unauthorized _ | .modelNotFound _ => p.onPermanent
  | _ => false

def switchesRemain (p : PoolSwitchPolicy) (switchCount : Nat) : Bool :=
  p.maxSwitchesPerSession.all fun limit => decide (switchCount < limit)

end PoolSwitchPolicy

/-- The member a session is pinned to, and its switches. -/
structure PoolSessionState where
  active : Option Nat
  switchCount : Nat

/-- What a turn of the loop reads: whether the breaker or the quarantine refuses the member, the
    member's answer, and the session and the available members when the next one is chosen. -/
structure PoolTurn (α : Type) where
  check : Option InferenceExecutionError
  answer : Except InferenceExecutionError α
  retryAfter : Option Nat
  session : PoolSessionState
  available : Nat → Bool
  /-- The available members when the call has given up. -/
  availableAtEnd : Nat → Bool

/-- The members a call has tried, in order, and how it ended, unless it is still under way. -/
structure PoolCall (α : Type) where
  members : List Nat
  outcome : Option (Except InferenceExecutionError α)

structure PoolExecutor (S : Type) where
  router : PoolRouter
  switch : PoolSwitchPolicy
  score : String → String → UInt32 → S

namespace PoolExecutor

variable {S α : Type} [LinearOrder S]

def healthMask (p : PoolExecutor S) (available : Nat → Bool) : HealthMask :=
  (List.range p.router.members.length).map available

/-- The mask without the members that the call has tried. -/
def untriedMask (p : PoolExecutor S) (available : Nat → Bool) (tried : List Bool) : HealthMask :=
  (p.healthMask available).zipWith (fun healthy attempted => healthy && !attempted) tried

/-- The member to try next, and the session it leaves. Where another call has moved the session,
    its member is taken if it is untried. -/
def nextOnUnavailable (p : PoolExecutor S) (sessionKey : String) (current : Nat)
    (tried : List Bool) (available : Nat → Bool) (state : PoolSessionState) :
    Option Nat × PoolSessionState :=
  let mask := p.untriedMask available tried
  if state.active ≠ some current then
    (state.active.filter fun active => (mask[active]?).getD false, state)
  else if !p.switch.switchesRemain state.switchCount then (none, state)
  else
    match p.router.selectFailover p.score sessionKey current mask with
    | none => (none, state)
    | some next => (some next, ⟨some next, state.switchCount + 1⟩)

def nextOnError (p : PoolExecutor S) (sessionKey : String) (current : Nat)
    (err : InferenceExecutionError) (retryAfter : Option Nat) (tried : List Bool)
    (available : Nat → Bool) (state : PoolSessionState) : Option Nat × PoolSessionState :=
  if p.switch.shouldSwitchOnError retryAfter err then
    p.nextOnUnavailable sessionKey current tried available state
  else (none, state)

def noMemberAvailableError (p : PoolExecutor S) (fallback : InferenceExecutionError)
    (tried : List Bool) (available : Nat → Bool) : InferenceExecutionError :=
  let health := p.healthMask available
  if !health.any id then .allModelsUnavailable
  else if health.zipIdx.all fun entry => !entry.1 || (tried[entry.2]?).getD false then
    .poolAttemptsExhausted
  else fallback

def errorDrivenNoMemberAvailableError (p : PoolExecutor S) (fallback : InferenceExecutionError)
    (tried : List Bool) (available : Nat → Bool) : InferenceExecutionError :=
  if (List.range p.router.members.length).all fun idx => (tried[idx]?).getD false then
    .poolAttemptsExhausted
  else p.noMemberAvailableError fallback tried available

/-- What a turn decides: the call's outcome, or the member to try next. -/
def turnStep (p : PoolExecutor S) (sessionKey : String) (turn : PoolTurn α) (idx : Nat)
    (tried : List Bool) : Except InferenceExecutionError α ⊕ Nat :=
  match turn.check with
  | some err =>
    match (p.nextOnUnavailable sessionKey idx tried turn.available turn.session).1 with
    | some next => .inr next
    | none => .inl (.error (p.noMemberAvailableError err tried turn.availableAtEnd))
  | none =>
    match turn.answer with
    | .ok result => .inl (.ok result)
    | .error err =>
      match (p.nextOnError sessionKey idx err turn.retryAfter tried turn.available
          turn.session).1 with
      | some next => .inr next
      | none =>
        if p.switch.shouldSwitchOnError turn.retryAfter err then
          .inl (.error (p.errorDrivenNoMemberAvailableError err tried turn.availableAtEnd))
        else .inl (.error err)

/-- The loop of `execute`, with the turns that are left. -/
def executeLoop (p : PoolExecutor S) (sessionKey : String) :
    List (PoolTurn α) → Nat → List Bool → PoolCall α
  | [], _, _ => ⟨[], none⟩
  | turn :: turns, idx, tried =>
    let tried := tried.set idx true
    match p.turnStep sessionKey turn idx tried with
    | .inl outcome => ⟨[idx], some outcome⟩
    | .inr next =>
      let rest := executeLoop p sessionKey turns next tried
      { rest with members := idx :: rest.members }

/-- `execute`, from the member that `select_active` gives. -/
def execute (p : PoolExecutor S) (sessionKey : String) (turns : List (PoolTurn α)) (first : Nat) :
    PoolCall α :=
  p.executeLoop sessionKey turns first (List.replicate p.router.members.length false)

end PoolExecutor

end Remo
