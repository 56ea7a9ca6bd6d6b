import Remo.ForStd.Maximum
import Remo.ForStd.WeightedSlots

/-!
# The routing of a model pool

The router picks the member a session starts on, and the member to move to when that one
fails. Health comes from the caller as a mask over the members' indexes. The score of a member
under a routing key is a parameter with values in a linear order.
-/

namespace Remo

/-- Eligibility of a pool member for initial home selection. -/
inductive PoolMemberRole where
  | member
  | failoverOnly
deriving Repr, DecidableEq

/-- Strategy for choosing a session's home member. -/
inductive HomeStrategy where
  | deterministic
  | roundRobin
  | firstHealthy
deriving Repr, DecidableEq

/-- A resolved pool member as the router sees it. -/
structure RouterMember where
  modelId : String
  role : PoolMemberRole
  weight : UInt32
deriving Repr, DecidableEq

/-- Health of the members, aligned by index with the member list. -/
abbrev HealthMask := List Bool

/-- Pure routing decisions over a fixed set of members. -/
structure PoolRouter where
  members : List RouterMember
  home : HomeStrategy
deriving Repr, DecidableEq

/-- A member the mask does not reach counts as healthy. -/
def isHealthy (healthy : HealthMask) (idx : Nat) : Bool := (healthy[idx]?).getD true

namespace PoolRouter

/-- The entry may be a session's home. -/
def eligible (r : PoolRouter) (idx : Nat) : Bool :=
  (r.members[idx]?).any fun m => m.role == .member

/-- The entries a scan accepts, with their indexes. -/
def accepted (r : PoolRouter) (accept : Nat → Bool) : List (RouterMember × Nat) :=
  r.members.zipIdx.filter fun entry => accept entry.2

/-- Index of the accepted entry with the highest score for the key, ties broken by lowest
    index. -/
def bestByScore {S : Type*} [LinearOrder S] (r : PoolRouter)
    (score : String → String → UInt32 → S) (routingKey : String) (accept : Nat → Bool) :
    Option Nat :=
  match r.home with
  | .deterministic | .roundRobin =>
    (firstMax? (fun entry : RouterMember × Nat => score routingKey entry.1.modelId entry.1.weight)
      (r.accepted accept)).map Prod.snd
  -- first healthy in declaration order: decreasing score by index
  | .firstHealthy =>
    (firstMax? (fun entry : RouterMember × Nat => -(entry.2 : Int))
      (r.accepted accept)).map Prod.snd

/-- The indexes and weights that share the slots of a round. -/
def homeCandidates (r : PoolRouter) (healthy : HealthMask) (requireHealthy : Bool) :
    List (Nat × Nat) :=
  (r.accepted fun idx => r.eligible idx && (!requireHealthy || isHealthy healthy idx)).map
    fun entry => (entry.2, max entry.1.weight.toNat 1)

/-- The owner of the sequence number's slot. The total weight of fewer than 2^32 members does
    not overflow. -/
def roundRobinChoose (r : PoolRouter) (healthy : HealthMask) (sequence : UInt64)
    (requireHealthy : Bool) : Option Nat :=
  let candidates := r.homeCandidates healthy requireHealthy
  let total := totalSlots candidates
  if total = 0 then none else slotOf candidates (sequence.toNat % total)

def roundRobinHome (r : PoolRouter) (healthy : HealthMask) (sequence : UInt64) : Option Nat :=
  (r.roundRobinChoose healthy sequence true).or (r.roundRobinChoose healthy sequence false)

def selectHomeWithSequence {S : Type*} [LinearOrder S] (r : PoolRouter)
    (score : String → String → UInt32 → S) (routingKey : String) (healthy : HealthMask)
    (sequence : Option UInt64) : Nat :=
  if r.home = .roundRobin then (r.roundRobinHome healthy (sequence.getD 0)).getD 0
  else
    -- prefer healthy entries; fall back to any that may be a home
    ((r.bestByScore score routingKey fun idx => r.eligible idx && isHealthy healthy idx).or
      (r.bestByScore score routingKey r.eligible)).getD 0

/-- Choose a failover target distinct from the current member, among healthy members of any
    role. -/
def selectFailover {S : Type*} [LinearOrder S] (r : PoolRouter)
    (score : String → String → UInt32 → S) (routingKey : String) (currentIdx : Nat)
    (healthy : HealthMask) : Option Nat :=
  r.bestByScore score routingKey fun idx => idx != currentIdx && isHealthy healthy idx

end PoolRouter

end Remo
