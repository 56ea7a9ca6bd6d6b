/-!
# Run lifecycle vocabulary
-/

namespace Remo

/-- Generic stopped payload emitted when a plugin decides to terminate. -/
structure StoppedReason where
  code : String
  detail : Option String
deriving Repr, DecidableEq

/-- Why a run terminated. -/
inductive TerminationReason where
  | naturalEnd
  | behaviorRequested
  | stopped (reason : StoppedReason)
  | cancelled
  | blocked (message : String)
  | suspended
  | error (message : String)
deriving Repr, DecidableEq

/-- Coarse run lifecycle status. -/
inductive RunStatus where
  | created
  | running
  | waiting
  | done
deriving Repr, DecidableEq

end Remo
