import Remo.Native.Mailbox.RunDispatch

/-!
# The mailbox store contract

The calls of a mailbox store and what they return, shared by the in-memory
store, the SQLite store and the scoped wrapper. Claim tokens are generated
inside the store; a call that generates one carries it, so that every outcome of
the generator is covered. `usize` arguments are those of a 64-bit target.
-/

namespace Remo

/-- Result of a mailbox interrupt operation. -/
structure MailboxInterrupt where
  newDispatchEpoch : UInt64
  activeDispatch : Option RunDispatch
  supersededCount : Nat
deriving Repr, DecidableEq

/-- Detailed result of a mailbox interrupt operation. -/
structure MailboxInterruptDetails where
  newDispatchEpoch : UInt64
  activeDispatch : Option RunDispatch
  supersededCount : Nat
  supersededDispatches : List RunDispatch
deriving Repr, DecidableEq

/-- Forget the superseded records. -/
def MailboxInterruptDetails.intoSummary (details : MailboxInterruptDetails) : MailboxInterrupt where
  newDispatchEpoch := details.newDispatchEpoch
  activeDispatch := details.activeDispatch
  supersededCount := details.supersededCount

/-- The calls of the mailbox store contract. -/
inductive MailboxOp where
  | enqueue (dispatch : RunDispatch)
  | claim (threadId consumerId : String) (leaseMs now limit : UInt64) (token : Uuid)
  | claimDispatch (dispatchId consumerId : String) (leaseMs now : UInt64) (token : Uuid)
  | ack (dispatchId claimToken : String) (now : UInt64)
  | recordDispatchStart (dispatchId claimToken dispatchInstanceId : String) (now : UInt64)
  | recordRunResult (dispatchId claimToken : String) (result : RunDispatchResult) (now : UInt64)
  | nack (dispatchId claimToken : String) (retryAt : UInt64) (error : String) (now : UInt64)
  | deadLetter (dispatchId claimToken error : String) (now : UInt64)
  | cancel (dispatchId : String) (now : UInt64)
  | extendLease (dispatchId claimToken : String) (extensionMs now : UInt64)
  | interrupt (threadId : String) (now : UInt64)
  | interruptDetailed (threadId : String) (now : UInt64)
  | currentDispatchEpoch (threadId : String)
  | supersedeClaimed (dispatchId claimToken : String) (now : UInt64) (reason : String)
  | loadDispatch (dispatchId : String)
  | listDispatches (threadId : String) (statusFilter : Option (List RunDispatchStatus))
      (limit offset : UInt64)
  | countDispatchesByStatus (status : RunDispatchStatus)
  | listTerminalDispatches (limit offset : UInt64)
  | reclaimExpiredLeases (now limit : UInt64)
  | purgeTerminal (olderThan : UInt64)
  | queuedThreadIds
deriving Repr, DecidableEq

/-- What the calls return. -/
inductive MailboxReply where
  | unit
  | flag (value : Bool)
  | dispatch (dispatch : Option RunDispatch)
  | dispatches (dispatches : List RunDispatch)
  | interrupt (interrupt : MailboxInterrupt)
  | interruptDetails (details : MailboxInterruptDetails)
  | epoch (epoch : UInt64)
  | count (count : Nat)
  | threadIds (ids : List String)
deriving Repr, DecidableEq

/-- One call of a run, together with the iteration order of the store's records
    at that moment. -/
structure MailboxEvent where
  order : String → Nat
  op : MailboxOp

/-- A call under the order in which the records were enqueued. -/
def MailboxEvent.inOrder (op : MailboxOp) : MailboxEvent := ⟨fun _ => 0, op⟩

/-- The claim token a call presents, with the dispatch it presents it for. -/
def MailboxOp.presented : MailboxOp → Option (String × String)
  | .ack dispatchId claimToken _ => some (dispatchId, claimToken)
  | .recordDispatchStart dispatchId claimToken _ _ => some (dispatchId, claimToken)
  | .recordRunResult dispatchId claimToken _ _ => some (dispatchId, claimToken)
  | .nack dispatchId claimToken _ _ _ => some (dispatchId, claimToken)
  | .deadLetter dispatchId claimToken _ _ => some (dispatchId, claimToken)
  | .extendLease dispatchId claimToken _ _ => some (dispatchId, claimToken)
  | .supersedeClaimed dispatchId claimToken _ _ => some (dispatchId, claimToken)
  | _ => none

/-- The token a call generates. -/
def MailboxOp.generated : MailboxOp → Option Uuid
  | .claim _ _ _ _ _ token => some token
  | .claimDispatch _ _ _ _ token => some token
  | _ => none

/-- The consumer a call claims for. -/
def MailboxOp.consumer : MailboxOp → Option String
  | .claim _ consumerId _ _ _ _ => some consumerId
  | .claimDispatch _ consumerId _ _ _ => some consumerId
  | _ => none

/-- Queue order: priority first, then creation time. -/
def RunDispatch.queueLe (a b : RunDispatch) : Prop :=
  a.priority < b.priority ∨ (a.priority = b.priority ∧ a.createdAt ≤ b.createdAt)

instance : DecidableRel RunDispatch.queueLe := fun a b =>
  inferInstanceAs (Decidable (a.priority < b.priority ∨
    (a.priority = b.priority ∧ a.createdAt ≤ b.createdAt)))

/-- Order of the terminal listing: update time, creation time, dispatch id. -/
def RunDispatch.terminalLe (a b : RunDispatch) : Prop :=
  a.updatedAt < b.updatedAt ∨ (a.updatedAt = b.updatedAt ∧
    (a.createdAt < b.createdAt ∨ (a.createdAt = b.createdAt ∧ a.dispatchId ≤ b.dispatchId)))

instance : DecidableRel RunDispatch.terminalLe := fun a b =>
  inferInstanceAs (Decidable (a.updatedAt < b.updatedAt ∨ (a.updatedAt = b.updatedAt ∧
    (a.createdAt < b.createdAt ∨ (a.createdAt = b.createdAt ∧ a.dispatchId ≤ b.dispatchId)))))

end Remo
