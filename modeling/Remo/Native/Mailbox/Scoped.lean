import Remo.Native.Mailbox.Memory
import Remo.Native.Scope
import Mathlib.Data.Nat.Digits.Defs

/-!
# The scoped mailbox store

`ScopedMailboxStore` wraps a shared store: it stores every id of a dispatch under
the key of its scope and shows only the records whose ids decode in the scope.
The wrapped store is the in-memory one. `usize::MAX` is above the length of any
`Vec`, so a listing with that limit is the whole listing.
-/

namespace Remo

/-- A scope's view of the shared store. -/
structure ScopedMailboxStore where
  scopeId : ScopeId
deriving DecidableEq

namespace ScopedMailboxStore

/-- The key of an id in the scope. -/
def scopedId (self : ScopedMailboxStore) (id : String) : String := scopedKey self.scopeId id

/-- The id of a key of the scope. -/
def unscopedId (self : ScopedMailboxStore) (id : String) : Option String :=
  unscopedKey self.scopeId id

/-- A dispatch as the shared store keeps it. -/
def encodeDispatch (self : ScopedMailboxStore) (dispatch : RunDispatch) : RunDispatch :=
  { dispatch with
    dispatchId := self.scopedId dispatch.dispatchId
    threadId := self.scopedId dispatch.threadId
    runId := self.scopedId dispatch.runId
    dedupeKey := dispatch.dedupeKey.map self.scopedId }

/-- A dispatch as the scope sees it, if it is one of the scope. -/
def decodeDispatch (self : ScopedMailboxStore) (dispatch : RunDispatch) : Option RunDispatch := do
  let dispatchId ← self.unscopedId dispatch.dispatchId
  let threadId ← self.unscopedId dispatch.threadId
  let runId ← self.unscopedId dispatch.runId
  return { dispatch with
    dispatchId := dispatchId
    threadId := threadId
    runId := runId
    dedupeKey := dispatch.dedupeKey.bind self.unscopedId }

/-- A run result as the shared store keeps it. -/
def encodeResult (self : ScopedMailboxStore) (result : RunDispatchResult) : RunDispatchResult :=
  { result with runId := self.scopedId result.runId }

/-! ## Wrapped calls -/

def enqueue (self : ScopedMailboxStore) (dispatch : RunDispatch) :
    Method Fault InMemoryMailboxStore Unit :=
  InMemoryMailboxStore.enqueue (self.encodeDispatch dispatch)

def claim (self : ScopedMailboxStore) (threadId consumerId : String)
    (leaseMs now limit : UInt64) (token : Uuid) :
    Method Fault InMemoryMailboxStore (List RunDispatch) :=
  Method.map (List.filterMap self.decodeDispatch)
    (InMemoryMailboxStore.claim (self.scopedId threadId) consumerId leaseMs now limit token)

def claimDispatch (self : ScopedMailboxStore) (dispatchId consumerId : String)
    (leaseMs now : UInt64) (token : Uuid) :
    Method Fault InMemoryMailboxStore (Option RunDispatch) :=
  Method.map (Option.bind · self.decodeDispatch)
    (InMemoryMailboxStore.claimDispatch (self.scopedId dispatchId) consumerId leaseMs now token)

def ack (self : ScopedMailboxStore) (dispatchId claimToken : String) (now : UInt64) :
    Method Fault InMemoryMailboxStore Unit :=
  InMemoryMailboxStore.ack (self.scopedId dispatchId) claimToken now

def recordDispatchStart (self : ScopedMailboxStore)
    (dispatchId claimToken dispatchInstanceId : String) (now : UInt64) :
    Method Fault InMemoryMailboxStore Unit :=
  InMemoryMailboxStore.recordDispatchStart (self.scopedId dispatchId) claimToken dispatchInstanceId
    now

def recordRunResult (self : ScopedMailboxStore) (dispatchId claimToken : String)
    (result : RunDispatchResult) (now : UInt64) : Method Fault InMemoryMailboxStore Unit :=
  InMemoryMailboxStore.recordRunResult (self.scopedId dispatchId) claimToken
    (self.encodeResult result) now

def nack (self : ScopedMailboxStore) (dispatchId claimToken : String) (retryAt : UInt64)
    (error : String) (now : UInt64) : Method Fault InMemoryMailboxStore Unit :=
  InMemoryMailboxStore.nack (self.scopedId dispatchId) claimToken retryAt error now

def deadLetter (self : ScopedMailboxStore) (dispatchId claimToken error : String) (now : UInt64) :
    Method Fault InMemoryMailboxStore Unit :=
  InMemoryMailboxStore.deadLetter (self.scopedId dispatchId) claimToken error now

def cancel (self : ScopedMailboxStore) (dispatchId : String) (now : UInt64) :
    Method Fault InMemoryMailboxStore (Option RunDispatch) :=
  Method.map (Option.bind · self.decodeDispatch)
    (InMemoryMailboxStore.cancel (self.scopedId dispatchId) now)

def extendLease (self : ScopedMailboxStore) (dispatchId claimToken : String)
    (extensionMs now : UInt64) : Method Fault InMemoryMailboxStore Bool :=
  InMemoryMailboxStore.extendLease (self.scopedId dispatchId) claimToken extensionMs now

/-- What the scope sees of an interrupt. -/
def decodeInterrupt (self : ScopedMailboxStore) (interrupt : MailboxInterrupt) :
    MailboxInterrupt where
  newDispatchEpoch := interrupt.newDispatchEpoch
  activeDispatch := interrupt.activeDispatch.bind self.decodeDispatch
  supersededCount := interrupt.supersededCount

def interrupt (self : ScopedMailboxStore) (threadId : String) (now : UInt64) :
    Method Fault InMemoryMailboxStore MailboxInterrupt :=
  Method.map self.decodeInterrupt (InMemoryMailboxStore.interrupt (self.scopedId threadId) now)

/-- What the scope sees of an interrupt with its superseded records. -/
def decodeInterruptDetails (self : ScopedMailboxStore) (details : MailboxInterruptDetails) :
    MailboxInterruptDetails :=
  let supersededDispatches := details.supersededDispatches.filterMap self.decodeDispatch
  { newDispatchEpoch := details.newDispatchEpoch
    activeDispatch := details.activeDispatch.bind self.decodeDispatch
    supersededCount := supersededDispatches.length
    supersededDispatches := supersededDispatches }

def interruptDetailed (self : ScopedMailboxStore) (threadId : String) (now : UInt64) :
    Method Fault InMemoryMailboxStore MailboxInterruptDetails :=
  Method.map self.decodeInterruptDetails
    (InMemoryMailboxStore.interruptDetailed (self.scopedId threadId) now)

def supersedeClaimed (self : ScopedMailboxStore) (dispatchId claimToken : String) (now : UInt64)
    (reason : String) : Method Fault InMemoryMailboxStore (Option RunDispatch) :=
  Method.map (Option.bind · self.decodeDispatch)
    (InMemoryMailboxStore.supersedeClaimed (self.scopedId dispatchId) claimToken now reason)

/-- The sweep of the shared store runs over all scopes; what it took back from the
    others is left out of the reply only. -/
def reclaimExpiredLeases (self : ScopedMailboxStore) (now limit : UInt64) :
    Method Fault InMemoryMailboxStore (List RunDispatch) :=
  Method.map (List.filterMap self.decodeDispatch)
    (InMemoryMailboxStore.reclaimExpiredLeases now limit)

/-- A scope cannot purge. -/
def purgeTerminal (_self : ScopedMailboxStore) (_olderThan : UInt64) :
    Method Fault InMemoryMailboxStore Nat := fun s =>
  (Outcome.fail (.io "scoped terminal dispatch purge is not supported"), s)

/-! ## Wrapped reads -/

def currentDispatchEpoch (self : ScopedMailboxStore) (s : InMemoryMailboxStore)
    (threadId : String) : UInt64 :=
  s.currentEpoch (self.scopedId threadId)

def loadDispatch (self : ScopedMailboxStore) (s : InMemoryMailboxStore) (dispatchId : String) :
    Option RunDispatch :=
  (s.dispatches.get? (self.scopedId dispatchId)).bind self.decodeDispatch

def listDispatches (self : ScopedMailboxStore) (s : InMemoryMailboxStore) (threadId : String)
    (statusFilter : Option (List RunDispatchStatus)) (limit offset : UInt64) : List RunDispatch :=
  (s.listDispatches (self.scopedId threadId) statusFilter limit offset).filterMap self.decodeDispatch

/-- All terminal dispatches of the scope in listing order. -/
def terminalOrder (self : ScopedMailboxStore) (s : InMemoryMailboxStore) : List RunDispatch :=
  s.terminalOrder.filterMap self.decodeDispatch

def listTerminalDispatches (self : ScopedMailboxStore) (s : InMemoryMailboxStore)
    (limit offset : UInt64) : List RunDispatch :=
  ((self.terminalOrder s).drop offset.toNat).take limit.toNat

def queuedThreadIds (self : ScopedMailboxStore) (s : InMemoryMailboxStore) : List String :=
  s.queuedThreadIds.filterMap self.unscopedId

/-- Count by listing: queued dispatches thread by thread, terminal ones from the
    terminal listing. Claimed ones cannot be counted. -/
def countDispatchesByStatus (self : ScopedMailboxStore) (s : InMemoryMailboxStore)
    (status : RunDispatchStatus) : Outcome Nat :=
  if status = .queued then
    .ok ((self.queuedThreadIds s).map fun threadId =>
      ((s.queueOrder (self.scopedId threadId) (some [.queued])).filterMap
        self.decodeDispatch).length).sum
  else if status.isTerminal then
    .ok ((self.terminalOrder s).filter fun dispatch => dispatch.status == status).length
  else Outcome.fail (.io "scoped claimed dispatch count is not supported")

/-! ## Scopes over one store -/

/-- Run one call of a scope on the shared store. -/
def call (self : ScopedMailboxStore) : MailboxOp → Method Fault InMemoryMailboxStore MailboxReply
  | .enqueue dispatch => Method.map (fun _ => .unit) (self.enqueue dispatch)
  | .claim threadId consumerId leaseMs now limit token =>
    Method.map .dispatches (self.claim threadId consumerId leaseMs now limit token)
  | .claimDispatch dispatchId consumerId leaseMs now token =>
    Method.map .dispatch (self.claimDispatch dispatchId consumerId leaseMs now token)
  | .ack dispatchId claimToken now =>
    Method.map (fun _ => .unit) (self.ack dispatchId claimToken now)
  | .recordDispatchStart dispatchId claimToken dispatchInstanceId now =>
    Method.map (fun _ => .unit)
      (self.recordDispatchStart dispatchId claimToken dispatchInstanceId now)
  | .recordRunResult dispatchId claimToken result now =>
    Method.map (fun _ => .unit) (self.recordRunResult dispatchId claimToken result now)
  | .nack dispatchId claimToken retryAt error now =>
    Method.map (fun _ => .unit) (self.nack dispatchId claimToken retryAt error now)
  | .deadLetter dispatchId claimToken error now =>
    Method.map (fun _ => .unit) (self.deadLetter dispatchId claimToken error now)
  | .cancel dispatchId now => Method.map .dispatch (self.cancel dispatchId now)
  | .extendLease dispatchId claimToken extensionMs now =>
    Method.map .flag (self.extendLease dispatchId claimToken extensionMs now)
  | .interrupt threadId now => Method.map .interrupt (self.interrupt threadId now)
  | .interruptDetailed threadId now =>
    Method.map .interruptDetails (self.interruptDetailed threadId now)
  | .currentDispatchEpoch threadId => fun s =>
    (.ok (.epoch (self.currentDispatchEpoch s threadId)), s)
  | .supersedeClaimed dispatchId claimToken now reason =>
    Method.map .dispatch (self.supersedeClaimed dispatchId claimToken now reason)
  | .loadDispatch dispatchId => fun s => (.ok (.dispatch (self.loadDispatch s dispatchId)), s)
  | .listDispatches threadId statusFilter limit offset => fun s =>
    (.ok (.dispatches (self.listDispatches s threadId statusFilter limit offset)), s)
  | .countDispatchesByStatus status => fun s =>
    ((self.countDispatchesByStatus s status).map .count, s)
  | .listTerminalDispatches limit offset => fun s =>
    (.ok (.dispatches (self.listTerminalDispatches s limit offset)), s)
  | .reclaimExpiredLeases now limit => Method.map .dispatches (self.reclaimExpiredLeases now limit)
  | .purgeTerminal olderThan => Method.map .count (self.purgeTerminal olderThan)
  | .queuedThreadIds => fun s => (.ok (.threadIds (self.queuedThreadIds s)), s)

end ScopedMailboxStore

/-- A call of a scope, together with the iteration order of the shared store's
    dispatches at that moment. No two dispatches come at one place. -/
structure ScopedEvent where
  order : String → Nat
  injective : Function.Injective order
  scopeId : ScopeId
  op : MailboxOp

/-- A rank of strings without ties: the characters as the digits of a number. -/
def textRank (s : String) : Nat :=
  Nat.ofDigits 0x110001 (s.toList.map fun c => c.toNat + 1)

theorem textRank_injective : Function.Injective textRank := by
  intro s t h
  have hdigits : ∀ u : String,
      Nat.digits 0x110001 (textRank u) = u.toList.map fun c => c.toNat + 1 := by
    intro u
    refine Nat.digits_ofDigits _ (by decide) _ (fun l hl => ?_) fun hne => ?_
    · obtain ⟨c, -, rfl⟩ := List.mem_map.mp hl
      have hlt : c.toNat < 0x110000 := by
        rcases c.valid with hv | hv <;> simp only [Char.toNat] <;> omega
      omega
    · obtain ⟨c, -, hc⟩ := List.mem_map.mp (List.getLast_mem hne)
      omega
  have hlist : s.toList.map (fun c => c.toNat + 1) = t.toList.map fun c => c.toNat + 1 := by
    rw [← hdigits, ← hdigits, h]
  have hinj : Function.Injective fun c : Char => c.toNat + 1 := fun c c' hc =>
    Char.toNat_inj.mp (Nat.succ.inj hc)
  exact String.toList_inj.mp (List.map_injective_iff.mpr hinj hlist)

/-- A call of a scope under the order of the record keys. -/
def ScopedEvent.inTextOrder (scopeId : ScopeId) (op : MailboxOp) : ScopedEvent :=
  ⟨textRank, textRank_injective, scopeId, op⟩

/-- The scopes calling one shared in-memory store. -/
def sharedMailbox : Machine InMemoryMailboxStore ScopedEvent (Outcome MailboxReply) where
  step s e := (ScopedMailboxStore.mk e.scopeId).call e.op (s.reorder e.order)

end Remo
