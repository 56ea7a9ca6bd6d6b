import Remo.ForStd.AssocMap
import Remo.ForStd.Machine
import Remo.Native.Mailbox.Contract

/-!
# The in-memory mailbox store

`InMemoryMailboxStore` keeps the dispatches and the per-thread dispatch epochs
in two hash maps. Every call holds the write lock of the dispatch map from its
start to its end, so a run of the store is a sequence of whole calls. A record
is changed in place: what a call wrote before it failed or panicked stays.
-/

namespace Remo

/-- Per-thread dispatch epoch for interrupt semantics. -/
structure InMemoryMailboxStore.MailboxState where
  currentDispatchEpoch : UInt64
deriving Repr, DecidableEq

/-- In-memory mailbox store: dispatches by id and epochs by thread. -/
structure InMemoryMailboxStore where
  dispatches : AssocMap String RunDispatch
  state : AssocMap String InMemoryMailboxStore.MailboxState

namespace InMemoryMailboxStore

/-- A new empty store. -/
def new : InMemoryMailboxStore := ⟨AssocMap.empty, AssocMap.empty⟩

/-- The dispatch epoch of a thread, 0 for a thread without entry. -/
def currentEpoch (s : InMemoryMailboxStore) (threadId : String) : UInt64 :=
  ((s.state.get? threadId).map MailboxState.currentDispatchEpoch).getD 0

/-- Run a method on the dispatch stored under an id, in place. -/
def withDispatch {α : Type} (dispatchId : String) (missing : Outcome α)
    (f : InMemoryMailboxStore → Method Fault RunDispatch α) :
    Method Fault InMemoryMailboxStore α := fun s =>
  match s.dispatches.get? dispatchId with
  | none => (missing, s)
  | some dispatch =>
    ((f s dispatch).1,
      { s with dispatches := s.dispatches.modify dispatchId fun _ => (f s dispatch).2 })

/-! ## Enqueue -/

/-- Whether a non-terminal dispatch of the thread already has the dedupe key. -/
def hasDuplicate (s : InMemoryMailboxStore) (dispatch : RunDispatch) : Bool :=
  match dispatch.dedupeKey with
  | none => false
  | some dk => s.dispatches.values.any fun j =>
      j.threadId == dispatch.threadId && j.dedupeKey == some dk && !j.status.isTerminal

/-- Persist a dispatch under the current epoch of its thread. -/
def enqueue (dispatch : RunDispatch) : Method Fault InMemoryMailboxStore Unit := fun s =>
  match dispatch.validateForEnqueue with
  | .error e => (Outcome.fail e, s)
  | .ok () =>
    if s.hasDuplicate dispatch then
      (Outcome.fail (.alreadyExists ("dedupe_key=" ++ dispatch.dedupeKey.getD "")), s)
    else
      let s := { s with state := s.state.orInsert dispatch.threadId ⟨0⟩ }
      let dispatch := dispatch.prepareForEnqueue (s.currentEpoch dispatch.threadId)
      match dispatch.validateForPersist with
      | .error e => (Outcome.fail e, s)
      | .ok () =>
        (.ok (), { s with dispatches := s.dispatches.insert dispatch.dispatchId dispatch })

/-! ## Claim -/

/-- Supersede a queued dispatch of the thread whose epoch is behind. -/
def supersedeIfStale (threadId : String) (now currentEpoch : UInt64) :
    Method Fault RunDispatch Unit := fun dispatch =>
  if dispatch.threadId == threadId && dispatch.status == .queued
      && decide (dispatch.dispatchEpoch < currentEpoch) then
    MailboxState.markSupersededAtEpoch now currentEpoch
      (some MailboxState.reasonQueuedSupersededByEpoch) dispatch
  else (.ok (), dispatch)

/-- Supersede all queued dispatches of the thread whose epoch is behind. -/
def supersedeStaleQueued (threadId : String) (now currentEpoch : UInt64) :
    Method Fault InMemoryMailboxStore (List Unit) := fun s =>
  Method.forEach (fun id => withDispatch id (.ok ()) fun _ =>
    supersedeIfStale threadId now currentEpoch) s.dispatches.keys s

/-- Whether a dispatch of the thread is claimed. -/
def hasClaimed (s : InMemoryMailboxStore) (threadId : String) : Bool :=
  s.dispatches.values.any fun j => j.threadId == threadId && j.status == .claimed

/-- A dispatch that `claim` may hand out. -/
def eligible (threadId : String) (now : UInt64) (j : RunDispatch) : Bool :=
  j.threadId == threadId && j.status == .queued && decide (j.availableAt ≤ now)

/-- The ids `claim` hands out, in queue order. -/
def eligibleIds (s : InMemoryMailboxStore) (threadId : String) (now limit : UInt64) : List String :=
  let found := s.dispatches.entries.filter fun p => eligible threadId now p.2
  let sorted := found.insertionSort fun a b => a.2.queueLe b.2
  (sorted.take limit.toNat).map Prod.fst

/-- Claim a dispatch record and return it. -/
def claimRecord (consumerId : String) (leaseMs now : UInt64) (token : Uuid) :
    Method Fault RunDispatch RunDispatch := fun dispatch =>
  match Outcome.addU64 now leaseMs with
  | .error f => (.error f, dispatch)
  | .ok leaseUntil =>
    let claimed := dispatch.claim consumerId token.text leaseUntil now
    ((Outcome.ofResult claimed.1).map fun _ => claimed.2, claimed.2)

/-- Claim the dispatches with the given ids. -/
def claimAll (consumerId : String) (leaseMs now : UInt64) (token : Uuid) (ids : List String) :
    Method Fault InMemoryMailboxStore (List RunDispatch) :=
  Method.forEach (fun id => withDispatch id (Outcome.fail (.notFound id)) fun _ =>
    claimRecord consumerId leaseMs now token) ids

/-- Atomically claim up to `limit` queued dispatches of a thread. -/
def claim (threadId consumerId : String) (leaseMs now limit : UInt64) (token : Uuid) :
    Method Fault InMemoryMailboxStore (List RunDispatch) := fun s =>
  Method.bind (supersedeStaleQueued threadId now (s.currentEpoch threadId))
    (fun _ s =>
      -- Same thread must not have two Claimed dispatches concurrently.
      if s.hasClaimed threadId then (.ok [], s)
      else claimAll consumerId leaseMs now token (s.eligibleIds threadId now limit) s) s

/-- Whether another dispatch of the thread is claimed. -/
def hasOtherClaimed (s : InMemoryMailboxStore) (threadId dispatchId : String) : Bool :=
  s.dispatches.values.any fun j =>
    j.threadId == threadId && j.dispatchId != dispatchId && j.status == .claimed

/-- Claim a specific dispatch by id. -/
def claimDispatch (dispatchId consumerId : String) (leaseMs now : UInt64) (token : Uuid) :
    Method Fault InMemoryMailboxStore (Option RunDispatch) :=
  withDispatch dispatchId (.ok none) fun s dispatch =>
    if dispatch.status ≠ .queued then (.ok none, dispatch)
    else
      let currentEpoch := s.currentEpoch dispatch.threadId
      if dispatch.dispatchEpoch < currentEpoch then
        Method.map (fun _ => none) (MailboxState.markSupersededAtEpoch now currentEpoch
          (some MailboxState.reasonQueuedSupersededByEpoch)) dispatch
      else if s.hasOtherClaimed dispatch.threadId dispatchId then (.ok none, dispatch)
      else Method.map some (claimRecord consumerId leaseMs now token) dispatch

/-! ## Calls of a claim holder -/

/-- The shape of the calls a claim holder makes: find the dispatch, check that
    the caller owns it, supersede it when the thread epoch moved on, and run the
    transition otherwise. -/
def withClaim {α : Type} (dispatchId : String) (missing rejected : Outcome α)
    (stale : UInt64 → UInt64 → Outcome α) (owns : RunDispatch → Bool) (now : UInt64)
    (reason : String) (transition : Method Fault RunDispatch α) :
    Method Fault InMemoryMailboxStore α :=
  withDispatch dispatchId missing fun s dispatch =>
    if !owns dispatch then (rejected, dispatch)
    else
      let currentEpoch := s.currentEpoch dispatch.threadId
      if dispatch.dispatchEpoch < currentEpoch then
        Method.bind (MailboxState.markSupersededAtEpoch now currentEpoch (some reason))
          (fun _ d => (stale dispatch.dispatchEpoch currentEpoch, d)) dispatch
      else transition dispatch

/-- The presented token is the current one. -/
def holdsToken (claimToken : String) (dispatch : RunDispatch) : Bool :=
  dispatch.claimToken == some claimToken

/-- The dispatch is claimed and the presented token is the current one. -/
def holdsClaim (claimToken : String) (dispatch : RunDispatch) : Bool :=
  dispatch.status == .claimed && dispatch.claimToken == some claimToken

/-- The conflict reported for a wrong token. -/
def tokenConflict {α : Type} : Outcome α := Outcome.fail (.versionConflict 0 1)

/-- The conflict reported for a stale epoch. -/
def epochConflict {α : Type} (expected actual : UInt64) : Outcome α :=
  Outcome.fail (.versionConflict expected actual)

/-- Mark mailbox delivery as consumed and no longer retryable. -/
def ack (dispatchId claimToken : String) (now : UInt64) : Method Fault InMemoryMailboxStore Unit :=
  withClaim dispatchId (Outcome.fail (.notFound dispatchId)) tokenConflict epochConflict
    (holdsToken claimToken) now MailboxState.reasonClaimedSupersededByEpoch
    (MailboxState.markAcked now)

/-- Record the runtime dispatch identity for a claimed dispatch. -/
def recordDispatchStart (dispatchId claimToken dispatchInstanceId : String) (now : UInt64) :
    Method Fault InMemoryMailboxStore Unit :=
  withClaim dispatchId (Outcome.fail (.notFound dispatchId)) tokenConflict epochConflict
    (holdsClaim claimToken) now MailboxState.reasonClaimedSupersededBeforeStart
    fun d => (Outcome.ofResult (d.recordDispatchStart dispatchInstanceId now).1,
      (d.recordDispatchStart dispatchInstanceId now).2)

/-- Record the runtime result for a claimed dispatch. -/
def recordRunResult (dispatchId claimToken : String) (result : RunDispatchResult) (now : UInt64) :
    Method Fault InMemoryMailboxStore Unit :=
  withClaim dispatchId (Outcome.fail (.notFound dispatchId)) tokenConflict epochConflict
    (holdsClaim claimToken) now MailboxState.reasonClaimedSupersededBeforeResult
    fun d => (Outcome.ofResult (d.recordRunResult result now).1, (d.recordRunResult result now).2)

/-- Return a dispatch to the queue for retry, or dead-letter it. -/
def nack (dispatchId claimToken : String) (retryAt : UInt64) (error : String) (now : UInt64) :
    Method Fault InMemoryMailboxStore Unit :=
  withClaim dispatchId (Outcome.fail (.notFound dispatchId)) tokenConflict epochConflict
    (holdsToken claimToken) now MailboxState.reasonClaimedSupersededBeforeNack
    (MailboxState.markNackResult now retryAt error)

/-- Permanently fail a dispatch. -/
def deadLetter (dispatchId claimToken error : String) (now : UInt64) :
    Method Fault InMemoryMailboxStore Unit :=
  withClaim dispatchId (Outcome.fail (.notFound dispatchId)) tokenConflict epochConflict
    (holdsToken claimToken) now MailboxState.reasonClaimedSupersededBeforeDeadLetter
    (MailboxState.markDeadLetter now error)

/-- Extend an active lease. Everything but a live claim answers `false`. -/
def extendLease (dispatchId claimToken : String) (extensionMs now : UInt64) :
    Method Fault InMemoryMailboxStore Bool :=
  withClaim dispatchId (.ok false) (.ok false) (fun _ _ => .ok false) (holdsClaim claimToken) now
    MailboxState.reasonClaimedSupersededDuringLeaseRenewal fun d =>
      match Outcome.addU64 now extensionMs with
      | .error f => (.error f, d)
      | .ok leaseUntil =>
        ((Outcome.ofResult (d.extendLease leaseUntil now).1).map fun _ => true,
          (d.extendLease leaseUntil now).2)

/-- Cancel a queued dispatch. -/
def cancel (dispatchId : String) (now : UInt64) :
    Method Fault InMemoryMailboxStore (Option RunDispatch) :=
  withDispatch dispatchId (.ok none) fun _ dispatch =>
    if dispatch.status ≠ .queued then (.ok none, dispatch)
    else Method.bind (MailboxState.markCancelled now) (fun _ d => (.ok (some d), d)) dispatch

/-- Terminalize a claimed dispatch as superseded. -/
def supersedeClaimed (dispatchId claimToken : String) (now : UInt64) (reason : String) :
    Method Fault InMemoryMailboxStore (Option RunDispatch) :=
  withDispatch dispatchId (.ok none) fun s dispatch =>
    if dispatch.status ≠ .claimed then (.ok none, dispatch)
    else if dispatch.claimToken ≠ some claimToken then (tokenConflict, dispatch)
    else
      let epoch := max dispatch.dispatchEpoch (s.currentEpoch dispatch.threadId)
      Method.bind (MailboxState.markSupersededAtEpoch now epoch (some reason))
        (fun _ d => (.ok (some d), d)) dispatch

/-! ## Interrupt -/

/-- What the interrupt loop found at one dispatch. -/
inductive InterruptVisit where
  | superseded (dispatch : RunDispatch)
  | active (dispatch : RunDispatch)
  | skipped

/-- Visit one dispatch of the interrupt loop. -/
def interruptVisit (threadId : String) (now oldDispatchEpoch : UInt64) :
    Method Fault RunDispatch InterruptVisit := fun dispatch =>
  if dispatch.threadId ≠ threadId then (.ok .skipped, dispatch)
  else if dispatch.status = .queued ∧ dispatch.dispatchEpoch ≤ oldDispatchEpoch then
    Method.bind (MailboxState.markSuperseded now
        (some MailboxState.reasonQueuedSupersededByInterrupt))
      (fun _ d => (.ok (.superseded d), d)) dispatch
  else if dispatch.status = .claimed then (.ok (.active dispatch), dispatch)
  else (.ok .skipped, dispatch)

/-- Visit all dispatches. -/
def interruptVisits (threadId : String) (now oldDispatchEpoch : UInt64) :
    Method Fault InMemoryMailboxStore (List InterruptVisit) := fun s =>
  Method.forEach (fun id => withDispatch id (.ok .skipped) fun _ =>
    interruptVisit threadId now oldDispatchEpoch) s.dispatches.keys s

/-- Collect what the interrupt loop found. -/
def interruptReport (newDispatchEpoch : UInt64) (visits : List InterruptVisit) :
    MailboxInterruptDetails :=
  let superseded := visits.filterMap fun
    | .superseded d => some d
    | _ => none
  let active := visits.filterMap fun
    | .active d => some d
    | _ => none
  { newDispatchEpoch := newDispatchEpoch
    activeDispatch := active.getLast?
    supersededCount := superseded.length
    supersededDispatches := superseded }

/-- Atomically bump the thread epoch, supersede the queued dispatches and report
    the claimed one. -/
def interruptDetailed (threadId : String) (now : UInt64) :
    Method Fault InMemoryMailboxStore MailboxInterruptDetails := fun s =>
  let s := { s with state := s.state.orInsert threadId ⟨0⟩ }
  let oldDispatchEpoch := s.currentEpoch threadId
  match Outcome.addU64 oldDispatchEpoch 1 with
  | .error f => (.error f, s)
  | .ok newDispatchEpoch =>
    let s := { s with state := s.state.modify threadId fun _ => ⟨newDispatchEpoch⟩ }
    Method.map (interruptReport newDispatchEpoch) (interruptVisits threadId now oldDispatchEpoch) s

/-- The summary form of `interruptDetailed`. -/
def interrupt (threadId : String) (now : UInt64) :
    Method Fault InMemoryMailboxStore MailboxInterrupt :=
  Method.map MailboxInterruptDetails.intoSummary (interruptDetailed threadId now)

/-! ## Maintenance -/

/-- A claimed dispatch whose lease has run out. -/
def leaseExpired (now : UInt64) (j : RunDispatch) : Bool :=
  j.status == .claimed && j.leaseUntil.any fun leaseUntil => decide (leaseUntil < now)

/-- Take back one expired dispatch of a thread at `currentEpoch`. -/
def reclaimRecord (now currentEpoch : UInt64) : Method Fault RunDispatch (Option RunDispatch) :=
  fun dispatch =>
    if dispatch.dispatchEpoch < currentEpoch then
      Method.map (fun _ => none) (MailboxState.markSupersededAtEpoch now currentEpoch
        (some MailboxState.reasonClaimedLeaseExpiredAfterInterrupt)) dispatch
    else Method.bind (MailboxState.markExpiredLease now) (fun _ d => (.ok (some d), d)) dispatch

/-- The claimed dispatches whose lease has run out, in iteration order. -/
def expired (s : InMemoryMailboxStore) (now : UInt64) : List RunDispatch :=
  s.dispatches.values.filter (leaseExpired now)

/-- The ids a sweep takes back, in iteration order. -/
def expiredIds (s : InMemoryMailboxStore) (now limit : UInt64) : List String :=
  ((s.expired now).take limit.toNat).map RunDispatch.dispatchId

/-- Reclaim dispatches whose lease has run out. -/
def reclaimExpiredLeases (now limit : UInt64) :
    Method Fault InMemoryMailboxStore (List RunDispatch) := fun s =>
  Method.map (fun reclaimed => reclaimed.filterMap id)
    (Method.forEach (fun id => withDispatch id (Outcome.fail (.notFound id)) fun s dispatch =>
      reclaimRecord now (s.currentEpoch dispatch.threadId) dispatch) (s.expiredIds now limit)) s

/-- Purge terminal dispatches older than the cutoff, and the epochs of the
    threads left without any dispatch. -/
def purgeTerminal (olderThan : UInt64) : Method Fault InMemoryMailboxStore Nat := fun s =>
  let kept := s.dispatches.retain fun _ j =>
    !(j.status.isTerminal && decide (j.updatedAt < olderThan))
  let liveThreads := kept.values.map RunDispatch.threadId
  (.ok (s.dispatches.entries.length - kept.entries.length),
    { dispatches := kept
      state := s.state.retain fun threadId _ => liveThreads.contains threadId })

/-! ## Reads -/

/-- The dispatches of a thread that pass the filter, in queue order. -/
def queueOrder (s : InMemoryMailboxStore) (threadId : String)
    (statusFilter : Option (List RunDispatchStatus)) : List RunDispatch :=
  (s.dispatches.values.filter fun j =>
    j.threadId == threadId && statusFilter.all (·.contains j.status)).insertionSort
      RunDispatch.queueLe

/-- List the dispatches of a thread in queue order. -/
def listDispatches (s : InMemoryMailboxStore) (threadId : String)
    (statusFilter : Option (List RunDispatchStatus)) (limit offset : UInt64) : List RunDispatch :=
  ((s.queueOrder threadId statusFilter).drop offset.toNat).take limit.toNat

/-- Count the dispatches of a status. -/
def countDispatchesByStatus (s : InMemoryMailboxStore) (status : RunDispatchStatus) : Nat :=
  (s.dispatches.values.filter fun j => j.status == status).length

/-- The terminal dispatches of all threads in listing order. -/
def terminalOrder (s : InMemoryMailboxStore) : List RunDispatch :=
  (s.dispatches.values.filter fun j => j.status.isTerminal).insertionSort RunDispatch.terminalLe

/-- List terminal dispatches across all threads. -/
def listTerminalDispatches (s : InMemoryMailboxStore) (limit offset : UInt64) : List RunDispatch :=
  (s.terminalOrder.drop offset.toNat).take limit.toNat

/-- The threads that hold a queued dispatch, sorted. -/
def queuedThreadIds (s : InMemoryMailboxStore) : List String :=
  let ids := (s.dispatches.values.filter fun j => j.status == .queued).map RunDispatch.threadId
  ids.dedup.insertionSort (· ≤ ·)

/-! ## The store as a machine -/

/-- Run one call. -/
def call : MailboxOp → Method Fault InMemoryMailboxStore MailboxReply
  | .enqueue dispatch => Method.map (fun _ => .unit) (enqueue dispatch)
  | .claim threadId consumerId leaseMs now limit token =>
    Method.map .dispatches (claim threadId consumerId leaseMs now limit token)
  | .claimDispatch dispatchId consumerId leaseMs now token =>
    Method.map .dispatch (claimDispatch dispatchId consumerId leaseMs now token)
  | .ack dispatchId claimToken now => Method.map (fun _ => .unit) (ack dispatchId claimToken now)
  | .recordDispatchStart dispatchId claimToken dispatchInstanceId now =>
    Method.map (fun _ => .unit) (recordDispatchStart dispatchId claimToken dispatchInstanceId now)
  | .recordRunResult dispatchId claimToken result now =>
    Method.map (fun _ => .unit) (recordRunResult dispatchId claimToken result now)
  | .nack dispatchId claimToken retryAt error now =>
    Method.map (fun _ => .unit) (nack dispatchId claimToken retryAt error now)
  | .deadLetter dispatchId claimToken error now =>
    Method.map (fun _ => .unit) (deadLetter dispatchId claimToken error now)
  | .cancel dispatchId now => Method.map .dispatch (cancel dispatchId now)
  | .extendLease dispatchId claimToken extensionMs now =>
    Method.map .flag (extendLease dispatchId claimToken extensionMs now)
  | .interrupt threadId now => Method.map .interrupt (interrupt threadId now)
  | .interruptDetailed threadId now => Method.map .interruptDetails (interruptDetailed threadId now)
  | .currentDispatchEpoch threadId => fun s => (.ok (.epoch (s.currentEpoch threadId)), s)
  | .supersedeClaimed dispatchId claimToken now reason =>
    Method.map .dispatch (supersedeClaimed dispatchId claimToken now reason)
  | .loadDispatch dispatchId => fun s => (.ok (.dispatch (s.dispatches.get? dispatchId)), s)
  | .listDispatches threadId statusFilter limit offset => fun s =>
    (.ok (.dispatches (s.listDispatches threadId statusFilter limit offset)), s)
  | .countDispatchesByStatus status => fun s => (.ok (.count (s.countDispatchesByStatus status)), s)
  | .listTerminalDispatches limit offset => fun s =>
    (.ok (.dispatches (s.listTerminalDispatches limit offset)), s)
  | .reclaimExpiredLeases now limit => Method.map .dispatches (reclaimExpiredLeases now limit)
  | .purgeTerminal olderThan => Method.map .count (purgeTerminal olderThan)
  | .queuedThreadIds => fun s => (.ok (.threadIds s.queuedThreadIds), s)

/-- Put an iteration order of the dispatch map in force. -/
def reorder (s : InMemoryMailboxStore) (order : String → Nat) : InMemoryMailboxStore :=
  { s with dispatches := s.dispatches.reorder order }

/-- The store answering one call after the other, each under an arbitrary
    iteration order of its dispatch map. -/
def machine : Machine InMemoryMailboxStore MailboxEvent (Outcome MailboxReply) where
  step s e := call e.op (s.reorder e.order)

end InMemoryMailboxStore

end Remo
