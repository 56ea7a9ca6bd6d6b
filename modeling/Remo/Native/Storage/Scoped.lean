import Remo.Native.Scope
import Remo.Native.Storage.Cursors
import Remo.Native.Storage.Store

/-!
# The scoped thread and run store

A store of one scope within a shared one: its calls and its listings.
-/

/-! ## The scoped thread and run store

`ScopedThreadRunStore` keeps the threads and runs of one scope in a shared store. It
rewrites ids of a record on the way in and rewrites them back on the way out; the inner
store checks and projects the rewritten record.
-/

namespace Remo

namespace InMemoryStore

/-! ## Saves of the inner store -/

/-- Save a thread without a look at its parent. -/
def saveThread (thread : Thread) : Method Fault InMemoryStore Unit := fun s =>
  let normalized := thread.normalizeLineage
  match normalized.validateForPersist with
  | .error e => (Outcome.fail e, s)
  | .ok () => (.ok (), { s with threads := s.threads.insert normalized.id normalized })

/-- Store a new run. -/
def createRun (record : RunRecord) : Method Fault InMemoryStore Unit := fun s =>
  match record.validateForPersist with
  | .error e => (Outcome.fail e, s)
  | .ok () =>
    if (s.runs.get? record.runId).isSome then (Outcome.fail (.alreadyExists record.runId), s)
    else
      (.ok (), { s with
        runs := s.runs.insert record.runId record
        runInsertion := s.runInsertion.insert record.runId s.runSeq
        runSeq := s.runSeq + 1 })

end InMemoryStore

/-- The calls that save threads and runs. -/
inductive SaveOp where
  | saveThread (thread : Thread)
  | createRun (record : RunRecord)
  | checkpoint (threadId : String) (messages : List Message) (run : RunRecord) (now : UInt64)
  | checkpointAppend (threadId : String) (messages : List Message)
      (expectedVersion : Option UInt64) (run : RunRecord) (now : UInt64)

/-- One saving call of the inner store. -/
def InMemoryStore.callSave : SaveOp → Method Fault InMemoryStore Unit
  | .saveThread thread => saveThread thread
  | .createRun record => createRun record
  | .checkpoint threadId messages run now => checkpoint threadId messages run now
  | .checkpointAppend threadId messages expectedVersion run now =>
    Method.map (fun _ => ()) (checkpointAppend threadId messages expectedVersion run now)

/-- One call of the inner store, a save or another writing call. -/
def InMemoryStore.callAny : StoreOp ⊕ SaveOp → Method Fault InMemoryStore Unit
  | .inl op => Method.map (fun _ => ()) (callStore op)
  | .inr op => callSave op

/-- The inner store as a machine over all its writing calls. -/
def InMemoryStore.threadRunMachine : Machine InMemoryStore (StoreOp ⊕ SaveOp) (Outcome Unit) where
  step s op := callAny op s

/-- A calling surface over one scope of a shared store. -/
structure ScopedThreadRunStore where
  scopeId : ScopeId
deriving Repr, DecidableEq

namespace ScopedThreadRunStore

variable (self : ScopedThreadRunStore)

def scopedId (id : String) : String := scopedKey self.scopeId id

def unscopedId (id : String) : Option String := unscopedKey self.scopeId id

/-- Read an optional id back, and fail where it is not one of the scope. -/
def unscopedParent : Option String → Option (Option String)
  | some id => (self.unscopedId id).map some
  | none => some none

/-! ## Records -/

def encodeThread (thread : Thread) : Thread :=
  { thread with
    id := self.scopedId thread.id
    parentThreadId := thread.parentThreadId.map self.scopedId }

/-- The run pointers of the thread are left as they are. -/
def decodeThread (thread : Thread) : Option Thread := do
  let id ← self.unscopedId thread.id
  let parentThreadId ← self.unscopedParent thread.parentThreadId
  pure { thread with id := id, parentThreadId := parentThreadId }

/-- The activation of the run is left as it is. -/
def encodeRun (run : RunRecord) : RunRecord :=
  { run with
    runId := self.scopedId run.runId
    threadId := self.scopedId run.threadId
    parentRunId := run.parentRunId.map self.scopedId
    input := run.input.map fun input => { input with threadId := self.scopedId input.threadId }
    output := run.output.map fun output => { output with threadId := self.scopedId output.threadId }
    request := run.request.map fun request =>
      { request with parentThreadId := request.parentThreadId.map self.scopedId } }

def decodeInput : Option RunMessageInput → Option (Option RunMessageInput)
  | some input =>
    (self.unscopedId input.threadId).map fun threadId => some { input with threadId := threadId }
  | none => some none

def decodeOutput : Option RunMessageOutput → Option (Option RunMessageOutput)
  | some output =>
    (self.unscopedId output.threadId).map fun threadId => some { output with threadId := threadId }
  | none => some none

def decodeRequest : Option RunRequestSnapshot → Option (Option RunRequestSnapshot)
  | some request =>
    (self.unscopedParent request.parentThreadId).map fun parentThreadId =>
      some { request with parentThreadId := parentThreadId }
  | none => some none

def decodeRun (run : RunRecord) : Option RunRecord := do
  let runId ← self.unscopedId run.runId
  let threadId ← self.unscopedId run.threadId
  let parentRunId ← self.unscopedParent run.parentRunId
  let input ← self.decodeInput run.input
  let output ← self.decodeOutput run.output
  let request ← self.decodeRequest run.request
  pure { run with
    runId := runId
    threadId := threadId
    parentRunId := parentRunId
    input := input
    output := output
    request := request }

/-! ## Calls -/

def loadThread (threadId : String) (inner : InMemoryStore) : Option Thread :=
  (inner.threads.get? (self.scopedId threadId)).bind self.decodeThread

def loadRun (runId : String) (inner : InMemoryStore) : Option RunRecord :=
  (inner.runs.get? (self.scopedId runId)).bind self.decodeRun

/-- The call the wrapper makes of the inner store. -/
def encodeSave : SaveOp → SaveOp
  | .saveThread thread => .saveThread (self.encodeThread thread)
  | .createRun record => .createRun (self.encodeRun record)
  | .checkpoint threadId messages run now =>
    .checkpoint (self.scopedId threadId) messages (self.encodeRun run) now
  | .checkpointAppend threadId messages expectedVersion run now =>
    .checkpointAppend (self.scopedId threadId) messages expectedVersion (self.encodeRun run) now

/-- One saving call through the wrapper. -/
def callSave (op : SaveOp) : Method Fault InMemoryStore Unit :=
  InMemoryStore.callSave (self.encodeSave op)

end ScopedThreadRunStore

end Remo

/-! ## Listings of the scoped store

The scoped store lists the threads of its scope page by page and passes a message query on to the
inner store under the run ids of the scope. It has no thread query of its own: the default scans
all threads and applies the query of the caller to what it has loaded.
-/

namespace Remo

namespace ScopedThreadRunStore

variable (self : ScopedThreadRunStore)

/-! ## Threads -/

/-- What every key of the scope starts with. -/
def scopePrefix : String := scopedKey self.scopeId ""

/-- The query for one page of the keys of the scope. -/
def scopeQuery (offset limit : Nat) : ThreadQuery where
  offset := offset
  limit := limit
  resourceId := none
  parentFilter := .any
  idPrefix := some self.scopePrefix

/-- The loop of `listThreads` over the pages of the inner store. -/
def listThreadsFrom (inner : InMemoryStore) (limit nextOffset : Nat) (items : List String) :
    List String :=
  if items.length < limit then
    let page := inner.listThreadsQuery
      (self.scopeQuery nextOffset (min (limit - items.length) 200))
    let items := items ++ page.items.filterMap self.unscopedId
    if hstop : page.hasMore = false ∨ page.items = [] then items
    else
      have : inner.threads.values.length - (nextOffset + page.items.length) <
          inner.threads.values.length - nextOffset := by
        have hmore := lt_of_hasMore (Bool.not_eq_false _ ▸ (not_or.mp hstop).1)
        have hnonempty := List.length_pos_iff.mpr (not_or.mp hstop).2
        show _ - (nextOffset + page.items.length) < _
        change nextOffset + page.items.length < _ at hmore
        omega
      listThreadsFrom inner limit (nextOffset + page.items.length) items
  else items
termination_by inner.threads.values.length - nextOffset

/-- List the thread ids of the scope with pagination. -/
def listThreads (inner : InMemoryStore) (offset limit : Nat) : List String :=
  if limit = 0 then [] else self.listThreadsFrom inner limit offset []

/-- The listing has no more ids than there are threads behind the offset. -/
theorem length_listThreadsFrom_le (inner : InMemoryStore) (limit nextOffset : Nat)
    (items : List String) :
    (self.listThreadsFrom inner limit nextOffset items).length ≤
      items.length + (inner.threads.values.length - nextOffset) := by
  induction nextOffset, items using listThreadsFrom.induct self inner limit with
  | case1 nextOffset items hlt page hstop =>
    have hpage : page.items.length ≤ inner.threads.values.length - nextOffset :=
      length_items_le inner.threads.values _
    have hids := List.length_filterMap_le self.unscopedId page.items
    rw [listThreadsFrom, if_pos hlt]
    dsimp only
    rw [dif_pos hstop, List.length_append]
    show items.length + (page.items.filterMap self.unscopedId).length ≤ _
    omega
  | case2 nextOffset items hlt page items' hstop _ ih =>
    have hpage : page.items.length ≤ inner.threads.values.length - nextOffset :=
      length_items_le inner.threads.values _
    have hids := List.length_filterMap_le self.unscopedId page.items
    have hitems : items'.length = items.length + (page.items.filterMap self.unscopedId).length :=
      List.length_append
    rw [listThreadsFrom, if_pos hlt]
    dsimp only
    rw [dif_neg hstop]
    show (self.listThreadsFrom inner limit (nextOffset + page.items.length) items').length ≤ _
    omega
  | case3 nextOffset items hlt =>
    rw [listThreadsFrom, if_neg hlt]
    omega

theorem length_listThreads_le (inner : InMemoryStore) (offset limit : Nat) :
    (self.listThreads inner offset limit).length ≤ inner.threads.values.length - offset := by
  unfold listThreads
  split
  · exact Nat.zero_le _
  · have h := self.length_listThreadsFrom_le inner limit offset []
    rwa [List.length_nil, Nat.zero_add] at h

/-- The most ids the default asks for at a time. -/
def scanLimit : Nat := 200

/-- The loop of the default thread query over the listing of the scope. -/
def scanThreads (inner : InMemoryStore) (offset : Nat) (threads : List Thread) : List Thread :=
  let ids := self.listThreads inner offset scanLimit
  if hids : ids = [] then threads
  else
    let threads := threads ++ ids.filterMap fun id => self.loadThread id inner
    if ids.length < scanLimit then threads
    else
      have : inner.threads.values.length - (offset + ids.length) <
          inner.threads.values.length - offset := by
        have hle : ids.length ≤ inner.threads.values.length - offset :=
          self.length_listThreads_le inner offset scanLimit
        have hpos := List.length_pos_iff.mpr hids
        omega
      scanThreads inner (offset + ids.length) threads
termination_by inner.threads.values.length - offset

/-- The default `list_threads_query`: load all threads, then apply the query. -/
def listThreadsQuery (inner : InMemoryStore) (query : ThreadQuery) : ThreadPage :=
  paginateThreads (self.scanThreads inner 0 []) query

/-! ## Messages -/

/-- A run id that is not one of the scope is left as it is. -/
def decodeMessageRecord (record : MessageRecord) : Option MessageRecord :=
  (self.unscopedId record.threadId).map fun threadId =>
    { record with
      threadId := threadId
      producedByRunId := record.producedByRunId.map fun runId =>
        (self.unscopedId runId).getD runId }

def encodeMessageQuery (query : MessageQuery) : MessageQuery :=
  { query with runId := query.runId.map self.scopedId }

/-- List message records of a thread of the scope. -/
def listMessageRecords (inner : InMemoryStore) (threadId : String) (query : MessageQuery)
    (generated : Nat → Uuid) : Except StorageError MessagePage := do
  let page ← inner.listMessageRecords (self.scopedId threadId) (self.encodeMessageQuery query)
    generated
  pure { page with records := page.records.filterMap self.decodeMessageRecord }

end ScopedThreadRunStore

end Remo
