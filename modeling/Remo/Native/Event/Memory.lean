import Remo.ForStd.AssocMap
import Remo.ForStd.Machine
import Remo.Native.Event.Canonical
import Remo.Native.Storage.Error

/-!
# The in-memory event store

What a store makes of an accepted draft, and the store that keeps events in memory.
-/

/-! ## The contract of event stores

What a store makes of an accepted draft, and what its readers and subscribers get.
-/

namespace Remo

/-- Validate append options before passing them to a store. -/
def AppendOptions.validate (self : AppendOptions) : Except EventStoreError Unit := do
  if self.idempotencyKey.isSome then
    EventStoreError.rejectBlank "writer_id" (self.writerId.getD "")
  if let some key := self.idempotencyKey then
    EventStoreError.rejectBlank "idempotency_key" key

/-- The `(writer_id, idempotency_key)` identity when present. -/
def AppendOptions.idempotencyIdentity (self : AppendOptions) : Option (String × String) :=
  match self.writerId, self.idempotencyKey with
  | some writerId, some key => some (writerId, key)
  | _, _ => none

/-- What has to be the same in a retry: the origin and the schema version may differ. The source
    keeps the bytes of its JSON; they are equal when these are. -/
structure IdempotencyBasis where
  scopes : List EventScope
  eventKind : String
  payload : Json
  visibility : EventVisibility
  causationId : Option String
  correlationId : Option String
deriving Repr, DecidableEq

def CanonicalEventDraft.idempotencyDigest (self : CanonicalEventDraft) : IdempotencyBasis :=
  ⟨self.scopes, self.eventKind, self.payload, self.visibility, self.causationId,
    self.correlationId⟩

/-- Denormalized ids derived from event scopes. -/
structure EventScopeIds where
  threadId : Option String
  runId : Option String
deriving Repr, DecidableEq

def setOptionalId (slot : Option String) (value error : String) :
    Except EventStoreError (Option String) :=
  match slot with
  | some existing => if existing ≠ value then .error (.validation error) else .ok slot
  | none => .ok (some value)

/-- The loop of `derive_scope_ids`, with the ids found so far. -/
def deriveScopeIds (ids : EventScopeIds) : List EventScope → Except EventStoreError EventScopeIds
  | [] => .ok ids
  | .thread threadId :: scopes =>
    match setOptionalId ids.threadId threadId "thread_id contradicts scope membership" with
    | .error error => .error error
    | .ok slot => deriveScopeIds { ids with threadId := slot } scopes
  | .run runId :: scopes =>
    match setOptionalId ids.runId runId "run_id contradicts scope membership" with
    | .error error => .error error
    | .ok slot => deriveScopeIds { ids with runId := slot } scopes

/-- EventStore append output. -/
structure CanonicalEvent where
  eventId : String
  scopes : List EventScope
  cursorsByScope : List (EventScope × String)
  eventKind : String
  payload : Json
  threadId : Option String
  runId : Option String
  causationId : Option String
  correlationId : Option String
  origin : String
  visibility : EventVisibility
  schemaVersion : UInt32
  createdAt : UInt64
deriving Repr, DecidableEq

/-- The cursor of the event in a scope. -/
def CanonicalEvent.cursorIn (event : CanonicalEvent) (scope : EventScope) : Option String :=
  event.cursorsByScope.lookup scope

def validateCursorCoverage (scopes : List EventScope) (cursors : List (EventScope × String)) :
    Except EventStoreError Unit :=
  if (∀ scope ∈ scopes, scope ∈ cursors.map Prod.fst) ∧
      ∀ scope ∈ cursors.map Prod.fst, scope ∈ scopes then .ok ()
  else .error (.validation "cursors_by_scope must exactly match event scopes")

/-- Build a persisted canonical event from an accepted draft and store output. -/
def CanonicalEvent.fromAppend (eventId : String) (cursorsByScope : List (EventScope × String))
    (createdAt : UInt64) (draft : CanonicalEventDraft) : Except EventStoreError CanonicalEvent := do
  draft.validate
  validateCursorCoverage draft.scopes cursorsByScope
  let ids ← deriveScopeIds ⟨none, none⟩ draft.scopes
  return {
    eventId, scopes := draft.scopes, cursorsByScope, eventKind := draft.eventKind
    payload := draft.payload, threadId := ids.threadId, runId := ids.runId
    causationId := draft.causationId, correlationId := draft.correlationId
    origin := draft.origin, visibility := draft.visibility
    schemaVersion := draft.schemaVersion, createdAt }

/-- Paged canonical event list response. -/
structure EventPage where
  events : List CanonicalEvent
  nextCursor : Option String
  hasMore : Bool
deriving Repr, DecidableEq

/-- Start position for event subscription. -/
inductive SubscribeStart where
  | fromStart
  | fromCursor (cursor : String)
  | fromNow
deriving Repr, DecidableEq

end Remo

/-! ## The in-memory event store

An append, a listing and the opening of a subscription each hold the lock of the store. A
subscription then consumes its stream in steps of its own.
-/

namespace Remo

/-- A call that did not return a value: an error, or a panic. -/
inductive EventStoreFault where
  | store (error : EventStoreError)
  | panic (panic : Panic)
deriving Repr, DecidableEq

structure IdempotencyRecord where
  digest : IdempotencyBasis
  eventId : String
deriving Repr, DecidableEq

structure InMemoryEventState where
  nextEventSeq : UInt64
  nextScopeSeq : AssocMap EventScope UInt64
  events : AssocMap String CanonicalEvent
  scopeIndexes : AssocMap EventScope (List String)
  cursorPositions : AssocMap (EventScope × String) Nat
  idempotency : AssocMap (String × String) IdempotencyRecord

namespace InMemoryEventState

def new : InMemoryEventState :=
  ⟨0, AssocMap.empty, AssocMap.empty, AssocMap.empty, AssocMap.empty, AssocMap.empty⟩

/-- Fail with an error of the store. -/
def fail {α : Type} (error : EventStoreError) : Except EventStoreFault α := .error (.store error)

/-- The id of the `n`-th event. -/
def eventIdOf (n : UInt64) : String := s!"evt_mem_{n.toNat}"

/-- The `n`-th cursor of a scope. -/
def cursorOf (n : UInt64) : String := s!"cur_mem_{n.toNat}"

/-- The ids of the events of a scope, in the order they were appended. -/
def indexOf (s : InMemoryEventState) (scope : EventScope) : List String :=
  (s.scopeIndexes.get? scope).getD []

def lastCursorLocked (s : InMemoryEventState) (scope : EventScope) : Option String :=
  (s.scopeIndexes.get? scope).bind fun ids => ids.getLast?.bind fun eventId =>
    (s.events.get? eventId).bind fun event => event.cursorIn scope

/-! ## Append -/

def validateExpectedCursorScopes (draft : CanonicalEventDraft) (options : AppendOptions) :
    Except EventStoreError Unit :=
  if ∀ expected ∈ options.expectedPriorCursors, expected.1 ∈ draft.scopes then .ok ()
  else .error (.validation "expected cursor scope is not in append scope set")

def validateExpectedPriorCursors (s : InMemoryEventState) (options : AppendOptions) :
    Except EventStoreError Unit :=
  if ∀ expected ∈ options.expectedPriorCursors, s.lastCursorLocked expected.1 = some expected.2
  then .ok ()
  else .error (.expectedCursorConflict "expected prior cursor mismatch")

/-- Draw the next cursor of a scope. -/
def nextCursor (scope : EventScope) :
    Method EventStoreFault InMemoryEventState (EventScope × String) := fun s =>
  let seq := (s.nextScopeSeq.get? scope).getD 0
  if seq.toNat + 1 < 0x10000000000000000 then
    (.ok (scope, cursorOf (seq + 1)),
      { s with nextScopeSeq := s.nextScopeSeq.insert scope (seq + 1) })
  else (.error (.panic .arithmeticOverflow), s)

/-- Put the event at the end of the index of a scope. -/
def indexEvent (event : CanonicalEvent) (scope : EventScope) :
    Method EventStoreFault InMemoryEventState Unit := fun s =>
  match event.cursorIn scope with
  | none => (fail (.integrity "persisted event missing scope cursor"), s)
  | some cursor =>
    (.ok (), { s with
      scopeIndexes := s.scopeIndexes.insert scope (s.indexOf scope ++ [event.eventId])
      cursorPositions := s.cursorPositions.insert (scope, cursor) (s.indexOf scope).length })

/-- Keep the event and its idempotency identity. -/
def keepEvent (identity : Option (String × String)) (digest : IdempotencyBasis)
    (event : CanonicalEvent) (s : InMemoryEventState) : InMemoryEventState :=
  { s with
    idempotency := match identity with
      | none => s.idempotency
      | some identity => s.idempotency.insert identity ⟨digest, event.eventId⟩
    events := s.events.insert event.eventId event }

/-- Store the event that was counted last. -/
def storeCounted (draft : CanonicalEventDraft) (options : AppendOptions) (now : UInt64) :
    Method EventStoreFault InMemoryEventState CanonicalEvent := fun s =>
  let eventId := eventIdOf s.nextEventSeq
  Method.bind (Method.forEach nextCursor draft.scopes) (fun cursors s =>
    match CanonicalEvent.fromAppend eventId cursors now draft with
    | .error error => (fail error, s)
    | .ok event =>
      Method.bind (Method.forEach (indexEvent event) event.scopes) (fun _ s =>
        (.ok event, keepEvent options.idempotencyIdentity draft.idempotencyDigest event s)) s) s

/-- Store a new event of the draft. -/
def storeEvent (draft : CanonicalEventDraft) (options : AppendOptions) (now : UInt64) :
    Method EventStoreFault InMemoryEventState CanonicalEvent := fun s =>
  if s.nextEventSeq.toNat + 1 < 0x10000000000000000 then
    storeCounted draft options now { s with nextEventSeq := s.nextEventSeq + 1 }
  else (.error (.panic .arithmeticOverflow), s)

/-! ## List -/

/-- The events under the ids. -/
def loadEvents (s : InMemoryEventState) : List String → Except EventStoreError (List CanonicalEvent)
  | [] => .ok []
  | eventId :: ids =>
    match s.events.get? eventId with
    | none => .error (.integrity
        s!"event index points at missing event: CanonicalEventId(\"{eventId}\")")
    | some event => (s.loadEvents ids).map (event :: ·)

/-- The page of a scope from a position in its index. -/
def pageFrom (s : InMemoryEventState) (scope : EventScope) (start : Nat) (limit : UInt64) :
    Except EventStoreFault EventPage :=
  let ids := s.indexOf scope
  let stop := min (start + limit.toNat) ids.length
  if start ≤ stop then
    match s.loadEvents ((ids.drop start).take (stop - start)) with
    | .error error => fail error
    | .ok events =>
      let hasMore := decide (stop < ids.length)
      .ok {
        events
        nextCursor :=
          if hasMore then events.getLast?.bind fun event => event.cursorIn scope else none
        hasMore }
  else .error (.panic .arithmeticOverflow)

def listLocked (s : InMemoryEventState) (scope : EventScope) (start : Option String)
    (limit : UInt64) : Except EventStoreFault EventPage :=
  match start with
  | none => s.pageFrom scope 0 limit
  | some cursor =>
    match s.cursorPositions.get? (scope, cursor) with
    | none => fail (.cursorExpired cursor)
    | some position => s.pageFrom scope (position + 1) limit

end InMemoryEventState

/-! ## Streams -/

/-- The stream of a subscription: its history, and then what its receiver of the broadcast channel
    gets. `rx` is what was sent since the receiver was made and not received yet. -/
structure EventStream where
  scope : EventScope
  history : List CanonicalEvent
  rx : List CanonicalEvent
deriving Repr, DecidableEq

namespace EventStream

/-- The channel sends the event to the receiver. -/
def send (event : CanonicalEvent) (self : EventStream) : EventStream :=
  { self with rx := self.rx ++ [event] }

/-- One step of the stream: the next event of the history, or one `recv`. The channel decides
    whether the receiver lagged; it then loses the `skipped` oldest values. An event of another
    scope yields nothing. -/
def next (lagged : Option Nat) (self : EventStream) :
    Option (Except EventStoreError CanonicalEvent) × EventStream :=
  match self.history with
  | event :: history => (some (.ok event), { self with history })
  | [] =>
    match lagged with
    | some skipped =>
      (some (.error (.integrity s!"event subscriber lagged by {skipped} messages")),
        { self with rx := self.rx.drop skipped })
    | none =>
      match self.rx with
      | [] => (none, self)
      | event :: rx =>
        (if self.scope ∈ event.scopes then some (.ok event) else none, { self with rx })

end EventStream

/-! ## The store -/

/-- The store with the streams that were opened on it. -/
structure InMemoryEventStore where
  state : InMemoryEventState
  streams : List EventStream

/-- A call on the store, or a step of the stream with the given number. -/
inductive EventStoreOp where
  | append (draft : CanonicalEventDraft) (options : AppendOptions) (now : UInt64)
  | list (scope : EventScope) (start : Option String) (limit : UInt64)
  | subscribe (scope : EventScope) (start : SubscribeStart)
  | next (stream : Nat) (lagged : Option Nat)
deriving Repr, DecidableEq

inductive EventStoreReply where
  | appended (event : CanonicalEvent)
  | page (page : EventPage)
  | subscribed (startCursor : Option String) (stream : Nat)
  | item (item : Option (Except EventStoreError CanonicalEvent))
deriving Repr

namespace InMemoryEventStore

open InMemoryEventState (fail)

def new : InMemoryEventStore := ⟨.new, []⟩

/-- Store a new event and send it while the lock is held. -/
def appendNew (draft : CanonicalEventDraft) (options : AppendOptions) (now : UInt64) :
    Method EventStoreFault InMemoryEventStore CanonicalEvent := fun self =>
  match InMemoryEventState.storeEvent draft options now self.state with
  | (.error fault, state) => (.error fault, { self with state })
  | (.ok event, state) => (.ok event, ⟨state, self.streams.map (·.send event)⟩)

/-- Append without a retry to look for. -/
def appendChecked (draft : CanonicalEventDraft) (options : AppendOptions) (now : UInt64) :
    Method EventStoreFault InMemoryEventStore CanonicalEvent := fun self =>
  match self.state.validateExpectedPriorCursors options with
  | .error error => (fail error, self)
  | .ok () => appendNew draft options now self

/-- What `append` does under the lock. A retry of an append gets its event. -/
def appendLocked (draft : CanonicalEventDraft) (options : AppendOptions) (now : UInt64) :
    Method EventStoreFault InMemoryEventStore CanonicalEvent := fun self =>
  match options.idempotencyIdentity with
  | none => appendChecked draft options now self
  | some (writerId, idempotencyKey) =>
    match self.state.idempotency.get? (writerId, idempotencyKey) with
    | none => appendChecked draft options now self
    | some record =>
      if record.digest ≠ draft.idempotencyDigest then
        (fail (.idempotencyConflict (s!"idempotency identity reused with different input: " ++
          s!"writer_id={writerId}, idempotency_key={idempotencyKey}")), self)
      else
        match self.state.events.get? record.eventId with
        | none => (fail (.integrity s!"idempotent event missing: {record.eventId}"), self)
        | some existing => (.ok existing, self)

def append (draft : CanonicalEventDraft) (options : AppendOptions) (now : UInt64) :
    Method EventStoreFault InMemoryEventStore CanonicalEvent := fun self =>
  match draft.validate with
  | .error error => (fail error, self)
  | .ok () =>
    match options.validate with
    | .error error => (fail error, self)
    | .ok () =>
      match InMemoryEventState.validateExpectedCursorScopes draft options with
      | .error error => (fail error, self)
      | .ok () => appendLocked draft options now self

/-- `usize::MAX` -/
def noLimit : UInt64 := 0xFFFFFFFFFFFFFFFF

/-- The start cursor and the history of a subscription. -/
def subscribeLocked (state : InMemoryEventState) (scope : EventScope) :
    SubscribeStart → Except EventStoreFault (Option String × List CanonicalEvent)
  | .fromStart => (state.listLocked scope none noLimit).map fun page => (none, page.events)
  | .fromCursor cursor =>
    (state.listLocked scope (some cursor) noLimit).map fun page => (some cursor, page.events)
  | .fromNow => .ok (state.lastCursorLocked scope, [])

/-- Open a stream. Its receiver is made under the lock. -/
def subscribe (scope : EventScope) (start : SubscribeStart) :
    Method EventStoreFault InMemoryEventStore (Option String × Nat) := fun self =>
  match subscribeLocked self.state scope start with
  | .error fault => (.error fault, self)
  | .ok (startCursor, history) =>
    (.ok (startCursor, self.streams.length),
      { self with streams := self.streams ++ [⟨scope, history, []⟩] })

def call : EventStoreOp → Method EventStoreFault InMemoryEventStore EventStoreReply
  | .append draft options now => Method.map .appended (append draft options now)
  | .list scope start limit => fun self =>
    ((self.state.listLocked scope start limit).map .page, self)
  | .subscribe scope start =>
    Method.map (fun opened => .subscribed opened.1 opened.2) (subscribe scope start)
  | .next stream lagged => fun self =>
    match self.streams[stream]? with
    | none => (.ok (.item none), self)
    | some s =>
      (.ok (.item (s.next lagged).1),
        { self with streams := self.streams.set stream (s.next lagged).2 })

/-- The store as a machine whose events are calls and steps of its streams. -/
def machine : Machine InMemoryEventStore EventStoreOp (Except EventStoreFault EventStoreReply) where
  step self op := call op self

end InMemoryEventStore

end Remo
