import Remo.Native.Message.Message

/-!
# Canonical events

What goes into the canonical event store: drafts with the scopes they belong to, and the options
of an append.
-/

namespace Remo

inductive EventStoreError where
  | validation (message : String)
  | idempotencyConflict (message : String)
  | expectedCursorConflict (message : String)
  | cursorExpired (message : String)
  | integrity (message : String)
deriving Repr, DecidableEq

/-- Durability class used by compacted and full-fidelity event capture. -/
inductive FidelityClass where
  | observedRuntimeEvent
  | committedRuntimeEvent
  | domainEvent
  | controlEvent
deriving Repr, DecidableEq

/-- Query and ordering scope for canonical events. -/
inductive EventScope where
  | thread (threadId : String)
  | run (runId : String)
deriving Repr, DecidableEq

inductive EventScopeFamily where
  | thread
  | run
deriving Repr, DecidableEq

/-- The stable scope family. -/
def EventScope.family : EventScope → EventScopeFamily
  | thread _ => .thread
  | run _ => .run

inductive EventVisibility where
  | visible
  | internal
  | audit
  | sensitive
deriving Repr, DecidableEq

namespace EventStoreError

def rejectBlank (field value : String) : Except EventStoreError Unit :=
  if Str.isBlank value then .error (.validation s!"{field} is required") else .ok ()

end EventStoreError

open EventStoreError in
def validateScope : EventScope → Except EventStoreError Unit
  | .thread threadId => rejectBlank "thread_id" threadId
  | .run runId => rejectBlank "run_id" runId

/-- The loop of `validate_scope_set`, with the scopes it has gone through. -/
def validateScopes (seen : List EventScope) : List EventScope → Except EventStoreError Unit
  | [] => .ok ()
  | scope :: scopes =>
    match validateScope scope with
    | .error error => .error error
    | .ok () =>
      if scope ∈ seen then .error (.validation "duplicate event scope")
      else if scope.family ∈ seen.map EventScope.family then
        .error (.validation "duplicate event scope family")
      else validateScopes (scope :: seen) scopes

/-- `validate_scope_set`. With one scope of each family, their ids cannot contradict. -/
def validateScopeSet (scopes : List EventScope) : Except EventStoreError Unit :=
  if scopes.isEmpty then .error (.validation "at least one event scope is required")
  else validateScopes [] scopes

/-- EventStore append input. -/
structure CanonicalEventDraft where
  scopes : List EventScope
  eventKind : String
  payload : Json
  causationId : Option String
  correlationId : Option String
  origin : String
  visibility : EventVisibility
  schemaVersion : UInt32
deriving Repr, DecidableEq

/-- Validate scope membership, origin, and schema version. -/
def CanonicalEventDraft.validate (draft : CanonicalEventDraft) : Except EventStoreError Unit :=
  match validateScopeSet draft.scopes with
  | .error error => .error error
  | .ok () =>
    match EventStoreError.rejectBlank "origin" draft.origin with
    | .error error => .error error
    | .ok () =>
      if draft.schemaVersion = 0 then
        .error (.validation "schema_version must be greater than 0")
      else .ok ()

/-- Options supplied when appending a canonical event. -/
structure AppendOptions where
  writerId : Option String
  idempotencyKey : Option String
  expectedPriorCursors : List (EventScope × String)
deriving Repr, DecidableEq

def AppendOptions.default : AppendOptions := ⟨none, none, []⟩

/-- A draft with its append options, staged for a commit. -/
structure StagedCanonicalEvent where
  draft : CanonicalEventDraft
  appendOptions : AppendOptions
deriving Repr, DecidableEq

/-- Construct a staged entry with default append options. -/
def StagedCanonicalEvent.new (draft : CanonicalEventDraft) : StagedCanonicalEvent :=
  ⟨draft, .default⟩

end Remo
