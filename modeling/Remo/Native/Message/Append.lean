import Remo.Native.Message.Message
import Remo.Native.Storage.Error

/-!
# Pending and appended messages

Messages that wait in a pending queue, their selection at a boundary, and the checks before a
message enters the committed log.
-/

/-! ## Pending messages and their selection

A delivered message waits in the pending queue of its thread until a freeze at
some boundary consumes it. Queue positions count entries of a vector, so they
are natural numbers; the revision of a record is a `u64`.
-/

namespace Remo

/-- Runtime boundary at which a pending message may be consumed. -/
inductive DeliveryBoundary where
  | interrupt
  | nextStep
  | onNaturalEnd
  | resumeInput
  | newRun
deriving Repr, DecidableEq

namespace DeliveryBoundary

/-- Place of a boundary in the fallback cascade. -/
def precedence : DeliveryBoundary → Nat
  | interrupt => 0
  | nextStep => 1
  | onNaturalEnd => 2
  | resumeInput => 3
  | newRun => 4

/-- A message targeting `self` is eligible at `current` after the fallback cascade. -/
def eligibleAt (self current : DeliveryBoundary) : Bool :=
  if self = resumeInput ∨ current = resumeInput then self == current
  else decide (self.precedence ≤ current.precedence)

end DeliveryBoundary

/-- Number of eligible pending messages one freeze consumes. -/
inductive DeliveryGranularity where
  | one
  | batch
deriving Repr, DecidableEq

/-- Delivery policy attached to a pending message. -/
structure DeliveryMode where
  boundary : DeliveryBoundary
  granularity : DeliveryGranularity
  barrier : Bool
  targetRunId : Option String
  fallbackToNewRun : Bool
deriving Repr, DecidableEq

/-- Queue a new run. -/
def DeliveryMode.newRun (granularity : DeliveryGranularity) : DeliveryMode where
  boundary := .newRun
  granularity := granularity
  barrier := false
  targetRunId := none
  fallbackToNewRun := true

/-- Delivered-but-unconsumed message staged for a thread. -/
structure PendingMessageRecord where
  pendingId : String
  threadId : String
  position : Nat
  message : Message
  revision : UInt64
  deliveryMode : DeliveryMode
  createdAt : Option UInt64
  updatedAt : Option UInt64
deriving Repr, DecidableEq

/-- Build a pending record from a delivered message. A message without id takes
    the generated one. -/
def PendingMessageRecord.fromMessage (threadId : String) (position : Nat) (message : Message)
    (deliveryMode : DeliveryMode) (generated : Uuid) : PendingMessageRecord where
  pendingId := message.id.getD generated.text
  threadId := threadId
  position := position
  message := { message with id := some (message.id.getD generated.text) }
  revision := 1
  deliveryMode := deliveryMode
  createdAt := none
  updatedAt := none

/-! ## Queue revision -/

/-- One FNV-1a step. -/
def fnvByte (hash : UInt64) (byte : UInt8) : UInt64 :=
  (hash ^^^ byte.toUInt64) * 0x00000100000001b3

/-- The little-endian bytes of a `u64`. -/
def leBytes (value : UInt64) : List UInt8 :=
  (List.range 8).map fun i => (value >>> (8 * UInt64.ofNat i)).toUInt8

/-- Hash of the ids, positions and revisions of a queue, for optimistic reorders. -/
def pendingQueueRevision (pending : List PendingMessageRecord) : UInt64 :=
  pending.foldl (fun hash record =>
    let hash := record.pendingId.toUTF8.toList.foldl fnvByte hash
    let hash := (leBytes (UInt64.ofNat record.position)).foldl fnvByte hash
    (leBytes record.revision).foldl fnvByte hash) 0xcbf29ce484222325

/-! ## Selection -/

/-- Whether a freeze at the boundary, for the run, may consume the entry. -/
def eligibleForFreeze (entry : PendingMessageRecord) (boundary : DeliveryBoundary)
    (currentRunId : Option String) : Bool :=
  let mode := entry.deliveryMode
  let targeted := match mode.targetRunId with
    | none => true
    | some targetRunId =>
      if boundary = .newRun then mode.fallbackToNewRun else some targetRunId == currentRunId
  targeted && mode.boundary.eligibleAt boundary

/-- Whether a freeze may pass over an entry it cannot consume. -/
def canSkipIneligible (entry : PendingMessageRecord) (boundary : DeliveryBoundary) : Bool :=
  if boundary ≠ .newRun ∧ entry.deliveryMode.boundary = .newRun then true
  else decide (boundary = .newRun) && decide (entry.deliveryMode.boundary ≠ .newRun)
    && !entry.deliveryMode.fallbackToNewRun

/-- The selection loop from the entry with the given index on. -/
def selectPendingFrom (boundary : DeliveryBoundary) (currentRunId : Option String) (index : Nat)
    (skippedPrior : Bool) (selected : List Nat) : List PendingMessageRecord → List Nat
  | [] => selected
  | entry :: rest =>
    if !eligibleForFreeze entry boundary currentRunId then
      if entry.deliveryMode.barrier then selected
      else if canSkipIneligible entry boundary then
        selectPendingFrom boundary currentRunId (index + 1) true selected rest
      else selected
    else if entry.deliveryMode.barrier && skippedPrior then selected
    else if !selected.isEmpty && entry.deliveryMode.granularity == .one then selected
    else if entry.deliveryMode.barrier || entry.deliveryMode.granularity == .one then
      selected ++ [index]
    else
      selectPendingFrom boundary currentRunId (index + 1) skippedPrior (selected ++ [index]) rest

/-- Select pending entries for a boundary and optional current run id, by index. -/
def selectPendingForFreezeForRun (pending : List PendingMessageRecord)
    (boundary : DeliveryBoundary) (currentRunId : Option String) : List Nat :=
  selectPendingFrom boundary currentRunId 0 false [] pending

/-- Select pending entries that a freeze should consume. -/
def selectPendingForFreeze (pending : List PendingMessageRecord) (boundary : DeliveryBoundary) :
    List Nat :=
  selectPendingForFreezeForRun pending boundary none

end Remo

/-! ## Checks on appended messages

The checks a message passes before it enters the committed log, and the checks
on a pending record. The message shape is checked in both.
-/

namespace Remo

/-- A tool call id occurs once and neither it nor the tool name is blank. -/
def validateToolCalls (messageId : String) : List String → List ToolCall → Except StorageError Unit
  | _, [] => .ok ()
  | ids, call :: calls => do
    if Str.isBlank call.id then
      throw (.validation s!"assistant message '{messageId}' tool call id must not be empty")
    if Str.isBlank call.name then
      throw (.validation s!"assistant message '{messageId}' tool call name must not be empty")
    if call.id ∈ ids then
      throw (.validation
        s!"assistant message '{messageId}' contains duplicate tool call id '{call.id}'")
    validateToolCalls messageId (call.id :: ids) calls

/-- The id is present, only tool messages answer a call and only assistant
    messages make calls. -/
def validateMessageShape (message : Message) (context : String) : Except StorageError Unit := do
  let some messageId := message.id
    | throw (.validation s!"{context} message id must not be missing")
  if Str.isBlank messageId then
    throw (.validation s!"{context} message id must not be empty")
  match message.role, message.toolCallId with
  | .tool, none => throw (.validation s!"tool message '{messageId}' must carry tool_call_id")
  | .tool, some toolCallId =>
    if Str.isBlank toolCallId then
      throw (.validation s!"tool message '{messageId}' tool_call_id must not be empty")
  | _, some _ =>
    throw (.validation s!"non-tool message '{messageId}' must not carry tool_call_id")
  | _, none => pure ()
  if message.role ≠ .assistant ∧ message.toolCalls.isSome then
    throw (.validation s!"non-assistant message '{messageId}' must not carry tool_calls")
  validateToolCalls messageId [] (message.toolCalls.getD [])

/-- A compaction mark covers a non-empty interval before its summary. -/
def validateCompactionMark (messageId : String) (mark : CompactionMark) (summarySeq : Nat) :
    Except StorageError Unit := do
  if mark.fromSeq = 0 ∨ mark.toSeq < mark.fromSeq then
    throw (.validation
      s!"compaction mark on message '{messageId}' must be 1-based and non-empty")
  if summarySeq ≤ mark.toSeq then
    throw (.validation (s!"compaction mark on summary message '{messageId}' "
      ++ s!"must not cover the summary seq {summarySeq}"))

/-- The checks on one message appended under the given sequence number. -/
def validateMessageForAppend (message : Message) (summarySeq : Nat) :
    Except StorageError Unit := do
  validateMessageShape message "append delta"
  match message.metadata.bind MessageMetadata.compaction with
  | none => pure ()
  | some mark => validateCompactionMark (message.id.getD "") mark summarySeq

/-- The loop of `validateAppendOnlyDelta` over the messages not looked at yet. -/
def validateDeltaFrom (existingIds : List String) :
    Nat → List String → List Message → Except StorageError Unit
  | _, _, [] => .ok ()
  | summarySeq, deltaIds, message :: delta => do
    validateMessageForAppend message summarySeq
    let messageId := message.id.getD ""
    if messageId ∈ existingIds then
      throw (.validation
        s!"append delta contains already committed message id '{messageId}'")
    if messageId ∈ deltaIds then
      throw (.validation s!"append delta contains duplicate message id '{messageId}'")
    validateDeltaFrom existingIds (summarySeq + 1) (messageId :: deltaIds) delta

/-- Validate that a checkpoint append delta contains only new message ids. -/
def validateAppendOnlyDelta (existing delta : List Message) : Except StorageError Unit :=
  validateDeltaFrom (existing.filterMap Message.id) (existing.length + 1) [] delta

/-! ## Pending records -/

/-- The checks on a pending record. -/
def validatePendingMessageRecord (record : PendingMessageRecord) : Except StorageError Unit := do
  if Str.isBlank record.pendingId then
    throw (.validation "pending message id must not be empty")
  if Str.isBlank record.threadId then
    throw (.validation s!"pending message '{record.pendingId}' thread id must not be empty")
  if record.position = 0 then
    throw (.validation s!"pending message '{record.pendingId}' position must be 1-based")
  if record.revision = 0 then
    throw (.validation s!"pending message '{record.pendingId}' revision must be 1-based")
  match record.message.id with
  | some messageId =>
    if messageId ≠ record.pendingId then
      throw (.validation
        s!"pending message '{record.pendingId}' cannot carry message id '{messageId}'")
  | none => throw (.validation s!"pending message '{record.pendingId}' must carry message id")
  validateMessageShape record.message "pending"

/-- The checks on all records of a queue. -/
def validatePendingMessageRecords (records : List PendingMessageRecord) :
    Except StorageError Unit :=
  records.forM validatePendingMessageRecord

end Remo
