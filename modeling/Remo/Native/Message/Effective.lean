import Mathlib.Data.List.Sort
import Remo.Native.Message.Message

/-!
# Effective message view

The view of the committed log that a run resumes from. Compaction summaries
replace the interval they cover, and tool calls without a result are taken out.
Both happen when the log is read; the log itself is only appended to.
-/

namespace Remo

/-! ## Folding compaction intervals -/

/-- Interval of a compaction summary, with the message that replaces it. -/
structure SummaryInterval where
  fromSeq : Nat
  toSeq : Nat
  summary : Message
deriving Repr, DecidableEq

namespace SummaryInterval

/-- The interval a summary record covers. -/
def ofRecord (record : MessageRecord) : Option SummaryInterval :=
  record.compaction.map fun mark => ⟨mark.fromSeq, mark.toSeq, record.message⟩

/-- Start ascending, then end descending, so that the widest interval at each start
    comes first. -/
def Before (a b : SummaryInterval) : Prop :=
  a.fromSeq < b.fromSeq ∨ a.fromSeq = b.fromSeq ∧ b.toSeq ≤ a.toSeq

instance : DecidableRel Before := fun _ _ => inferInstanceAs (Decidable (_ ∨ _))

/-- The interval lies in the kept one. -/
def dominatedBy (self kept : SummaryInterval) : Bool :=
  decide (kept.fromSeq ≤ self.fromSeq) && decide (self.toSeq ≤ kept.toSeq)

end SummaryInterval

/-- Keep a candidate only when no already kept one covers it. -/
def dropDominated : List SummaryInterval → List SummaryInterval → List SummaryInterval
  | intervals, [] => intervals
  | intervals, cand :: candidates =>
    if intervals.any cand.dominatedBy then dropDominated intervals candidates
    else dropDominated (intervals ++ [cand]) candidates

/-- The sequence number lies in one of the intervals. -/
def coveredBy (intervals : List SummaryInterval) (seq : Nat) : Bool :=
  intervals.any fun i => decide (i.fromSeq ≤ seq) && decide (seq ≤ i.toSeq)

/-- The emission loop over the raw records. `next` holds the intervals whose summary
    has not been put out yet. -/
def emitEffective (intervals : List SummaryInterval) :
    List SummaryInterval → List MessageRecord → List Message
  | next, [] => next.map SummaryInterval.summary
  | next, record :: records =>
    (next.takeWhile fun i => i.fromSeq ≤ record.seq).map SummaryInterval.summary ++
      ((if coveredBy intervals record.seq then [] else [record.message]) ++
        emitEffective intervals (next.dropWhile fun i => i.fromSeq ≤ record.seq) records)

/-- The intervals that replace raw records, by start. -/
def effectiveIntervals (records : List MessageRecord) : List SummaryInterval :=
  let candidates := (records.filterMap SummaryInterval.ofRecord).insertionSort
    SummaryInterval.Before
  (dropDominated [] candidates).insertionSort fun a b => a.fromSeq ≤ b.fromSeq

/-- Fold committed message records into the effective view. -/
def effectiveMessages (records : List MessageRecord) : List Message :=
  let summarySeqs := (records.filter fun r => r.compaction.isSome).map MessageRecord.seq
  let intervals := effectiveIntervals records
  emitEffective intervals intervals (records.filter fun r => r.seq ∉ summarySeqs)

/-! ## Unpaired tool calls -/

/-- The tool call ids that tool messages of the visibility name. -/
def toolCallIdsAt (visibility : Visibility) (messages : List Message) : List String :=
  messages.filterMap fun message =>
    if message.role = .tool ∧ message.visibility = visibility then message.toolCallId else none

/-- The calls of a message without those that are unanswered or retracted. -/
def retainAnswered (answered retracted : List String) (message : Message) : Message :=
  if message.role ≠ .assistant then message
  else
    match message.toolCalls with
    | none => message
    | some calls =>
      let calls := calls.filter fun call => call.id ∈ answered ∧ call.id ∉ retracted
      { message with toolCalls := if calls.isEmpty then none else some calls }

/-- A message that is no tool message, or a visible tool result that is not retracted. -/
def keepsInView (retracted : List String) (message : Message) : Bool :=
  if message.role ≠ .tool then true
  else
    match message.toolCallId with
    | some callId => message.visibility == .all && decide (callId ∉ retracted)
    | none => true

/-- Build the read-time message view used for committed thread history. -/
def stripUnpairedToolCallsFromView (messages : List Message) : List Message :=
  let answered := toolCallIdsAt .all messages
  let retracted := toolCallIdsAt .internal messages
  (messages.map (retainAnswered answered retracted)).filter (keepsInView retracted)

/-- The records of a raw committed log, numbered from 1. -/
def committedRecords (threadId : String) (committed : List Message) (generated : Nat → Uuid) :
    List MessageRecord :=
  committed.mapIdx fun index message =>
    MessageRecord.fromMessage threadId (index + 1) message (generated index)

/-- Build the effective resume view from a raw committed message log. -/
def effectiveCommittedView (committed : List Message) (threadId : String)
    (generated : Nat → Uuid) : List Message :=
  stripUnpairedToolCallsFromView
    (effectiveMessages (committedRecords threadId committed generated))

end Remo
