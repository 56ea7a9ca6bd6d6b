import Remo.Native.Str

/-!
# Messages

The protocol message and the record of the committed log. The stores only carry
the content blocks of a message and the arguments of its tool calls, so both are
kept as one JSON document.
-/

namespace Remo

/-- A JSON document, by its canonical text. -/
structure Json where
  canonical : String
deriving Repr, DecidableEq

/-- Message role. -/
inductive Role where
  | system
  | user
  | assistant
  | tool
deriving Repr, DecidableEq

/-- Whether a message is exposed to external API consumers. -/
inductive Visibility where
  | all
  | internal
deriving Repr, DecidableEq

/-- Interval a compaction summary covers, on the summary record. -/
structure CompactionMark where
  fromSeq : Nat
  toSeq : Nat
deriving Repr, DecidableEq

/-- Run and step that produced a message, and the interval it summarises. -/
structure MessageMetadata where
  runId : Option String
  stepIndex : Option UInt32
  compaction : Option CompactionMark
deriving Repr, DecidableEq

/-- A tool call requested by the assistant. -/
structure ToolCall where
  id : String
  name : String
  arguments : Json
deriving Repr, DecidableEq

/-- A message in the conversation. -/
structure Message where
  id : Option String
  role : Role
  content : Json
  toolCalls : Option (List ToolCall)
  toolCallId : Option String
  visibility : Visibility
  metadata : Option MessageMetadata
deriving Repr, DecidableEq

/-- A user message with the given text and id. -/
def Message.user (content id : String) : Message where
  id := some id
  role := .user
  content := ⟨content⟩
  toolCalls := none
  toolCallId := none
  visibility := .all
  metadata := none

/-- `Message::assistant` with the generated id. -/
def Message.assistant (content id : String) : Message :=
  { Message.user content id with role := .assistant }

/-- A message persisted as part of a thread's append-only log. -/
structure MessageRecord where
  messageId : String
  threadId : String
  seq : Nat
  message : Message
  producedByRunId : Option String
  stepIndex : Option UInt32
  toolCallId : Option String
  createdAt : Option UInt64
  compaction : Option CompactionMark
deriving Repr, DecidableEq

/-- Build a record from a thread-owned message payload. A message without id
    takes the generated one. -/
def MessageRecord.fromMessage (threadId : String) (seq : Nat) (message : Message)
    (generated : Uuid) : MessageRecord where
  messageId := message.id.getD generated.text
  threadId := threadId
  seq := seq
  message := { message with id := some (message.id.getD generated.text) }
  producedByRunId := message.metadata.bind MessageMetadata.runId
  stepIndex := message.metadata.bind MessageMetadata.stepIndex
  toolCallId := message.toolCallId
  createdAt := none
  compaction := message.metadata.bind MessageMetadata.compaction

end Remo
