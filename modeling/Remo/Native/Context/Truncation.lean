import Remo.Native.Context.Compaction
import Mathlib.Algebra.GroupWithZero.Nat

/-!
# Truncation of a request

The built-in request transform shrinks oversized tool results. When the request is still too
long it drops the oldest messages behind the leading system messages, and then answers the
tool calls that have no result.
-/

namespace Remo

/-- A content block, as far as it is measured or rewritten. -/
inductive ContentBlock where
  | text (text : String)
  | thinking (thinking : String)
  | other (block : Json)
deriving Repr, DecidableEq

/-- The characters that `estimate_message_tokens` counts for a block. -/
def ContentBlock.chars : ContentBlock → Nat
  | .text s => s.utf8ByteSize
  | .thinking s => s.utf8ByteSize
  | .other _ => 50

/-- Contents as lists of blocks. -/
structure BlockContents extends Contents where
  blocks : Json → List ContentBlock
  ofBlocks : List ContentBlock → Json
  chars_eq : ∀ json, chars json = ((blocks json).map ContentBlock.chars).sum

/-- The texts of some blocks, one behind the other. -/
def joinTexts : List ContentBlock → String
  | [] => ""
  | .text text :: rest => text ++ joinTexts rest
  | .thinking _ :: rest => joinTexts rest
  | .other _ :: rest => joinTexts rest

/-- Contents that are one text block. -/
def BlockContents.plain : BlockContents where
  toContents := .plain
  blocks json := [.text json.canonical]
  ofBlocks blocks := ⟨joinTexts blocks⟩
  chars_eq json := by
    simp [Contents.plain, ContentBlock.chars]

/-! ## Artifact compaction -/

/-- Configuration for compacting oversized tool-result artifacts. -/
structure ArtifactCompactionConfig where
  /-- Token threshold at or above which a tool result is compacted to a preview. -/
  thresholdTokens : Nat
  previewMaxChars : Nat
  previewMaxLines : Nat
deriving Repr, DecidableEq

def ArtifactCompactionConfig.default : ArtifactCompactionConfig := ⟨2048, 1600, 24⟩

/-- The first characters of a text, up to the character and line limits. -/
def previewFrom (config : ArtifactCompactionConfig) : Nat → Nat → List Char → List Char
  | _, _, [] => []
  | charCount, lineCount, ch :: rest =>
    if config.previewMaxChars ≤ charCount ∨ config.previewMaxLines ≤ lineCount then []
    else
      let lineCount := if ch == '\n' then lineCount + 1 else lineCount
      ch :: previewFrom config (charCount + 1) lineCount rest

/-- `compact_artifact_with_config`. -/
def compactArtifact (config : ArtifactCompactionConfig) (content : String) : String :=
  let estimatedTokens := content.utf8ByteSize / 4
  if estimatedTokens < config.thresholdTokens then content
  else
    let preview := previewFrom config 0 0 content.toList
    let charCount := preview.length
    String.ofList preview ++ s!"\n\n[Content compacted: original ~{estimatedTokens} tokens, " ++
      s!"showing first {charCount} chars]"

/-- The block after compaction, and whether its length has changed. -/
def compactBlock (config : ArtifactCompactionConfig) : ContentBlock → ContentBlock × Bool
  | .text text =>
    let compacted := compactArtifact config text
    (.text compacted, compacted.utf8ByteSize != text.utf8ByteSize)
  | block => (block, false)

def compactToolResult (contents : BlockContents) (config : ArtifactCompactionConfig)
    (msg : Message) : Message :=
  if msg.role ≠ .tool then msg
  else
    let compacted := (contents.blocks msg.content).map (compactBlock config)
    if compacted.any Prod.snd then
      { msg with content := contents.ofBlocks (compacted.map Prod.fst) }
    else msg

/-- `compact_tool_results_with_config`. -/
def compactToolResults (contents : BlockContents) (config : ArtifactCompactionConfig)
    (messages : List Message) : List Message :=
  messages.map (compactToolResult contents config)

/-! ## The split -/

def Message.isTool (self : Message) : Bool := self.role == .tool

/-- The walk over the messages not yet kept, the newest first. -/
def splitFrom (contents : Contents) (budgetTokens mustKeepStart : Nat) :
    Nat → Nat → List Message → Nat
  | _, candidateSplit, [] => candidateSplit
  | usedTokens, candidateSplit, msg :: earlier =>
    let i := earlier.length
    let newTotal := usedTokens + msg.estimateTokens contents
    if mustKeepStart ≤ i then splitFrom contents budgetTokens mustKeepStart newTotal i earlier
    else if budgetTokens < newTotal then candidateSplit
    else splitFrom contents budgetTokens mustKeepStart newTotal i earlier

/-- Move a split backward while the first kept message is a tool message. -/
def splitBackward (history : List Message) : Nat → Nat
  | 0 => 0
  | split + 1 =>
    if (history[split + 1]?.any Message.isTool) then splitBackward history split else split + 1

/-- Adjust split to avoid orphaning tool call/result pairs. -/
def adjustSplitForToolPairs (history : List Message) (split : Nat) : Nat :=
  if split = 0 ∨ history.length ≤ split then split
  else
    let split := splitBackward history split
    let lastDropped := if 0 < split then history[split - 1]? else none
    if lastDropped.any fun m => m.role == .assistant && m.toolCalls.isSome then
      -- drop the results of the dropped calls
      split + ((history.drop split).takeWhile Message.isTool).length
    else split

/-- Find the split point in history that fits the token budget. -/
def findSplitPoint (contents : Contents) (history : List Message)
    (budgetTokens minRecent : Nat) : Nat :=
  if history.isEmpty then 0
  else
    let mustKeep := min minRecent history.length
    let mustKeepStart := history.length - mustKeep
    adjustSplitForToolPairs history
      (splitFrom contents budgetTokens mustKeepStart 0 history.length history.reverse)

/-! ## Dangling calls -/

/-- `Message::tool` with the generated id. -/
def Message.tool (contents : Contents) (generated callId text : String) : Message where
  id := some generated
  role := .tool
  content := contents.ofText text
  toolCalls := none
  toolCallId := some callId
  visibility := .all
  metadata := none

/-- The synthetic result of a call. -/
def interruptedResult (contents : Contents) (generated callId : String) : Message :=
  .tool contents generated callId "[Tool execution was interrupted]"

/-- The ids of the tool calls that have a result. -/
def resultIds (messages : List Message) : List String :=
  (messages.filter Message.isTool).filterMap Message.toolCallId

/-- The calls of an assistant message that have no result. -/
def missingResults (resultIds : List String) (msg : Message) : List String :=
  if msg.role ≠ .assistant then []
  else ((msg.toolCalls.getD []).map ToolCall.id).filter fun id => !resultIds.contains id

/-- The synthetic results of some calls. -/
def interruptedResults (contents : Contents) (generated : Nat → String) (missing : List String) :
    List Message :=
  missing.mapIdx fun offset id => interruptedResult contents (generated offset) id

/-- The insertions for the messages from the given index on. `generated` are the ids of the
    new messages, by the index of the assistant message and the place among its missing calls. -/
def interruptedFrom (contents : Contents) (generated : Nat → Nat → String)
    (resultIds : List String) : Nat → List Message → List (Nat × List Message)
  | _, [] => []
  | i, msg :: rest =>
    let later := interruptedFrom contents generated resultIds (i + 1) rest
    let missing := missingResults resultIds msg
    if missing.isEmpty then later
    else
      -- after this assistant message and any existing tool results
      let insertAt := i + 1 + (rest.takeWhile Message.isTool).length
      (insertAt, interruptedResults contents (generated i) missing) :: later

def spliceAt (idx : Nat) (block messages : List Message) : List Message :=
  messages.take idx ++ block ++ messages.drop idx

/-- Ensure every tool call in an assistant message has a matching tool result. The insertions
    are applied in reverse order to preserve indices. -/
def patchDanglingToolCalls (contents : Contents) (generated : Nat → Nat → String)
    (messages : List Message) : List Message :=
  (interruptedFrom contents generated (resultIds messages) 0 messages).foldr
    (fun insertion messages => spliceAt insertion.1 insertion.2 messages) messages

/-! ## The transform -/

/-- The part of a tool descriptor that is measured. -/
structure ToolDescriptor where
  name : String
  description : String
  parameters : Json
deriving Repr, DecidableEq

/-- Estimate token count for tool descriptors. -/
def estimateToolTokens (tools : List ToolDescriptor) : Nat :=
  (tools.map fun t =>
    t.name.utf8ByteSize + t.description.utf8ByteSize + t.parameters.canonical.utf8ByteSize / 4 +
      10).sum

/-- Built-in request transform, with the part of the policy that it reads. -/
structure ContextTransform where
  maxContextTokens : Nat
  maxOutputTokens : Nat
  minRecentMessages : Nat
  artifactCompaction : ArtifactCompactionConfig
deriving Repr, DecidableEq

/-- The tokens that are left for the messages. -/
def ContextTransform.available (self : ContextTransform) (tools : List ToolDescriptor) : Nat :=
  self.maxContextTokens - self.maxOutputTokens - estimateToolTokens tools

/-- The system messages at the head of a request. -/
def systemHead (messages : List Message) : List Message :=
  messages.takeWhile fun m => m.role == .system

/-- The messages of a request behind its leading system messages. -/
def historyOf (messages : List Message) : List Message :=
  messages.dropWhile fun m => m.role == .system

/-- The tokens that are left for the history. -/
def ContextTransform.historyBudget (self : ContextTransform) (contents : Contents)
    (tools : List ToolDescriptor) (messages : List Message) : Nat :=
  self.available tools - totalTokens contents (systemHead messages)

def ContextTransform.transform (self : ContextTransform) (contents : BlockContents)
    (generated : Nat → Nat → String) (tools : List ToolDescriptor) (messages : List Message) :
    List Message :=
  -- compact oversized tool results before truncation
  let messages := compactToolResults contents self.artifactCompaction messages
  if totalTokens contents.toContents messages ≤ self.available tools then messages
  else
    let history := historyOf messages
    let split := findSplitPoint contents.toContents history
      (self.historyBudget contents.toContents tools messages) self.minRecentMessages
    patchDanglingToolCalls contents.toContents generated
      (systemHead messages ++ history.drop split)

end Remo
