import Mathlib.Tactic.Basic
import Remo.Native.Context.Truncation
import Remo.Spec.Context.CompactionPairs

/-!
# What a truncation cuts off

The repair of dangling calls, the split of a history, and which results keep their calls in a
transformed request.

## Key results

- `patchDanglingToolCalls_inserted`: only synthetic results are put in
- `patchDanglingToolCalls_answers`: every call has a result afterwards
- `resultsFollow_patchDanglingToolCalls`: the results that were there keep or miss their calls
- `findSplitPoint_lastSplit`: the split that is found
- `LastSplit.recent_kept`: the recent messages are kept
- `transform_kept`: what is left of the messages
- `transformKeeps_iff`: when a transformed request pairs all calls and results
-/

/-! ## Repair of dangling tool calls

The insertions are applied from the last one to the first, so each lands behind its assistant
message and the results that directly follow it.
-/

namespace Remo

/-- Every call of an assistant message has a result somewhere. -/
def CallsAnswered (messages : List Message) : Prop :=
  ∀ m ∈ messages, m.role = .assistant → ∀ callId, m.calls callId →
    ∃ r ∈ messages, r.answers callId

/-- The message is a synthetic result. -/
def IsInterruption (contents : Contents) (m : Message) : Prop :=
  ∃ generated callId, m = interruptedResult contents generated callId

variable {contents : Contents} {generated : Nat → Nat → String} {results : List String}
variable {messages before rest : List Message} {m : Message} {callId : String}

theorem IsInterruption.role (h : IsInterruption contents m) : m.role = .tool := by
  obtain ⟨generated, callId, rfl⟩ := h
  rfl

theorem isInterruption_of_mem {ids : Nat → String} {missing : List String}
    (h : m ∈ interruptedResults contents ids missing) :
    IsInterruption contents m ∧ ∃ callId ∈ missing, m.toolCallId = some callId := by
  obtain ⟨i, hi, rfl⟩ := List.mem_mapIdx.mp h
  exact ⟨⟨_, _, rfl⟩, _, List.getElem_mem hi, rfl⟩

theorem exists_interruptedResult {ids : Nat → String} {missing : List String}
    (h : callId ∈ missing) : ∃ r ∈ interruptedResults contents ids missing, r.answers callId := by
  obtain ⟨i, hi, rfl⟩ := List.mem_iff_getElem.mp h
  exact ⟨_, List.mem_mapIdx.mpr ⟨i, hi, rfl⟩, rfl, rfl⟩

/-! ## The insertions, from the front -/

/-- The messages with the insertions, built from the front. -/
def patchedFrom (contents : Contents) (generated : Nat → Nat → String) (results : List String) :
    Nat → List Message → List Message
  | _, [] => []
  | i, msg :: rest =>
    msg :: spliceAt (rest.takeWhile Message.isTool).length
      (interruptedResults contents (generated i) (missingResults results msg))
      (patchedFrom contents generated results (i + 1) rest)

theorem spliceAt_nil (idx : Nat) : spliceAt idx [] messages = messages := by
  simp [spliceAt]

/-- A splice behind some messages and one more. -/
theorem spliceAt_behind (k : Nat) (block : List Message) :
    spliceAt (before.length + 1 + k) block (before ++ m :: rest) =
      before ++ m :: spliceAt k block rest := by
  have hlist : before ++ m :: rest = (before ++ [m]) ++ rest := by simp
  have hlength : (before ++ [m]).length = before.length + 1 := by simp
  unfold spliceAt
  rw [hlist, ← hlength, List.take_length_add_append, List.drop_length_add_append]
  simp

/-- Applied in reverse order, every insertion is made at the index it was found for. -/
theorem foldr_interruptedFrom :
    (interruptedFrom contents generated results before.length rest).foldr
        (fun insertion messages => spliceAt insertion.1 insertion.2 messages) (before ++ rest) =
      before ++ patchedFrom contents generated results before.length rest := by
  induction rest generalizing before with
  | nil => rfl
  | cons msg rest ih =>
    have hlater := @ih (before ++ [msg])
    have hlength : (before ++ [msg]).length = before.length + 1 := by simp
    rw [hlength, List.append_assoc, List.append_assoc] at hlater
    simp only [interruptedFrom, patchedFrom]
    by_cases hmissing : missingResults results msg = []
    · rw [hmissing, if_pos List.isEmpty_nil]
      show _ = before ++ msg :: spliceAt _ [] _
      rw [spliceAt_nil]
      exact hlater
    · rw [if_neg (by simpa using hmissing), List.foldr_cons]
      rw [show before ++ msg :: rest = before ++ ([msg] ++ rest) from rfl, hlater]
      exact spliceAt_behind _ _

theorem patchDanglingToolCalls_eq :
    patchDanglingToolCalls contents generated messages =
      patchedFrom contents generated (resultIds messages) 0 messages := by
  have h := @foldr_interruptedFrom contents generated (resultIds messages) [] messages
  exact h

/-! ## What is put in -/

theorem patchedFrom_inserted {i : Nat} :
    Inserted (IsInterruption contents) rest (patchedFrom contents generated results i rest) := by
  induction rest generalizing i with
  | nil => exact .nil
  | cons msg rest ih =>
    apply Inserted.keep
    apply ih.trans
    apply Inserted.splice
    intro r hr
    exact (isInterruption_of_mem hr).1

theorem patchDanglingToolCalls_inserted :
    Inserted (IsInterruption contents) messages
      (patchDanglingToolCalls contents generated messages) := by
  rw [patchDanglingToolCalls_eq]
  exact patchedFrom_inserted

/-! ## Calls have results -/

theorem mem_missingResults :
    callId ∈ missingResults results m ↔
      m.role = .assistant ∧ m.calls callId ∧ callId ∉ results := by
  unfold missingResults Message.calls
  by_cases hrole : m.role = .assistant
  · rw [if_neg (fun hne => hne hrole), List.mem_filter]
    simp [hrole]
  · rw [if_pos hrole]
    simp [hrole]

theorem mem_resultIds : callId ∈ resultIds messages ↔ ∃ r ∈ messages, r.answers callId := by
  unfold resultIds Message.answers
  rw [List.mem_filterMap]
  constructor
  · intro h
    obtain ⟨r, hr, hid⟩ := h
    obtain ⟨hmem, htool⟩ := List.mem_filter.mp hr
    exact ⟨r, hmem, beq_iff_eq.mp htool, hid⟩
  · intro h
    obtain ⟨r, hmem, htool, hid⟩ := h
    exact ⟨r, List.mem_filter.mpr ⟨hmem, beq_iff_eq.mpr htool⟩, hid⟩

theorem patchedFrom_answers {i : Nat} (hmem : m ∈ rest)
    (hmissing : callId ∈ missingResults results m) :
    ∃ r ∈ patchedFrom contents generated results i rest, r.answers callId := by
  induction rest generalizing i with
  | nil => cases hmem
  | cons msg rest ih =>
    cases List.mem_cons.mp hmem with
    | inl heq =>
      rw [heq] at hmissing
      obtain ⟨r, hr, hanswers⟩ := @exists_interruptedResult contents callId (generated i) _ hmissing
      refine ⟨r, List.mem_cons_of_mem _ ?_, hanswers⟩
      exact List.mem_append_left _ (List.mem_append_right _ hr)
    | inr hrest =>
      obtain ⟨r, hr, hanswers⟩ := @ih (i + 1) hrest
      refine ⟨r, List.mem_cons_of_mem _ ?_, hanswers⟩
      -- a splice keeps what is there
      have hsplit := List.take_append_drop (rest.takeWhile Message.isTool).length
        (patchedFrom contents generated results (i + 1) rest)
      rw [← hsplit] at hr
      cases List.mem_append.mp hr with
      | inl hfront => exact List.mem_append_left _ (List.mem_append_left _ hfront)
      | inr hback => exact List.mem_append_right _ hback

/-- Every call has a result afterwards. -/
theorem patchDanglingToolCalls_answers :
    CallsAnswered (patchDanglingToolCalls contents generated messages) := by
  intro m hm hassistant callId hcalls
  cases patchDanglingToolCalls_inserted.mem hm with
  | inr hsynthetic =>
    rw [hsynthetic.role] at hassistant
    cases hassistant
  | inl hold =>
    by_cases hanswered : callId ∈ resultIds messages
    · obtain ⟨r, hr, hanswers⟩ := mem_resultIds.mp hanswered
      exact ⟨r, patchDanglingToolCalls_inserted.sublist.subset hr, hanswers⟩
    · rw [patchDanglingToolCalls_eq]
      exact patchedFrom_answers hold (mem_missingResults.mpr ⟨hassistant, hcalls, hanswered⟩)

/-! ## Results have calls -/

theorem resultsFollow_patchedFrom {i : Nat} (h : ResultsFollow (before ++ rest)) :
    ResultsFollow (before ++ patchedFrom contents generated results i rest) := by
  induction rest generalizing i before with
  | nil => exact h
  | cons msg rest ih =>
    have hlist : before ++ msg :: rest = (before ++ [msg]) ++ rest := by simp
    rw [hlist] at h
    have hpatched := @ih (before ++ [msg]) (i + 1) h
    have hsplit := List.take_append_drop (rest.takeWhile Message.isTool).length
      (patchedFrom contents generated results (i + 1) rest)
    rw [← hsplit, ← List.append_assoc] at hpatched
    have hspliced := @resultsFollow_splice _
      (interruptedResults contents (generated i) (missingResults results msg)) _ hpatched (by
        intro r hr
        obtain ⟨-, callId, hmissing, hid⟩ := isInterruption_of_mem hr
        obtain ⟨hassistant, hcalls, -⟩ := mem_missingResults.mp hmissing
        exact ⟨callId, hid, msg, by simp, hassistant, hcalls⟩)
    simpa [patchedFrom, spliceAt] using hspliced

/-- The repair neither orphans a result nor finds a call for one. -/
theorem resultsFollow_patchDanglingToolCalls :
    ResultsFollow (patchDanglingToolCalls contents generated messages) ↔
      ResultsFollow messages := by
  constructor
  · apply resultsFollow_of_inserted _ patchDanglingToolCalls_inserted
    intro m hsynthetic
    rw [hsynthetic.role]
    decide
  · intro h
    rw [patchDanglingToolCalls_eq]
    exact @resultsFollow_patchedFrom contents generated _ [] messages 0 h

end Remo

/-! ## The split of a history

The walk from the newest message on keeps messages while they are recent or fit the budget. The
adjusted split is the last place, with no message in front of it kept, at which no tool message
stands.
-/

namespace Remo

variable {contents : Contents} {history earlier kept : List Message} {msg : Message}
variable {budget minRecent s t i : Nat}

/-- The message is not recent, and the history from it on does not fit. -/
def OverBudget (contents : Contents) (history : List Message) (budget minRecent i : Nat) : Prop :=
  i + minRecent < history.length ∧ budget < totalTokens contents (history.drop i)

/-- A history cut here does not begin with a tool message. -/
def StartsAt (history : List Message) (s : Nat) : Prop :=
  s = 0 ∨ ∀ m, history[s]? = some m → m.role ≠ .tool

/-- The last place to cut a history, with all messages in front of it over budget. -/
structure LastSplit (contents : Contents) (history : List Message) (budget minRecent s : Nat) :
    Prop where
  le_length : s ≤ history.length
  starts : StartsAt history s
  dropped : ∀ i, i < s → OverBudget contents history budget minRecent i
  last : ∀ t, s < t → t ≤ history.length → StartsAt history t →
    ∃ i, i < t ∧ ¬ OverBudget contents history budget minRecent i

/-- There is only one last place. -/
theorem LastSplit.unique (h : LastSplit contents history budget minRecent s)
    (h' : LastSplit contents history budget minRecent t) : s = t := by
  by_contra hne
  cases Nat.lt_or_gt_of_ne hne with
  | inl hlt =>
    obtain ⟨i, hi, hnot⟩ := h.last t hlt h'.le_length h'.starts
    exact hnot (h'.dropped i hi)
  | inr hgt =>
    obtain ⟨i, hi, hnot⟩ := h'.last s hgt h.le_length h.starts
    exact hnot (h.dropped i hi)

/-- The recent messages are kept. -/
theorem LastSplit.recent_kept (h : LastSplit contents history budget minRecent s) :
    s + min minRecent history.length ≤ history.length := by
  cases s with
  | zero => omega
  | succ s =>
    have := (h.dropped s (by omega)).1
    omega

/-! ## Tokens -/

theorem foldl_estimateTokens (total : Nat) (messages : List Message) :
    messages.foldl (fun total message => total + message.estimateTokens contents) total =
      total + totalTokens contents messages := by
  unfold totalTokens
  induction messages generalizing total with
  | nil => rfl
  | cons m messages ih =>
    simp only [List.foldl_cons, Nat.zero_add]
    rw [ih, ih (m.estimateTokens contents)]
    omega

theorem totalTokens_cons (m : Message) (messages : List Message) :
    totalTokens contents (m :: messages) =
      m.estimateTokens contents + totalTokens contents messages := by
  show (m :: messages).foldl _ 0 = _
  rw [List.foldl_cons, foldl_estimateTokens]
  omega

theorem totalTokens_append (front back : List Message) :
    totalTokens contents (front ++ back) =
      totalTokens contents front + totalTokens contents back := by
  show (front ++ back).foldl _ 0 = _
  rw [List.foldl_append, foldl_estimateTokens]
  rfl

/-- Together with a message, all messages in front of it are over budget. -/
theorem OverBudget.of_le (h : OverBudget contents history budget minRecent t) (hle : s ≤ t) :
    OverBudget contents history budget minRecent s := by
  obtain ⟨hrecent, hover⟩ := h
  refine ⟨by omega, ?_⟩
  have hsplit := List.take_append_drop (t - s) (history.drop s)
  rw [List.drop_drop, Nat.add_sub_cancel' hle] at hsplit
  rw [← hsplit, totalTokens_append]
  omega

/-! ## The walk -/

/-- The walk stops behind the messages that are over budget. -/
theorem splitFrom_spec (earlier kept : List Message) (hsplit : history = earlier.reverse ++ kept)
    {c : Nat} (hc : splitFrom contents budget (history.length - min minRecent history.length)
      (totalTokens contents kept) earlier.length earlier = c) :
    c ≤ earlier.length ∧ (∀ i, i < c → OverBudget contents history budget minRecent i) ∧
      ∀ i, c ≤ i → i < earlier.length → ¬ OverBudget contents history budget minRecent i := by
  induction earlier generalizing kept with
  | nil =>
    have hzero : c = 0 := hc.symm
    exact ⟨by omega, fun i hi => by omega, fun i _ hi => absurd hi (Nat.not_lt_zero i)⟩
  | cons msg earlier ih =>
    have hsplit' : history = earlier.reverse ++ (msg :: kept) := by
      rw [hsplit]
      simp
    have hdrop : history.drop earlier.length = msg :: kept := by
      rw [hsplit', ← @List.length_reverse _ earlier, List.drop_left]
    have htokens : totalTokens contents kept + msg.estimateTokens contents =
        totalTokens contents (msg :: kept) := by
      rw [totalTokens_cons]
      omega
    -- a message that is kept is not over budget
    have hkeep : ¬ OverBudget contents history budget minRecent earlier.length →
        splitFrom contents budget (history.length - min minRecent history.length)
          (totalTokens contents (msg :: kept)) earlier.length earlier = c →
        c ≤ earlier.length + 1 ∧
          (∀ i, i < c → OverBudget contents history budget minRecent i) ∧
          ∀ i, c ≤ i → i < earlier.length + 1 →
            ¬ OverBudget contents history budget minRecent i := by
      intro hnot hrest
      obtain ⟨hle, hover, hafter⟩ := ih (msg :: kept) hsplit' hrest
      refine ⟨by omega, hover, ?_⟩
      intro i hi hlt
      by_cases heq : i = earlier.length
      · rw [heq]
        exact hnot
      · exact hafter i hi (by omega)
    simp only [splitFrom, htokens] at hc
    rw [List.length_cons]
    by_cases hrecent : history.length - min minRecent history.length ≤ earlier.length
    · rw [if_pos hrecent] at hc
      apply hkeep _ hc
      intro hover
      have := hover.1
      omega
    · rw [if_neg hrecent] at hc
      by_cases hover : budget < totalTokens contents (msg :: kept)
      · rw [if_pos hover, List.length_cons] at hc
        have hhere : OverBudget contents history budget minRecent earlier.length := by
          refine ⟨by omega, ?_⟩
          rw [hdrop]
          exact hover
        refine ⟨by omega, ?_, fun i hi hlt => by omega⟩
        intro i hi
        exact hhere.of_le (by omega)
      · rw [if_neg hover] at hc
        apply hkeep _ hc
        intro hhere
        apply hover
        rw [← hdrop]
        exact hhere.2

/-! ## The adjustment -/

theorem splitBackward_spec (history : List Message) (c : Nat) :
    splitBackward history c ≤ c ∧ StartsAt history (splitBackward history c) ∧
      ∀ t, splitBackward history c < t → t ≤ c → ¬ StartsAt history t := by
  induction c with
  | zero => exact ⟨le_refl 0, Or.inl rfl, fun t hlt hle => absurd hlt (by omega)⟩
  | succ c ih =>
    obtain ⟨hle, hstarts, hlast⟩ := ih
    by_cases htool : (history[c + 1]?.any Message.isTool) = true
    · rw [splitBackward, if_pos htool]
      refine ⟨by omega, hstarts, ?_⟩
      intro t hlt ht hstart
      by_cases heq : t = c + 1
      · obtain ⟨m, hm, hrole⟩ := (Option.any_eq_true _ _).mp htool
        rw [heq] at hstart
        cases hstart with
        | inl hzero => omega
        | inr hnot => exact hnot m hm (beq_iff_eq.mp hrole)
      · exact hlast t hlt (by omega) hstart
    · rw [splitBackward, if_neg htool]
      refine ⟨le_refl _, ?_, fun t hlt ht => absurd hlt (by omega)⟩
      apply Or.inr
      intro m hm hrole
      apply htool
      rw [hm]
      exact beq_iff_eq.mpr hrole

/-- Nothing is left to drop at a place to cut: the results of the last dropped message would
    stand there. -/
theorem takeWhile_of_startsAt (h : StartsAt history s) (hpos : 0 < s) :
    (history.drop s).takeWhile Message.isTool = [] := by
  cases hdrop : history.drop s with
  | nil => rfl
  | cons m rest =>
    have hget : history[s]? = some m := by
      have := @List.head?_drop _ history s
      rw [← this, hdrop]
      rfl
    cases h with
    | inl hzero => omega
    | inr hstarts =>
      rw [List.takeWhile_cons_of_neg]
      intro htool
      exact hstarts m hget (beq_iff_eq.mp htool)

/-- The adjustment only moves a split backward. -/
theorem adjustSplitForToolPairs_eq (hpos : 0 < s) (hlt : s < history.length) :
    adjustSplitForToolPairs history s = splitBackward history s := by
  unfold adjustSplitForToolPairs
  rw [if_neg (by omega)]
  dsimp only
  by_cases hback : 0 < splitBackward history s
  · rw [takeWhile_of_startsAt (splitBackward_spec history s).2.1 hback]
    simp
  · rw [if_neg hback]
    rfl

/-- The split that is found. -/
theorem findSplitPoint_lastSplit (contents : Contents) (history : List Message)
    (budget minRecent : Nat) :
    LastSplit contents history budget minRecent
      (findSplitPoint contents history budget minRecent) := by
  have htool : ∀ {s}, history.length ≤ s → StartsAt history s := by
    intro s hle
    apply Or.inr
    intro m hm
    rw [List.getElem?_eq_none hle] at hm
    cases hm
  by_cases hempty : history = []
  · have hzero : findSplitPoint contents history budget minRecent = 0 := by
      rw [hempty]
      rfl
    rw [hzero]
    refine ⟨Nat.zero_le _, Or.inl rfl, fun i hi => by omega, ?_⟩
    intro t hlt hle
    rw [hempty, List.length_nil] at hle
    omega
  · have hlength : 0 < history.length := List.length_pos_iff.mpr hempty
    have hfind : findSplitPoint contents history budget minRecent =
        adjustSplitForToolPairs history (splitFrom contents budget
          (history.length - min minRecent history.length) 0 history.length history.reverse) := by
      unfold findSplitPoint
      rw [if_neg (by simpa using hempty)]
    rw [hfind]
    generalize hc : splitFrom contents budget (history.length - min minRecent history.length) 0
      history.length history.reverse = c
    have hspec := @splitFrom_spec contents history budget minRecent history.reverse []
      (by simp) c (by rw [List.length_reverse]; exact hc)
    rw [List.length_reverse] at hspec
    obtain ⟨hle, hover, hafter⟩ := hspec
    by_cases hinner : c = 0 ∨ history.length ≤ c
    · have hsame : adjustSplitForToolPairs history c = c := by
        unfold adjustSplitForToolPairs
        rw [if_pos hinner]
      rw [hsame]
      refine ⟨hle, hinner.imp id (fun h => (htool h).resolve_left (by omega)), hover, ?_⟩
      intro t hlt ht _
      exact ⟨c, hlt, hafter c (le_refl c) (by omega)⟩
    · have hpos : 0 < c := by omega
      rw [adjustSplitForToolPairs_eq hpos (by omega)]
      obtain ⟨hback, hstarts, hlast⟩ := splitBackward_spec history c
      refine ⟨by omega, hstarts, fun i hi => hover i (by omega), ?_⟩
      intro t hlt ht hstart
      by_cases htc : t ≤ c
      · exact absurd hstart (hlast t hlt htc)
      · exact ⟨c, by omega, hafter c (le_refl c) (by omega)⟩

end Remo

/-! ## What a truncation cuts off

A split in front of a message that is no tool message keeps the results that directly follow
their call with it. A result behind other messages can lose its call, and a request that fits is
not repaired.
-/

namespace Remo

variable {contents : BlockContents} {generated : Nat → Nat → String}
variable {self : ContextTransform} {tools : List ToolDescriptor}
variable {messages : List Message} {budget minRecent s : Nat}

/-! ## Artifact compaction -/

variable (config : ArtifactCompactionConfig) (m : Message)

@[simp] theorem compactToolResult_role :
    (compactToolResult contents config m).role = m.role := by
  unfold compactToolResult
  split
  · rfl
  · dsimp only
    split <;> rfl

@[simp] theorem compactToolResult_toolCalls :
    (compactToolResult contents config m).toolCalls = m.toolCalls := by
  unfold compactToolResult
  split
  · rfl
  · dsimp only
    split <;> rfl

@[simp] theorem compactToolResult_toolCallId :
    (compactToolResult contents config m).toolCallId = m.toolCallId := by
  unfold compactToolResult
  split
  · rfl
  · dsimp only
    split <;> rfl

theorem resultsFollow_compactToolResults :
    ResultsFollow (compactToolResults contents config messages) ↔ ResultsFollow messages :=
  resultsFollow_map_iff (compactToolResult_role config) (compactToolResult_toolCalls config)
    (compactToolResult_toolCallId config)

/-- Artifact compaction neither makes nor answers calls. -/
theorem callsAnswered_compactToolResults :
    CallsAnswered (compactToolResults contents config messages) ↔ CallsAnswered messages := by
  have hcalls : ∀ (m : Message) (callId : String),
      (compactToolResult contents config m).calls callId ↔ m.calls callId := by
    intro m callId
    unfold Message.calls
    rw [compactToolResult_toolCalls]
  have hanswers : ∀ (m : Message) (callId : String),
      (compactToolResult contents config m).answers callId ↔ m.answers callId := by
    intro m callId
    unfold Message.answers
    rw [compactToolResult_role, compactToolResult_toolCallId]
  unfold CallsAnswered compactToolResults
  simp only [List.mem_map, forall_exists_index, and_imp, forall_apply_eq_imp_iff₂,
    exists_exists_and_eq_and, compactToolResult_role, hcalls, hanswers]

/-! ## Cutting a request -/

/-- The messages are the system head and the history. -/
theorem systemHead_append_historyOf (messages : List Message) :
    systemHead messages ++ historyOf messages = messages :=
  List.takeWhile_append_dropWhile

theorem role_of_mem_systemHead {m : Message} (h : m ∈ systemHead messages) :
    m.role = .system := by
  have hsystem := List.mem_takeWhile_imp h
  exact beq_iff_eq.mp hsystem

theorem systemHead_compactToolResults :
    systemHead (compactToolResults contents config messages) =
      compactToolResults contents config (systemHead messages) := by
  unfold systemHead compactToolResults
  rw [List.takeWhile_map]
  congr 1
  congr 1
  funext m
  simp

theorem historyOf_compactToolResults :
    historyOf (compactToolResults contents config messages) =
      compactToolResults contents config (historyOf messages) := by
  unfold historyOf compactToolResults
  rw [List.dropWhile_map]
  congr 1
  congr 1
  funext m
  simp

/-- A cut request, compacted before or after the cut. -/
theorem cut_compactToolResults (s : Nat) :
    systemHead (compactToolResults contents config messages) ++
        (historyOf (compactToolResults contents config messages)).drop s =
      compactToolResults contents config
        (systemHead messages ++ (historyOf messages).drop s) := by
  rw [systemHead_compactToolResults, historyOf_compactToolResults]
  simp [compactToolResults]

/-- Behind the cut, a result whose call was cut off has an assistant message with the call in
    front of it. -/
def SplitIsClean (history : List Message) (s : Nat) : Prop :=
  ∀ before m after callId, history.drop s = before ++ m :: after → m.answers callId →
    (∃ a ∈ history.take s, a.role = .assistant ∧ a.calls callId) →
    ∃ a ∈ before, a.role = .assistant ∧ a.calls callId

/-- The results keep their calls exactly at a clean cut. -/
theorem resultsFollow_cut_iff (h : ResultsFollow messages) :
    ResultsFollow (systemHead messages ++ (historyOf messages).drop s) ↔
      SplitIsClean (historyOf messages) s := by
  have hnone : ∀ a ∈ systemHead messages, a.role ≠ .assistant ∧ a.role ≠ .tool := by
    intro a ha
    rw [role_of_mem_systemHead ha]
    decide
  constructor
  · intro hkept before m after callId hsplit hanswers _
    obtain ⟨callId', hid, a, ha, hassistant, hcalls⟩ :=
      hkept (systemHead messages ++ before) m after (by rw [hsplit]; simp) hanswers.1
    rw [hanswers.2] at hid
    cases hid
    cases List.mem_append.mp ha with
    | inl hhead => exact absurd hassistant (hnone a hhead).1
    | inr hbefore => exact ⟨a, hbefore, hassistant, hcalls⟩
  · intro hclean before m after heq htool
    cases append_eq_append_cons heq with
    | inr hhead =>
      obtain ⟨mid, hmid, -⟩ := hhead
      exact absurd htool (hnone m (by rw [hmid]; simp)).2
    | inl hback =>
      obtain ⟨mid, rfl, hmid⟩ := hback
      have hwhole : messages =
          (systemHead messages ++ (historyOf messages).take s ++ mid) ++ m :: after := by
        rw [List.append_assoc, List.append_assoc, ← hmid, List.take_append_drop,
          systemHead_append_historyOf]
      obtain ⟨callId, hid, a, ha, hassistant, hcalls⟩ := h _ m after hwhole htool
      refine ⟨callId, hid, ?_⟩
      cases List.mem_append.mp ha with
      | inr hmem => exact ⟨a, List.mem_append_right _ hmem, hassistant, hcalls⟩
      | inl hfront =>
        cases List.mem_append.mp hfront with
        | inl hhead => exact absurd hassistant (hnone a hhead).1
        | inr hcut =>
          -- the call was cut off
          obtain ⟨a', ha', hrest⟩ :=
            hclean mid m after callId hmid ⟨htool, hid⟩ ⟨a, hcut, hassistant, hcalls⟩
          exact ⟨a', List.mem_append_right _ ha', hrest⟩

/-! ## The transform -/

/-- What truncation promises of a request. -/
structure TransformKeeps (w : ContextTransform) (contents : BlockContents)
    (generated : Nat → Nat → String) (tools : List ToolDescriptor) (messages : List Message) :
    Prop where
  /-- Every tool message has an earlier assistant message with its call. -/
  results : ResultsFollow (w.transform contents generated tools messages)
  /-- Every assistant call has a tool message. -/
  calls : CallsAnswered (w.transform contents generated tools messages)
  /-- The leading system messages stay, and a suffix of the history with the recent messages. -/
  kept : ∃ split, split + min w.minRecentMessages (historyOf messages).length ≤
      (historyOf messages).length ∧
    Inserted (IsInterruption contents.toContents)
      (compactToolResults contents w.artifactCompaction
        (systemHead messages ++ (historyOf messages).drop split))
      (w.transform contents generated tools messages)

/-- The request fits the budget once its tool results are compacted. -/
def ContextTransform.Fits (self : ContextTransform) (contents : BlockContents)
    (tools : List ToolDescriptor) (messages : List Message) : Prop :=
  totalTokens contents.toContents
      (compactToolResults contents self.artifactCompaction messages) ≤
    self.available tools

/-- The last place at which the history of a request can be cut. -/
def ContextTransform.SplitsAt (self : ContextTransform) (contents : BlockContents)
    (tools : List ToolDescriptor) (messages : List Message) (s : Nat) : Prop :=
  LastSplit contents.toContents
    (historyOf (compactToolResults contents self.artifactCompaction messages))
    (self.historyBudget contents.toContents tools
      (compactToolResults contents self.artifactCompaction messages))
    self.minRecentMessages s

theorem exists_splitsAt (self : ContextTransform) (contents : BlockContents)
    (tools : List ToolDescriptor) (messages : List Message) :
    ∃ s, self.SplitsAt contents tools messages s :=
  ⟨_, findSplitPoint_lastSplit _ _ _ _⟩

/-- A request that fits has a result for every call. One that does not fit is cut cleanly: a
    result that is kept does not answer a call that is dropped, unless the call is made again in
    between. -/
structure TruncatesCleanly (w : ContextTransform) (contents : BlockContents)
    (tools : List ToolDescriptor) (messages : List Message) : Prop where
  fits : w.Fits contents tools messages → CallsAnswered messages
  cut : ¬ w.Fits contents tools messages → ∀ s,
    w.SplitsAt contents tools messages s → SplitIsClean (historyOf messages) s

section Transform

variable (self : ContextTransform) (contents : BlockContents) (generated : Nat → Nat → String)
variable (tools : List ToolDescriptor)

/-- A request that fits is only compacted. -/
theorem transform_of_fits (h : self.Fits contents tools messages) :
    self.transform contents generated tools messages =
      compactToolResults contents self.artifactCompaction messages := by
  unfold ContextTransform.Fits at h
  unfold ContextTransform.transform
  dsimp only
  rw [if_pos h]

/-- Any other request is cut at the last split and repaired. -/
theorem transform_of_not_fits (h : ¬ self.Fits contents tools messages)
    (hs : self.SplitsAt contents tools messages s) :
    self.transform contents generated tools messages =
      patchDanglingToolCalls contents.toContents generated
        (compactToolResults contents self.artifactCompaction
          (systemHead messages ++ (historyOf messages).drop s)) := by
  unfold ContextTransform.Fits at h
  unfold ContextTransform.transform
  dsimp only
  rw [if_neg h, (findSplitPoint_lastSplit _ _ _ _).unique hs, cut_compactToolResults]

/-- What is left of the messages. -/
theorem transform_kept (messages : List Message) :
    ∃ split, split + min self.minRecentMessages (historyOf messages).length ≤
        (historyOf messages).length ∧
      Inserted (IsInterruption contents.toContents)
        (compactToolResults contents self.artifactCompaction
          (systemHead messages ++ (historyOf messages).drop split))
        (self.transform contents generated tools messages) := by
  by_cases hfits : self.Fits contents tools messages
  · refine ⟨0, by omega, ?_⟩
    rw [transform_of_fits self contents generated tools hfits, List.drop_zero,
      systemHead_append_historyOf]
    exact Inserted.refl _
  · obtain ⟨s, hs⟩ := exists_splitsAt self contents tools messages
    refine ⟨s, ?_, ?_⟩
    · have hkept := hs.recent_kept
      rw [historyOf_compactToolResults] at hkept
      simp only [compactToolResults, List.length_map] at hkept
      exact hkept
    · rw [transform_of_not_fits self contents generated tools hfits hs]
      exact patchDanglingToolCalls_inserted

/-- When a transformed request pairs all calls and results. -/
theorem transformKeeps_iff (messages : List Message) (hfollow : ResultsFollow messages) :
    TransformKeeps self contents generated tools messages ↔
      TruncatesCleanly self contents tools messages := by
  by_cases hfits : self.Fits contents tools messages
  · have hout := transform_of_fits self contents generated tools hfits
    constructor
    · intro h
      refine ⟨fun _ => ?_, fun hnot => absurd hfits hnot⟩
      have hcalls := h.calls
      rw [hout] at hcalls
      exact (callsAnswered_compactToolResults _).mp hcalls
    · intro h
      refine ⟨?_, ?_, transform_kept self contents generated tools messages⟩
      · rw [hout]
        exact (resultsFollow_compactToolResults _).mpr hfollow
      · rw [hout]
        exact (callsAnswered_compactToolResults _).mpr (h.fits hfits)
  · constructor
    · intro h
      refine ⟨fun hin => absurd hin hfits, ?_⟩
      intro _ s hs
      have hresults := h.results
      rw [transform_of_not_fits self contents generated tools hfits hs,
        resultsFollow_patchDanglingToolCalls, resultsFollow_compactToolResults] at hresults
      exact (resultsFollow_cut_iff hfollow).mp hresults
    · intro h
      obtain ⟨s, hs⟩ := exists_splitsAt self contents tools messages
      have hout := transform_of_not_fits self contents generated tools hfits hs
      refine ⟨?_, ?_, transform_kept self contents generated tools messages⟩
      · rw [hout, resultsFollow_patchDanglingToolCalls, resultsFollow_compactToolResults]
        exact (resultsFollow_cut_iff hfollow).mpr (h.cut hfits _ hs)
      · rw [hout]
        exact patchDanglingToolCalls_answers

end Transform

/-! ## A resumed call -/

/-- Room for two short messages. -/
def tightTransform : ContextTransform where
  maxContextTokens := 12
  maxOutputTokens := 0
  minRecentMessages := 1
  artifactCompaction := .default

/-- A request whose suspended call is resumed after more messages. -/
theorem transformKeeps_iff_resumed :
    TransformKeeps tightTransform .plain (fun _ _ => "m6") []
        (suspendedThread ++ [resumedResult]) ↔
      TruncatesCleanly tightTransform .plain [] (suspendedThread ++ [resumedResult]) :=
  transformKeeps_iff tightTransform .plain (fun _ _ => "m6") [] _ resultsFollow_resumed

/-- The request is cut between the first result of the call and the second one. -/
theorem truncation_orphansResumed :
    ResultsFollow (suspendedThread ++ [resumedResult]) ∧
      ¬ TransformKeeps tightTransform .plain (fun _ _ => "m6") []
        (suspendedThread ++ [resumedResult]) := by
  constructor
  · exact resultsFollow_resumed
  · intro h
    have hout : tightTransform.transform .plain (fun _ _ => "m6") []
        (suspendedThread ++ [resumedResult]) = [.user "go on" "m4", resumedResult] := by
      decide +kernel
    have hfollow := h.results
    rw [hout] at hfollow
    obtain ⟨callId, -, a, ha, hassistant, -⟩ :=
      hfollow [.user "go on" "m4"] resumedResult [] rfl rfl
    rw [List.mem_singleton.mp ha] at hassistant
    cases hassistant

end Remo
