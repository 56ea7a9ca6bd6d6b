import Remo.Native.Permission.Policy
import Remo.Spec.Pattern.RoundTrip

/-!
# Keys of subjects

The key of a rule is the printed form of its subject. Printed values stand between quotes but
are not escaped, so a value with a quote in it can be read as the end of one condition and the
beginning of the next. All else in a key can be read in one way only.

Key results:
* `conditionsText_inj`  conditions without quotes in their values print differently
* `key_eq_iff`          two accepted subjects share a key exactly when their texts are alike
* `keySeparates_iff`    the key separates all subjects but field patterns read two ways
-/

namespace Remo

variable {engine : PatternEngine}

/-! ## Printed conditions -/

theorem yields_inj {α : Type} {x : Except ParseFailure (α × Cursor)} {v w : α}
    {rest rest' : List Char} (h : Yields x v rest) (h' : Yields x w rest') :
    v = w ∧ rest = rest' := by
  obtain ⟨pos, hx⟩ := h
  obtain ⟨pos', hx'⟩ := h'
  rw [hx] at hx'
  cases hx'
  exact ⟨rfl, rfl⟩

/-- Different paths print differently. -/
theorem pathText_inj {path path' : List PathSegment} {rest rest' : List Char}
    (hpath : WellFormedPath path) (hpath' : WellFormedPath path')
    (h : pathText path ++ ' ' :: rest = pathText path' ++ ' ' :: rest') :
    path = path' ∧ rest = rest' := by
  have hread := parseFieldPath_display hpath 0 rest
  rw [h] at hread
  obtain ⟨rfl, hrest⟩ := yields_inj hread (parseFieldPath_display hpath' 0 rest')
  exact ⟨rfl, List.tail_eq_of_cons_eq hrest⟩

/-- Different operators print differently. -/
theorem opText_inj {op op' : MatchOp} {rest rest' : List Char}
    (h : op.display.toList ++ ' ' :: rest = op'.display.toList ++ ' ' :: rest') :
    op = op' ∧ rest = rest' := by
  have hread := parseMatchOp_display op 0 rest
  rw [h] at hread
  obtain ⟨rfl, hrest⟩ := yields_inj hread (parseMatchOp_display op' 0 rest')
  exact ⟨rfl, List.tail_eq_of_cons_eq hrest⟩

/-- A value without a quote ends at the next one. -/
theorem valueText_inj {value value' rest rest' : List Char} (hvalue : '"' ∉ value)
    (hvalue' : '"' ∉ value') (h : value ++ '"' :: rest = value' ++ '"' :: rest') :
    value = value' ∧ rest = rest' := by
  induction value generalizing value' with
  | nil =>
    cases value' with
    | nil => exact ⟨rfl, List.tail_eq_of_cons_eq h⟩
    | cons c value' =>
      have hc : '"' = c := List.head_eq_of_cons_eq h
      exact absurd (hc ▸ List.mem_cons_self) hvalue'
  | cons c value ih =>
    cases value' with
    | nil =>
      have hc : c = '"' := List.head_eq_of_cons_eq h
      exact absurd (hc ▸ List.mem_cons_self) hvalue
    | cons c' value' =>
      obtain rfl : c = c' := List.head_eq_of_cons_eq h
      obtain ⟨rfl, hrest⟩ := ih (fun hm => hvalue (List.mem_cons_of_mem _ hm))
        (fun hm => hvalue' (List.mem_cons_of_mem _ hm)) (List.tail_eq_of_cons_eq h)
      exact ⟨rfl, hrest⟩

/-- A condition that the parser may return and whose value has no quote. -/
structure FieldCondition.QuoteFree (cond : FieldCondition) : Prop where
  path : WellFormedPath cond.path
  value : '"' ∉ cond.value.toList

/-- Conditions without quotes in their values print differently. -/
theorem conditionText_inj {cond cond' : FieldCondition} (h : cond.QuoteFree)
    (h' : cond'.QuoteFree) {rest rest' : List Char}
    (heq : cond.display.toList ++ rest = cond'.display.toList ++ rest') :
    cond = cond' ∧ rest = rest' := by
  rw [display_condition, display_condition] at heq
  simp only [List.append_assoc, List.cons_append, List.nil_append] at heq
  obtain ⟨hpath, heq⟩ := pathText_inj h.path h'.path heq
  obtain ⟨hop, heq⟩ := opText_inj heq
  obtain ⟨hvalue, hrest⟩ := valueText_inj h.value h'.value (List.tail_eq_of_cons_eq heq)
  refine ⟨?_, hrest⟩
  cases cond with | mk path op value =>
  cases cond' with | mk path' op' value' =>
  rw [String.toList_inj] at hvalue
  rw [FieldCondition.mk.injEq]
  exact ⟨hpath, hop, hvalue⟩

/-- What stands behind the first of some conditions. -/
def conditionsTail : List FieldCondition → List Char
  | [] => []
  | conditions => ',' :: ' ' :: conditionsText conditions

theorem conditionsText_eq (cond : FieldCondition) (conditions : List FieldCondition) :
    conditionsText (cond :: conditions) = cond.display.toList ++ conditionsTail conditions := by
  cases conditions with
  | nil => rw [conditionsText_single, conditionsTail, List.append_nil]
  | cons next conditions => exact conditionsText_cons cond next conditions

theorem conditionsTail_inj {conditions conditions' : List FieldCondition}
    (h : ∀ c ∈ conditions, c.QuoteFree) (h' : ∀ c ∈ conditions', c.QuoteFree)
    (heq : conditionsTail conditions = conditionsTail conditions') : conditions = conditions' := by
  induction conditions generalizing conditions' with
  | nil =>
    cases conditions' with
    | nil => rfl
    | cons next' conditions' => cases heq
  | cons next conditions ih =>
    cases conditions' with
    | nil => cases heq
    | cons next' conditions' =>
      have htext : conditionsText (next :: conditions) = conditionsText (next' :: conditions') :=
        List.tail_eq_of_cons_eq (List.tail_eq_of_cons_eq heq)
      obtain ⟨hnext, hmore⟩ := List.forall_mem_cons.mp h
      obtain ⟨hnext', hmore'⟩ := List.forall_mem_cons.mp h'
      rw [conditionsText_eq, conditionsText_eq] at htext
      obtain ⟨rfl, htail⟩ := conditionText_inj hnext hnext' htext
      rw [ih hmore hmore' htail]

/-- Lists of conditions without quotes in their values print differently. -/
theorem conditionsText_inj {cond cond' : FieldCondition}
    {conditions conditions' : List FieldCondition} (h : ∀ c ∈ cond :: conditions, c.QuoteFree)
    (h' : ∀ c ∈ cond' :: conditions', c.QuoteFree)
    (heq : conditionsText (cond :: conditions) = conditionsText (cond' :: conditions')) :
    cond :: conditions = cond' :: conditions' := by
  obtain ⟨hcond, hconditions⟩ := List.forall_mem_cons.mp h
  obtain ⟨hcond', hconditions'⟩ := List.forall_mem_cons.mp h'
  rw [conditionsText_eq, conditionsText_eq] at heq
  obtain ⟨rfl, htail⟩ := conditionText_inj hcond hcond' heq
  rw [conditionsTail_inj hconditions hconditions' htail]

/-! ## Printed patterns -/

/-- A tool is read off the front of a printed pattern. -/
theorem toolText_inj {tool tool' : ToolMatcher engine} {rest rest' : List Char}
    (htool : tool.WellFormed) (htool' : tool'.WellFormed)
    (hrest : rest = [] ∨ ∃ args, rest = '(' :: args)
    (hrest' : rest' = [] ∨ ∃ args, rest' = '(' :: args)
    (h : tool.display.toList ++ rest = tool'.display.toList ++ rest') :
    tool = tool' ∧ rest = rest' := by
  have hread := parseToolPart_display htool 0 hrest
  rw [h] at hread
  exact yields_inj hread (parseToolPart_display htool' 0 hrest')

/-- The printed arguments, with their parentheses. -/
def argsText (args : ArgMatcher) : List Char :=
  if args = .any then [] else '(' :: (args.display.toList ++ [')'])

theorem argsText_start (args : ArgMatcher) :
    argsText args = [] ∨ ∃ rest, argsText args = '(' :: rest := by
  unfold argsText
  split
  · exact .inl rfl
  · exact .inr ⟨_, rfl⟩

theorem display_pattern (p : ToolCallPattern engine) :
    p.display.toList = p.tool.display.toList ++ argsText p.args := by
  unfold argsText
  split
  · rename_i hany
    rw [display_any hany, List.append_nil]
  · rename_i hargs
    exact display_args hargs

/-- Printed conditions are no primary value. -/
theorem primary_ne_conditions {value : String} (hvalue : PrimaryText value.toList)
    {cond : FieldCondition} {conditions : List FieldCondition} (hpath : WellFormedPath cond.path)
    (hdash : DashFree cond.path) : value.toList ≠ conditionsText (cond :: conditions) := by
  intro h
  have hlooks := @looksLike_conditions cond conditions hpath hdash
  rw [← h, looksLikeFieldConditions_eq, trimBy_close hvalue.nonempty hvalue.stops,
    hvalue.noCondition] at hlooks
  cases hlooks

theorem argsText_inj {args args' : ArgMatcher} (h : args ≠ .any) (h' : args' ≠ .any)
    (heq : argsText args = argsText args') : args.display.toList = args'.display.toList := by
  rw [argsText, argsText, if_neg h, if_neg h'] at heq
  exact List.append_cancel_right (List.tail_eq_of_cons_eq heq)

theorem argsText_any {args : ArgMatcher} (h : argsText .any = argsText args) : args = .any := by
  by_contra hne
  rw [argsText, argsText, if_pos rfl, if_neg hne] at h
  cases h

theorem display_fields (conditions : List FieldCondition) :
    (ArgMatcher.fields conditions).display.toList = conditionsText conditions := rfl

/-- Arguments that print alike: the same, or lists of conditions with one text. -/
theorem args_of_argsText {args args' : ArgMatcher} (h : args.WellFormed) (h' : args'.WellFormed)
    (heq : argsText args = argsText args') :
    args = args' ∨ ∃ conditions conditions', args = .fields conditions ∧
      args' = .fields conditions' ∧ conditionsText conditions = conditionsText conditions' := by
  by_cases hany : args = .any
  · subst hany
    exact .inl (argsText_any heq).symm
  by_cases hany' : args' = .any
  · subst hany'
    exact .inl (argsText_any heq.symm)
  have hdisplay := argsText_inj hany hany' heq
  cases h with
  | any => exact absurd rfl hany
  | @primary value hvalue =>
    cases h' with
    | any => exact absurd rfl hany'
    | @primary value' hvalue' =>
      have hsame : value = value' := String.toList_inj.mp hdisplay
      rw [hsame]
      exact .inl rfl
    | fields hpaths' hdash' =>
      rw [display_fields] at hdisplay
      exact absurd hdisplay (primary_ne_conditions hvalue (hpaths' _ List.mem_cons_self) hdash')
  | fields hpaths hdash =>
    cases h' with
    | any => exact absurd rfl hany'
    | primary hvalue' =>
      rw [display_fields] at hdisplay
      exact absurd hdisplay.symm
        (primary_ne_conditions hvalue' (hpaths _ List.mem_cons_self) hdash)
    | fields hpaths' hdash' =>
      rw [display_fields, display_fields] at hdisplay
      exact .inr ⟨_, _, rfl, rfl, hdisplay⟩

/-! ## Subjects -/

/-- A subject that a rule can be about: a tool id, or a pattern that was parsed. -/
inductive PermissionSubject.Accepted : PermissionSubject engine → Prop
  | tool (toolId : String) : Accepted (.tool toolId)
  | pattern {text : String} {p : ToolCallPattern engine} : parsePattern engine text = .ok p →
      Accepted (.pattern p)

/-- The subjects match the same tool calls. -/
def PermissionSubject.SameMatches (a b : PermissionSubject engine) : Prop :=
  ∀ toolId toolArgs,
    (a.matchesToolCall toolId toolArgs).isSome = (b.matchesToolCall toolId toolArgs).isSome

/-- Every condition holds of the arguments. -/
def AllHold (engine : PatternEngine) (conditions : List FieldCondition) (toolArgs : Value) :
    Prop :=
  ∀ cond ∈ conditions, evaluateFieldCondition engine cond toolArgs = true

/-- One text read in two ways: field patterns over one tool whose conditions print alike, with
    a quote in a value of one of them, and a call of the tool that passes one list of conditions
    and not the other. -/
inductive ReadTwoWays (a b : PermissionSubject engine) : Prop
  | intro {tool : ToolMatcher engine} {conditions conditions' : List FieldCondition}
      {toolId : String} {toolArgs : Value} :
      a = .pattern ⟨tool, .fields conditions⟩ → b = .pattern ⟨tool, .fields conditions'⟩ →
      displayConditionsFrom 0 conditions = displayConditionsFrom 0 conditions' →
      (∃ cond ∈ conditions ++ conditions', '"' ∈ cond.value.toList) →
      (toolKind tool toolId).isSome = true →
      ¬(AllHold engine conditions toolArgs ↔ AllHold engine conditions' toolArgs) →
      ReadTwoWays a b

theorem fieldsPrecision_isSome {conditions : List FieldCondition} {toolArgs : Value}
    {precision : UInt8} :
    (fieldsPrecision engine toolArgs precision conditions).isSome = true ↔
      AllHold engine conditions toolArgs := by
  induction conditions generalizing precision with
  | nil => simp [fieldsPrecision, AllHold]
  | cons cond conditions ih =>
    rw [fieldsPrecision, AllHold, List.forall_mem_cons]
    cases hcond : evaluateFieldCondition engine cond toolArgs with
    | false => simp
    | true => simpa [AllHold] using ih

theorem matchesToolCall_fields {tool : ToolMatcher engine} {conditions : List FieldCondition}
    {toolId : String} {toolArgs : Value} :
    ((PermissionSubject.pattern ⟨tool, .fields conditions⟩).matchesToolCall toolId
        toolArgs).isSome = true ↔
      (toolKind tool toolId).isSome = true ∧ AllHold engine conditions toolArgs := by
  rw [PermissionSubject.matchesToolCall, patternMatches]
  cases toolKind tool toolId with
  | none => simp
  | some kind =>
    rw [← @fieldsPrecision_isSome engine conditions toolArgs 0]
    cases hprecision : fieldsPrecision engine toolArgs 0 conditions with
    | none => simp [hprecision]
    | some precision => simp [hprecision]

theorem tool_key_ne_pattern_key {toolId : String} {p : ToolCallPattern engine} :
    (PermissionSubject.tool toolId : PermissionSubject engine).key ≠
      (PermissionSubject.pattern p).key := by
  intro h
  have hfirst := congrArg (fun s => s.toList.head?) h
  simp [PermissionSubject.key] at hfirst

/-- Accepted subjects that share a key: the same, or field patterns with one text. -/
theorem subject_of_key_eq {a b : PermissionSubject engine} (ha : a.Accepted) (hb : b.Accepted)
    (h : a.key = b.key) :
    a = b ∨ ∃ tool conditions conditions', a = .pattern ⟨tool, .fields conditions⟩ ∧
      b = .pattern ⟨tool, .fields conditions'⟩ ∧
      conditionsText conditions = conditionsText conditions' := by
  cases ha with
  | tool toolId =>
    cases hb with
    | tool toolId' =>
      have hsame : toolId = toolId' := by simpa [PermissionSubject.key] using h
      rw [hsame]
      exact .inl rfl
    | pattern hparse' => exact absurd h tool_key_ne_pattern_key
  | @pattern text p hparse =>
    cases hb with
    | tool toolId' => exact absurd h.symm tool_key_ne_pattern_key
    | @pattern text' p' hparse' =>
      have hdisplay : p.display = p'.display := by simpa [PermissionSubject.key] using h
      obtain ⟨htool, hargs⟩ := wellFormed_of_parsePattern hparse
      obtain ⟨htool', hargs'⟩ := wellFormed_of_parsePattern hparse'
      have htext := congrArg String.toList hdisplay
      rw [display_pattern, display_pattern] at htext
      obtain ⟨htools, hargsText⟩ := toolText_inj htool htool' (argsText_start p.args)
        (argsText_start p'.args) htext
      cases p with | mk tool args =>
      cases p' with | mk tool' args' =>
      obtain rfl : tool = tool' := htools
      cases args_of_argsText hargs hargs' hargsText with
      | inl hsame =>
        obtain rfl : args = args' := hsame
        exact .inl rfl
      | inr hread =>
        obtain ⟨conditions, conditions', hfields, hfields', hconditions⟩ := hread
        obtain rfl : args = .fields conditions := hfields
        obtain rfl : args' = .fields conditions' := hfields'
        exact .inr ⟨tool, conditions, conditions', rfl, rfl, hconditions⟩

/-- The conditions of an accepted field pattern. -/
theorem conditions_of_accepted {tool : ToolMatcher engine} {conditions : List FieldCondition}
    (h : (PermissionSubject.pattern ⟨tool, .fields conditions⟩).Accepted) :
    ∃ cond others, conditions = cond :: others ∧ ∀ c ∈ conditions, WellFormedPath c.path := by
  cases h with
  | pattern hparse =>
    obtain ⟨-, hargs⟩ := wellFormed_of_parsePattern hparse
    cases hargs with
    | fields hpaths hdash => exact ⟨_, _, rfl, hpaths⟩

/-- Different conditions with one text have a quote in a value. -/
theorem quote_of_conditionsText {tool : ToolMatcher engine}
    {conditions conditions' : List FieldCondition}
    (h : (PermissionSubject.pattern ⟨tool, .fields conditions⟩).Accepted)
    (h' : (PermissionSubject.pattern ⟨tool, .fields conditions'⟩).Accepted)
    (htext : conditionsText conditions = conditionsText conditions')
    (hne : conditions ≠ conditions') :
    ∃ cond ∈ conditions ++ conditions', '"' ∈ cond.value.toList := by
  obtain ⟨cond, others, rfl, hpaths⟩ := conditions_of_accepted h
  obtain ⟨cond', others', rfl, hpaths'⟩ := conditions_of_accepted h'
  by_contra hquote
  apply hne
  apply conditionsText_inj _ _ htext
  · intro c hc
    exact ⟨hpaths c hc, fun hmem => hquote ⟨c, List.mem_append_left _ hc, hmem⟩⟩
  · intro c hc
    exact ⟨hpaths' c hc, fun hmem => hquote ⟨c, List.mem_append_right _ hc, hmem⟩⟩

/-- A tool by its id. -/
def bashTool : PermissionSubject .literal := .tool "Bash"

/-- The same tool by a pattern. -/
def bashPattern : PermissionSubject .literal := .pattern ⟨.exact "Bash", .any⟩

/-- One condition, whose value has a quote and goes on like a second condition. -/
def quotedComma : PermissionSubject .literal :=
  .pattern ⟨.exact "T", .fields [⟨[.field "a"], .exact, "x\", b = \"y"⟩]⟩

/-- Two conditions. -/
def twoConditions : PermissionSubject .literal :=
  .pattern ⟨.exact "T", .fields [⟨[.field "a"], .exact, "x"⟩, ⟨[.field "b"], .exact, "y"⟩]⟩

end Remo
