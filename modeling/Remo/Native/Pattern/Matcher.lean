import Remo.Native.Value

/-!
# Tool call patterns

Patterns, how they are printed, and how they are matched against a tool call.
-/

/-! ## Tool call patterns

The types of a pattern and how they are printed. The regular expressions and the glob
matcher come from other crates; a pattern is over a `PatternEngine` that stands for them.
-/

namespace Remo

/-- What the patterns use of the crates `regex` and `glob_match`. -/
structure PatternEngine where
  /-- `Regex::new` with the printed error, and `Regex::is_match` of the result. -/
  regexNew : String → Except String (String → Bool)
  /-- `glob_match::glob_match`. -/
  globMatch : String → String → Bool

/-- An engine without regular expressions, whose globs match literally. -/
def PatternEngine.literal : PatternEngine where
  regexNew _ := .error "unsupported"
  globMatch pattern value := pattern == value

/-- A compiled regular expression. -/
structure Regex (engine : PatternEngine) where
  source : String
  isMatch : String → Bool
  compiled : engine.regexNew source = .ok isMatch

/-- Compiled expressions are compared by their source text. -/
theorem Regex.ext {engine : PatternEngine} {a b : Regex engine} (h : a.source = b.source) :
    a = b := by
  cases a with | mk source isMatch compiled =>
  cases b with | mk source' isMatch' compiled' =>
  obtain rfl : source = source' := h
  obtain rfl : isMatch = isMatch' := Except.ok.inj (compiled.symm.trans compiled')
  rfl

/-- A single segment in a dotted field path. -/
inductive PathSegment where
  | field (name : String)
  | index (i : UInt64)
  | anyIndex
  | wildcard
deriving Repr, DecidableEq

/-- Comparison operator for field conditions. -/
inductive MatchOp where
  | glob
  | exact
  | regex
  | notGlob
  | notExact
  | notRegex
deriving Repr, DecidableEq

/-- A single field-level predicate. -/
structure FieldCondition where
  path : List PathSegment
  op : MatchOp
  value : String
deriving Repr, DecidableEq

/-- How to match the tool name portion of a call. -/
inductive ToolMatcher (engine : PatternEngine) where
  | exact (name : String)
  | glob (pattern : String)
  | regex (re : Regex engine)

theorem ToolMatcher.regex_eq_iff {engine : PatternEngine} {a b : Regex engine} :
    a.source = b.source ↔ ToolMatcher.regex a = .regex b := by
  constructor
  · exact fun h => congrArg _ (Regex.ext h)
  · intro h
    cases h
    rfl

/-- Expressions are compared by their source text. -/
instance {engine : PatternEngine} : DecidableEq (ToolMatcher engine)
  | .exact a, .exact b => decidable_of_iff (a = b) (ToolMatcher.exact.injEq a b ▸ Iff.rfl)
  | .glob a, .glob b => decidable_of_iff (a = b) (ToolMatcher.glob.injEq a b ▸ Iff.rfl)
  | .regex a, .regex b => decidable_of_iff (a.source = b.source) ToolMatcher.regex_eq_iff
  | .exact _, .glob _ => isFalse fun h => by cases h
  | .exact _, .regex _ => isFalse fun h => by cases h
  | .glob _, .exact _ => isFalse fun h => by cases h
  | .glob _, .regex _ => isFalse fun h => by cases h
  | .regex _, .exact _ => isFalse fun h => by cases h
  | .regex _, .glob _ => isFalse fun h => by cases h

/-- How to match the arguments portion of a tool call. -/
inductive ArgMatcher where
  | any
  | primary (op : MatchOp) (value : String)
  | fields (conditions : List FieldCondition)
deriving Repr, DecidableEq

/-- The name of an exact matcher. -/
def ToolMatcher.exactName? {engine : PatternEngine} : ToolMatcher engine → Option String
  | .exact name => some name
  | .glob _ => none
  | .regex _ => none

/-- No condition on the arguments. -/
def ArgMatcher.isAny : ArgMatcher → Bool
  | .any => true
  | .primary _ _ => false
  | .fields _ => false

/-- A pattern matching tool calls by name and optionally by arguments. -/
structure ToolCallPattern (engine : PatternEngine) where
  tool : ToolMatcher engine
  args : ArgMatcher
deriving DecidableEq

/-! ## Printing -/

def PathSegment.display : PathSegment → String
  | .field name => name
  | .index i => "[" ++ toString i.toNat ++ "]"
  | .anyIndex => "[*]"
  | .wildcard => "*"

def MatchOp.display : MatchOp → String
  | .glob => "~"
  | .exact => "="
  | .regex => "=~"
  | .notGlob => "!~"
  | .notExact => "!="
  | .notRegex => "!=~"

/-- What goes before the segment at position `i`: a dot before a name or a wildcard that
    is not the first segment. -/
def segmentSeparator (i : Nat) : PathSegment → String
  | .field _ | .wildcard => if 0 < i then "." else ""
  | .index _ | .anyIndex => ""

/-- The segments from position `i` on. -/
def displayPathFrom (i : Nat) : List PathSegment → String
  | [] => ""
  | seg :: rest => segmentSeparator i seg ++ seg.display ++ displayPathFrom (i + 1) rest

def FieldCondition.display (cond : FieldCondition) : String :=
  displayPathFrom 0 cond.path ++ " " ++ cond.op.display ++ " \"" ++ cond.value ++ "\""

variable {engine : PatternEngine}

def ToolMatcher.display : ToolMatcher engine → String
  | .exact s | .glob s => s
  | .regex re => "/" ++ re.source ++ "/"

/-- The conditions from position `i` on. -/
def displayConditionsFrom (i : Nat) : List FieldCondition → String
  | [] => ""
  | cond :: rest =>
    (if 0 < i then ", " else "") ++ cond.display ++ displayConditionsFrom (i + 1) rest

def ArgMatcher.display : ArgMatcher → String
  | .any => "*"
  | .primary op value =>
    match op with
    | .glob => value
    | op => op.display ++ " \"" ++ value ++ "\""
  | .fields conditions => displayConditionsFrom 0 conditions

def ToolCallPattern.display (self : ToolCallPattern engine) : String :=
  self.tool.display ++
    match self.args with
    | .any => ""
    | other => "(" ++ other.display ++ ")"

example : FieldCondition.display ⟨[.field "items", .index 0, .field "name"], .exact, "foo"⟩ =
    "items[0].name = \"foo\"" := by decide

/-! ## Match result and specificity -/

/-- Specificity of a pattern match. Fields are compared from the first to the last. -/
structure Specificity where
  toolKind : UInt8
  hasArgs : Bool
  fieldCount : UInt8
  fieldPrecision : UInt8
deriving Repr, DecidableEq, Ord

/-- Result of matching a pattern against a tool call. -/
inductive MatchResult where
  | noMatch
  | matched (specificity : Specificity)
deriving Repr, DecidableEq

def MatchResult.isMatch : MatchResult → Bool
  | .noMatch => false
  | .matched _ => true

end Remo

/-! ## Pattern matching

Evaluates a pattern against a tool id and the JSON arguments of a call, with the
specificity of the match.
-/

namespace Remo

/-! ## Field resolution -/

/-- All leaf values a dotted path reaches. -/
def resolvePath (value : Value) : List PathSegment → List Value
  | [] => [value]
  | head :: tail =>
    match head with
    | .field name =>
      match value.get name with
      | some child => resolvePath child tail
      | none => []
    | .index i =>
      match value.asArray.bind fun arr => arr[i.toNat]? with
      | some child => resolvePath child tail
      | none => []
    | .anyIndex =>
      match value.asArray with
      | some arr => arr.flatMap fun elem => resolvePath elem tail
      | none => []
    | .wildcard =>
      match value.asObject with
      | some obj => obj.flatMap fun entry => resolvePath entry.2 tail
      | none => []

/-- The text of a value that matching looks at. -/
def valueToString : Value → String
  | .string s => s
  | .null => ""
  | other => other.print

/-- The value of a single-entry object, the whole arguments otherwise. -/
def inferPrimaryValue (args : Value) : String :=
  match args.asObject with
  | some [(_, v)] => valueToString v
  | _ => valueToString args

/-! ## Condition evaluation -/

/-- The byte `*`. -/
def star : UInt8 := 0x2A

/-- The byte `/`. -/
def slash : UInt8 := 0x2F

theorem encodeChar_star : String.utf8EncodeChar '*' = [star] := by decide

/-- The text of one run of `*`: a single one becomes `**` unless a globstar stands
    before or after it. -/
def starRun (before : List UInt8) (count : Nat) (after : List UInt8) : List Char :=
  if 2 ≤ count then List.replicate count '*'
  else
    let precededByGlobstar := before.take 3 == [slash, star, star]
    let followedByGlobstar := after.take 3 == [slash, star, star]
    if precededByGlobstar || followedByGlobstar then ['*'] else ['*', '*']

/-- The normalised text of the bytes still to read. `before` are the bytes already
    read, the last one first. -/
def normalizeFrom (before : List UInt8) (rest : List UInt8) : List Char :=
  match rest with
  | [] => []
  | b :: tail =>
    if b = star then
      let run := tail.takeWhile (· == star)
      let after := tail.dropWhile (· == star)
      starRun before (run.length + 1) after ++ normalizeFrom (run ++ b :: before) after
    else
      -- the byte is taken for a character of its own
      Char.ofNat b.toNat :: normalizeFrom (b :: before) tail
termination_by rest.length
decreasing_by
  · exact Nat.lt_succ_of_le (List.dropWhile_sublist _).length_le
  · exact Nat.lt_succ_self _

/-- Convert a standalone `*` to `**`, which crosses `/`. -/
def normalizeWildcards (pattern : String) : String :=
  String.ofList (normalizeFrom [] (pattern.toList.flatMap String.utf8EncodeChar))

/-- Numerical precision of an operator. -/
def opPrecision : MatchOp → UInt8
  | .exact | .notExact => 3
  | .glob | .notGlob => 2
  | .regex | .notRegex => 1

variable {engine : PatternEngine}

/-- Wildcard match where `*` matches any characters including `/`. -/
def wildcardMatch (engine : PatternEngine) (pattern value : String) : Bool :=
  engine.globMatch (normalizeWildcards pattern) value

/-- Evaluate a match operator against a string value. -/
def evaluateOp (engine : PatternEngine) (op : MatchOp) (pattern value : String) : Bool :=
  match op with
  | .glob => wildcardMatch engine pattern value
  | .exact => pattern == value
  | .regex =>
    match engine.regexNew pattern with
    | .ok isMatch => isMatch value
    | .error _ => false
  | .notGlob => !wildcardMatch engine pattern value
  | .notExact => pattern != value
  | .notRegex =>
    match engine.regexNew pattern with
    | .ok isMatch => !isMatch value
    | .error _ => true

/-- A condition holds when one of the values its path reaches passes the operator. -/
def evaluateFieldCondition (engine : PatternEngine) (cond : FieldCondition) (args : Value) :
    Bool :=
  let resolved := resolvePath args cond.path
  if resolved.isEmpty then false
  else resolved.any fun v => evaluateOp engine cond.op cond.value (valueToString v)

/-- `u8::saturating_add`. -/
def saturatingAddU8 (a b : UInt8) : UInt8 :=
  if a.toNat + b.toNat ≤ 255 then a + b else 255

/-- How precisely a tool matcher names the tool, if it does. -/
def toolKind (tool : ToolMatcher engine) (toolId : String) : Option UInt8 :=
  match tool with
  | .exact name => if name != toolId then none else some 3
  | .glob pat => if !wildcardMatch engine pat toolId then none else some 2
  | .regex re => if !re.isMatch toolId then none else some 1

/-- The summed precision of the conditions, unless one of them fails. -/
def fieldsPrecision (engine : PatternEngine) (toolArgs : Value) (fieldPrecision : UInt8) :
    List FieldCondition → Option UInt8
  | [] => some fieldPrecision
  | cond :: conditions =>
    if !evaluateFieldCondition engine cond toolArgs then none
    else
      fieldsPrecision engine toolArgs (saturatingAddU8 fieldPrecision (opPrecision cond.op))
        conditions

/-- Evaluate whether a pattern matches a tool call. -/
def patternMatches (pattern : ToolCallPattern engine) (toolId : String) (toolArgs : Value) :
    MatchResult :=
  match toolKind pattern.tool toolId with
  | none => .noMatch
  | some kind =>
    match pattern.args with
    | .any => .matched ⟨kind, false, 0, 0⟩
    | .primary op value =>
      if evaluateOp engine op value (inferPrimaryValue toolArgs) then
        .matched ⟨kind, true, 1, opPrecision op⟩
      else .noMatch
    | .fields conditions =>
      match fieldsPrecision engine toolArgs 0 conditions with
      | none => .noMatch
      | some fieldPrecision =>
        .matched ⟨kind, true, UInt8.ofNat (min conditions.length 255), fieldPrecision⟩

end Remo
