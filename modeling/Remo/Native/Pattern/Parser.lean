import Remo.Native.Pattern.Matcher

/-!
# Pattern parser

The parser of pattern strings. A cursor holds its byte position and the characters that
remain from there. A loop over the remaining characters has a pass for each of them, and
none is needed when they are used up.
-/

namespace Remo

/-- Error returned when a pattern string cannot be parsed. -/
structure PatternParseError where
  message : String
  position : Nat
deriving Repr, DecidableEq

/-- How parsing fails: with an error, or with a panic. -/
inductive ParseFailure where
  | error (e : PatternParseError)
  | panicked
deriving Repr, DecidableEq

/-- `char::is_ascii_whitespace`. -/
def isAsciiWhitespace (c : Char) : Bool :=
  c == ' ' || c == '\t' || c == '\n' || c == '\x0C' || c == '\r'

/-- `char::is_ascii_alphanumeric`. -/
def isAsciiAlphanumeric (c : Char) : Bool := c.isAlphanum

/-- `char::is_ascii_digit`. -/
def isAsciiDigit (c : Char) : Bool := c.isDigit

/-- Length in bytes. -/
def utf8Len : List Char → Nat
  | [] => 0
  | c :: cs => c.utf8Size + utf8Len cs

/-! ## The cursor -/

structure Cursor where
  pos : Nat
  remaining : List Char
deriving Repr, DecidableEq

namespace Cursor

def new (input : String) : Cursor := ⟨0, input.toList⟩

def peek (self : Cursor) : Option Char := self.remaining.head?

/-- Move over the next `n` characters. -/
def advance (self : Cursor) (n : Nat) : Cursor :=
  ⟨self.pos + utf8Len (self.remaining.take n), self.remaining.drop n⟩

/-- Move on while the next character satisfies `p`, and return what was passed. -/
def takeWhile (self : Cursor) (p : Char → Bool) : List Char × Cursor :=
  (self.remaining.takeWhile p,
    ⟨self.pos + utf8Len (self.remaining.takeWhile p), self.remaining.dropWhile p⟩)

def skipWhitespace (self : Cursor) : Cursor := (self.takeWhile isAsciiWhitespace).2

def error (self : Cursor) (message : String) : ParseFailure := .error ⟨message, self.pos⟩

def expect (self : Cursor) (ch : Char) : Except ParseFailure Cursor :=
  let self := self.skipWhitespace
  match self.peek with
  | some c =>
    if c = ch then .ok (self.advance 1)
    else .error (self.error s!"expected '{ch}', found '{c}'")
  | none => .error (self.error s!"expected '{ch}', found end of input")

end Cursor

/-! ## The tool part -/

/-- The nesting depths are `u32`. -/
def maxDepth : Nat := 0xFFFFFFFF

/-- The body of a regular expression up to a slash outside of parentheses, and what
    follows it. -/
def scanRegex (depth : Nat) : List Char → Except ParseFailure (List Char × List Char)
  | [] => .ok ([], [])
  | c :: rest =>
    if c = '\\' then
      match rest with
      | [] => .ok ([c], [])
      | escaped :: rest' =>
        -- one byte is skipped, and the cursor may not stop inside a character
        if escaped.utf8Size = 1 then do
          let (body, rest) ← scanRegex depth rest'
          .ok (c :: escaped :: body, rest)
        else .error .panicked
    else if c = '(' then
      if depth = maxDepth then .error .panicked
      else do
        let (body, rest) ← scanRegex (depth + 1) rest
        .ok (c :: body, rest)
    else if c = ')' then do
      let (body, rest) ← scanRegex (depth - 1) rest
      .ok (c :: body, rest)
    else if c = '/' ∧ depth = 0 then .ok ([], c :: rest)
    else do
      let (body, rest) ← scanRegex depth rest
      .ok (c :: body, rest)

def hasGlobChars (s : List Char) : Bool := s.contains '*' || s.contains '?' || s.contains '['

def parseToolPart (engine : PatternEngine) (cursor : Cursor) :
    Except ParseFailure (ToolMatcher engine × Cursor) :=
  let cursor := cursor.skipWhitespace
  if cursor.peek = some '/' then do
    let cursor := cursor.advance 1
    let (body, rest) ← scanRegex 0 cursor.remaining
    let cursor : Cursor := ⟨cursor.pos + utf8Len body, rest⟩
    if body.isEmpty then .error (cursor.error "empty regex pattern")
    else do
      let cursor ← cursor.expect '/'
      match h : engine.regexNew (String.ofList body) with
      | .error e => .error (cursor.error s!"invalid regex: {e}")
      | .ok isMatch => .ok (.regex ⟨String.ofList body, isMatch, h⟩, cursor)
  else
    let (name, cursor) := cursor.takeWhile fun c => !(c == '(' || isAsciiWhitespace c)
    if name.isEmpty then .error (cursor.error "empty tool name")
    else if hasGlobChars name then .ok (.glob (String.ofList name), cursor)
    else .ok (.exact (String.ofList name), cursor)

/-! ## Field conditions -/

/-- What follows the characters that may belong to a field path. -/
def skipPathChars (inBrackets : Bool) : List Char → List Char
  | [] => []
  | c :: rest =>
    if inBrackets then skipPathChars (c != ']') rest
    else if isAsciiAlphanumeric c || c == '_' || c == '.' then skipPathChars false rest
    else if c = '[' then skipPathChars true rest
    else if c = '*' then
      match rest with
      | [] => rest
      | next :: _ => if next = '.' ∨ next = '[' then skipPathChars false rest else rest
    else c :: rest

/-- The text begins with an operator. -/
def startsWithOp : List Char → Bool
  | '~' :: _ => true
  | '=' :: _ => true
  | '!' :: '~' :: _ => true
  | '!' :: '=' :: _ => true
  | _ => false

def looksLikeFieldConditions (s : List Char) : Bool :=
  let s := (Str.trim (String.ofList s)).toList
  startsWithOp ((skipPathChars false s).dropWhile isAsciiWhitespace)

def isIdentifierChar (c : Char) : Bool := isAsciiAlphanumeric c || c == '_' || c == '-'

def parseIdentifier (cursor : Cursor) : Except ParseFailure (String × Cursor) :=
  let (ident, cursor) := cursor.takeWhile isIdentifierChar
  if ident.isEmpty then .error (cursor.error "expected identifier")
  else .ok (String.ofList ident, cursor)

def parseUsize (cursor : Cursor) : Except ParseFailure (UInt64 × Cursor) :=
  let (digits, cursor) := cursor.takeWhile isAsciiDigit
  let value := Nat.ofDigitChars 10 digits 0
  if digits = [] ∨ 0xFFFFFFFFFFFFFFFF < value then
    .error (cursor.error s!"invalid index: '{String.ofList digits}'")
  else .ok (UInt64.ofNat value, cursor)

/-- What stands in the brackets, and the closing one. -/
def parseIndex (cursor : Cursor) : Except ParseFailure (PathSegment × Cursor) :=
  let cursor := cursor.skipWhitespace
  if cursor.peek = some '*' then do
    let cursor ← (cursor.advance 1).expect ']'
    .ok (.anyIndex, cursor)
  else do
    let (idx, cursor) ← parseUsize cursor
    let cursor ← cursor.expect ']'
    .ok (.index idx, cursor)

/-- The indices after a name, one in each pass. -/
def parseIndices : Nat → Cursor → Except ParseFailure (List PathSegment × Cursor)
  | 0, cursor => .ok ([], cursor)
  | passes + 1, cursor =>
    if cursor.peek = some '[' then do
      let (index, cursor) ← parseIndex (cursor.advance 1)
      let (indices, cursor) ← parseIndices passes cursor
      .ok (index :: indices, cursor)
    else .ok ([], cursor)

/-- A name or a wildcard. -/
def parseSegmentName (cursor : Cursor) : Except ParseFailure (PathSegment × Cursor) :=
  let cursor := cursor.skipWhitespace
  if cursor.peek = some '*' then .ok (.wildcard, cursor.advance 1)
  else do
    let (ident, cursor) ← parseIdentifier cursor
    .ok (.field ident, cursor)

/-- The segments of a path, one name with its indices in each pass. -/
def parsePathSegments : Nat → Cursor → Except ParseFailure (List PathSegment × Cursor)
  | 0, cursor => .error (cursor.error "expected identifier")
  | passes + 1, cursor => do
    let (name, cursor) ← parseSegmentName cursor
    let (indices, cursor) ← parseIndices cursor.remaining.length cursor
    if cursor.peek = some '.' then do
      let (segments, cursor) ← parsePathSegments passes (cursor.advance 1)
      .ok (name :: indices ++ segments, cursor)
    else .ok (name :: indices, cursor)

def parseFieldPath (cursor : Cursor) : Except ParseFailure (List PathSegment × Cursor) :=
  parsePathSegments cursor.remaining.length cursor

def parseMatchOp (cursor : Cursor) : Except ParseFailure (MatchOp × Cursor) :=
  match cursor.remaining with
  | '!' :: '=' :: '~' :: _ => .ok (.notRegex, cursor.advance 3)
  | '!' :: '=' :: _ => .ok (.notExact, cursor.advance 2)
  | '!' :: '~' :: _ => .ok (.notGlob, cursor.advance 2)
  | '=' :: '~' :: _ => .ok (.regex, cursor.advance 2)
  | '~' :: _ => .ok (.glob, cursor.advance 1)
  | '=' :: _ => .ok (.exact, cursor.advance 1)
  | _ => .error (cursor.error "expected operator: ~, =, =~, !~, !=, or !=~")

/-- The rest of a quoted value. Only a quote and a backslash are unescaped. -/
def scanQuoted (pos : Nat) : List Char → Except ParseFailure (List Char × Cursor)
  | [] => .error (.error ⟨"unterminated string literal", pos⟩)
  | c :: rest =>
    if c = '"' then .ok ([], ⟨pos + 1, rest⟩)
    else if c = '\\' then
      match rest with
      | [] => .error (.error ⟨"unterminated escape sequence", pos + 1⟩)
      | escaped :: rest' => do
        let (value, cursor) ← scanQuoted (pos + 1 + escaped.utf8Size) rest'
        if escaped = '"' ∨ escaped = '\\' then .ok (escaped :: value, cursor)
        else .ok (c :: escaped :: value, cursor)
    else do
      let (value, cursor) ← scanQuoted (pos + c.utf8Size) rest
      .ok (c :: value, cursor)

def parseQuotedValue (cursor : Cursor) : Except ParseFailure (String × Cursor) :=
  let cursor := cursor.skipWhitespace
  if cursor.peek ≠ some '"' then .error (cursor.error "expected '\"' to start value")
  else do
    let cursor := cursor.advance 1
    let (value, cursor) ← scanQuoted cursor.pos cursor.remaining
    .ok (String.ofList value, cursor)

def parseSingleFieldCondition (cursor : Cursor) :
    Except ParseFailure (FieldCondition × Cursor) := do
  let (path, cursor) ← parseFieldPath cursor.skipWhitespace
  let (op, cursor) ← parseMatchOp cursor.skipWhitespace
  let (value, cursor) ← parseQuotedValue cursor.skipWhitespace
  .ok (⟨path, op, value⟩, cursor)

/-- The conditions, one in each pass. -/
def parseConditions : Nat → Cursor → Except ParseFailure (List FieldCondition × Cursor)
  | 0, cursor => .error (cursor.error "expected identifier")
  | passes + 1, cursor => do
    let (cond, cursor) ← parseSingleFieldCondition cursor.skipWhitespace
    let cursor := cursor.skipWhitespace
    if cursor.peek = some ',' then do
      let (conditions, cursor) ← parseConditions passes (cursor.advance 1)
      .ok (cond :: conditions, cursor)
    else .ok ([cond], cursor)

def parseFieldConditions (cursor : Cursor) : Except ParseFailure (ArgMatcher × Cursor) := do
  let (conditions, cursor) ← parseConditions cursor.remaining.length cursor
  .ok (.fields conditions, cursor)

/-! ## The argument part -/

/-- The text up to the closing parenthesis that matches none in it, and what follows. -/
def scanPrimary (depth : Nat) : List Char → Except ParseFailure (List Char × List Char)
  | [] => .ok ([], [])
  | c :: rest =>
    if c = '(' then
      if depth = maxDepth then .error .panicked
      else do
        let (text, rest) ← scanPrimary (depth + 1) rest
        .ok (c :: text, rest)
    else if c = ')' then
      if 0 < depth then do
        let (text, rest) ← scanPrimary (depth - 1) rest
        .ok (c :: text, rest)
      else .ok ([], c :: rest)
    else do
      let (text, rest) ← scanPrimary depth rest
      .ok (c :: text, rest)

def parsePrimaryValue (cursor : Cursor) : Except ParseFailure (ArgMatcher × Cursor) := do
  let cursor := cursor.skipWhitespace
  let (text, rest) ← scanPrimary 0 cursor.remaining
  let cursor : Cursor := ⟨cursor.pos + utf8Len text, rest⟩
  let value := Str.trim (String.ofList text)
  if value.isEmpty then .error (cursor.error "empty primary pattern")
  else .ok (.primary .glob value, cursor)

/-- A star that stands for any arguments: the next byte is a whole character that ends the
    argument, or there is none. -/
def starsAny : List Char → Bool
  | '*' :: rest =>
    match rest with
    | [] => true
    | c :: _ => c.utf8Size ≠ 1 || c == ')' || isAsciiWhitespace c
  | _ => false

def parseArgPart (cursor : Cursor) : Except ParseFailure (ArgMatcher × Cursor) :=
  let cursor := cursor.skipWhitespace
  if starsAny cursor.remaining then .ok (.any, (cursor.advance 1).skipWhitespace)
  else if looksLikeFieldConditions cursor.remaining then parseFieldConditions cursor
  else parsePrimaryValue cursor

/-- The arguments in parentheses; without parentheses, any arguments. -/
def parseArgs (cursor : Cursor) : Except ParseFailure (ArgMatcher × Cursor) :=
  if cursor.peek = some '(' then do
    let (args, cursor) ← parseArgPart (cursor.advance 1)
    let cursor ← cursor.expect ')'
    .ok (args, cursor)
  else .ok (.any, cursor)

/-- Parse a pattern string. -/
def parsePattern (engine : PatternEngine) (input : String) :
    Except ParseFailure (ToolCallPattern engine) := do
  let (tool, cursor) ← parseToolPart engine (Cursor.new (Str.trim input))
  let (args, cursor) ← parseArgs cursor.skipWhitespace
  let cursor := cursor.skipWhitespace
  if cursor.remaining.isEmpty then .ok ⟨tool, args⟩
  else .error (cursor.error s!"unexpected trailing: '{String.ofList cursor.remaining}'")

end Remo
