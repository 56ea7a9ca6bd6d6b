import Remo.Spec.Pattern.Conditions

/-!
# Stored patterns

A pattern is stored as its printed text and parsed again when it is loaded. The parser
only returns patterns of a certain form, and such a pattern survives exactly when its text
is free of the three things that printing does not guard: white space at the end of a tool
name, a lone star at the start of the arguments, and characters of a quoted value that
would need an escape.

Key results:
* `wellFormed_of_parsePattern` what the parser accepts is well formed
* `parsePattern_display`       a well-formed plain pattern is read back
* `parsePattern_display_iff`   a parsed pattern survives exactly when it is plain
-/

namespace Remo

variable {engine : PatternEngine}

/-! ## Well-formed patterns -/

/-- A parsed tool name. -/
structure ToolName (name : List Char) : Prop where
  nonempty : name ≠ []
  stops : Stops Str.isWhitespace name
  noSlash : ∀ rest, name ≠ '/' :: rest
  chars : ∀ c ∈ name, (!(c == '(' || isAsciiWhitespace c)) = true

/-- A tool matcher as the parser returns it. -/
inductive ToolMatcher.WellFormed : ToolMatcher engine → Prop
  | exact {name : String} : ToolName name.toList → hasGlobChars name.toList = false →
      WellFormed (.exact name)
  | glob {pattern : String} : ToolName pattern.toList → hasGlobChars pattern.toList = true →
      WellFormed (.glob pattern)
  | regex {re : Regex engine} : re.source.toList ≠ [] →
      (∀ rest, scanRegex 0 (re.source.toList ++ '/' :: rest) =
        .ok (re.source.toList, '/' :: rest)) → WellFormed (.regex re)

/-- Arguments as the parser returns them. -/
inductive ArgMatcher.WellFormed : ArgMatcher → Prop
  | any : WellFormed .any
  | primary {value : String} : PrimaryText value.toList → WellFormed (.primary .glob value)
  | fields {cond : FieldCondition} {conditions : List FieldCondition} :
      (∀ c ∈ cond :: conditions, WellFormedPath c.path) → DashFree cond.path →
      WellFormed (.fields (cond :: conditions))

/-- The text does not end in white space, unless slashes enclose it. -/
def ToolMatcher.EndsPlain : ToolMatcher engine → Prop
  | .exact name | .glob name => EndsOff Str.isWhitespace name.toList
  | .regex _ => True

/-- Nothing in the printed pattern would need a guard. -/
def ToolCallPattern.Plain (p : ToolCallPattern engine) : Prop :=
  match p.args with
  | .any => p.tool.EndsPlain
  | .primary _ value => ¬ LoneStar value.toList
  | .fields conditions =>
    (∀ cond, conditions.head? = some cond → cond.path ≠ [.wildcard]) ∧
      ∀ cond ∈ conditions, QuotePlain cond.value.toList

/-! ## The tool part -/

/-- A name that was read up to a delimiter. -/
theorem toolName_takeWhile {text : List Char} (hstart : Stops Str.isWhitespace text)
    (hslash : text.head? ≠ some '/')
    (hne : text.takeWhile (fun c => !(c == '(' || isAsciiWhitespace c)) ≠ []) :
    ToolName (text.takeWhile fun c => !(c == '(' || isAsciiWhitespace c)) := by
  have hchars := all_takeWhile (fun c => !(c == '(' || isAsciiWhitespace c)) text
  cases text with
  | nil => exact absurd rfl hne
  | cons c text =>
    rw [List.takeWhile_cons] at hne hchars ⊢
    split at hne
    · rename_i hc
      rw [if_pos hc] at hchars ⊢
      refine ⟨by simp, by simpa using hstart, ?_, hchars⟩
      intro rest heq
      exact hslash (by simp [(List.cons.inj heq).1])
    · exact absurd rfl hne

theorem wellFormed_of_parseToolPart {cursor cursor' : Cursor} {tool : ToolMatcher engine}
    (hstart : Stops Str.isWhitespace cursor.remaining)
    (h : parseToolPart engine cursor = .ok (tool, cursor')) : tool.WellFormed := by
  obtain ⟨pos, text⟩ := cursor
  unfold parseToolPart at h
  rw [Cursor.skipWhitespace_of_stops hstart.ascii] at h
  dsimp only at h
  split at h
  · obtain ⟨⟨body, rest⟩, hscan, h⟩ := exists_of_bind_ok h
    dsimp only at h
    split at h
    · cases h
    · rename_i hne
      obtain ⟨c, hexpect, h⟩ := exists_of_bind_ok h
      split at h
      · cases h
      · cases h
        have hslash := Cursor.of_expect_ok hexpect
        apply ToolMatcher.WellFormed.regex
        · simpa using hne
        · intro rest'
          rw [String.toList_ofList]
          cases scanRegex_rest hscan with
          | inl hnil =>
            rw [hnil] at hslash
            cases hslash
          | inr hrest =>
            obtain ⟨r, rfl⟩ := hrest
            exact scanRegex_append_slash hscan rest'
  · rename_i hslash
    split at h
    · cases h
    · rename_i hne
      have hname := toolName_takeWhile hstart hslash (by simpa [Cursor.takeWhile] using hne)
      split at h
      · rename_i hglob
        cases h
        exact .glob (by simpa [Cursor.takeWhile] using hname)
          (by simpa [Cursor.takeWhile] using hglob)
      · rename_i hglob
        cases h
        exact .exact (by simpa [Cursor.takeWhile] using hname)
          (by simpa [Cursor.takeWhile] using hglob)

/-- A printed tool is read back before the arguments or the end. -/
theorem parseToolPart_display {tool : ToolMatcher engine} (h : tool.WellFormed) (pos : Nat)
    {rest : List Char} (hrest : rest = [] ∨ ∃ args, rest = '(' :: args) :
    Yields (parseToolPart engine ⟨pos, tool.display.toList ++ rest⟩) tool rest := by
  have hname : ∀ {name : List Char}, ToolName name →
      (Cursor.mk pos (name ++ rest)).skipWhitespace = ⟨pos, name ++ rest⟩ ∧
        (Cursor.mk pos (name ++ rest)).peek ≠ some '/' ∧
        (Cursor.mk pos (name ++ rest)).takeWhile (fun c => !(c == '(' || isAsciiWhitespace c)) =
          (name, ⟨pos + utf8Len name, rest⟩) := by
    intro name hname
    have hstops : Stops (fun c => !(c == '(' || isAsciiWhitespace c)) rest := by
      cases hrest with
      | inl hnil => simp [hnil]
      | inr hargs =>
        obtain ⟨args, rfl⟩ := hargs
        simp
    refine ⟨Cursor.skipWhitespace_of_stops (hname.stops.ascii.append hname.nonempty), ?_, ?_⟩
    · cases hcs : name with
      | nil => exact absurd hcs hname.nonempty
      | cons c cs =>
        intro hpeek
        have hc : c = '/' := by simpa using hpeek
        exact hname.noSlash cs (by rw [hcs, hc])
    · simp only [Cursor.takeWhile, takeWhile_append_stops hname.chars hstops,
        dropWhile_append_stops hname.chars hstops]
  cases h with
  | @exact name hn hglob =>
    obtain ⟨hskip, hpeek, htake⟩ := hname hn
    have hne : name.toList.isEmpty = false := by simpa using hn.nonempty
    simp only [ToolMatcher.display, parseToolPart, hskip, if_neg hpeek, htake, hne, hglob,
      Bool.false_eq_true, if_false, String.ofList_toList]
    exact yields_ok _ _ _
  | @glob name hn hglob =>
    obtain ⟨hskip, hpeek, htake⟩ := hname hn
    have hne : name.toList.isEmpty = false := by simpa using hn.nonempty
    simp only [ToolMatcher.display, parseToolPart, hskip, if_neg hpeek, htake, hne, hglob,
      Bool.false_eq_true, if_false, if_true, String.ofList_toList]
    exact yields_ok _ _ _
  | @regex re hne hscan =>
    have htext : (ToolMatcher.regex re).display.toList ++ rest =
        '/' :: (re.source.toList ++ '/' :: rest) := by
      simp [ToolMatcher.display]
    have hempty : re.source.toList.isEmpty = false := by simpa using hne
    rw [htext, parseToolPart, Cursor.skipWhitespace_of_stops (by simp [isAsciiWhitespace])]
    simp only [Cursor.peek_cons, if_true, Cursor.remaining_advance, List.drop_succ_cons,
      List.drop_zero, hscan rest, bind, Except.bind, hempty, Bool.false_eq_true, if_false]
    generalize (Cursor.advance _ 1).pos + utf8Len re.source.toList = pos'
    have hslash : (Cursor.mk pos' ('/' :: rest)).remaining.dropWhile isAsciiWhitespace =
        '/' :: rest := by simp [isAsciiWhitespace]
    obtain ⟨pos'', hexpect⟩ := Cursor.expect_ok hslash
    simp only [hexpect]
    split
    · rename_i hcompile
      rw [String.ofList_toList, re.compiled] at hcompile
      cases hcompile
    · refine ⟨pos'', ?_⟩
      congr 3
      exact Regex.ext String.ofList_toList

/-! ## What the parser accepts -/

/-- White space is no parenthesis. -/
theorem ne_parens_of_whitespace {pad : List Char} (h : ∀ c ∈ pad, Str.isWhitespace c = true) :
    ∀ c ∈ pad, c ≠ '(' ∧ c ≠ ')' :=
  fun c hc => ⟨isWhitespace_ne (h c hc) (by decide), isWhitespace_ne (h c hc) (by decide)⟩

/-- The trimmed text up to the closing parenthesis is a primary value when it is not empty
    and the text up to the end was not taken for conditions. -/
theorem primaryText_of_scan {text raw tail : List Char}
    (hscan : scanPrimary 0 text = .ok (raw, ')' :: tail))
    (htail : ∀ c ∈ tail, Str.isWhitespace c = true) (hne : trimBy Str.isWhitespace raw ≠ [])
    (hlooks : looksLikeFieldConditions text = false) :
    PrimaryText (trimBy Str.isWhitespace raw) := by
  obtain ⟨before, after, hraw, hbefore, hafter, hdrop⟩ := exists_trimBy Str.isWhitespace raw
  have hstops := stops_trimBy Str.isWhitespace raw
  have hends := endsOff_trimBy Str.isWhitespace raw
  generalize trimBy Str.isWhitespace raw = value at *
  have htext : text = before ++ (value ++ (after ++ ')' :: tail)) := by
    rw [(scanPrimary_rest hscan).1, hraw]
    simp
  refine ⟨hne, hstops, hends, ?_, ?_⟩
  · rw [htext, scanPrimary_append (ne_parens_of_whitespace hbefore)] at hscan
    obtain ⟨⟨value', r⟩, hscan', hr⟩ := exists_of_map_ok hscan
    have hvalue' : value' = value ++ after := by
      have := (Prod.mk.inj hr).1
      rw [hraw] at this
      exact List.append_cancel_left this
    have hr' : r = ')' :: tail := (Prod.mk.inj hr).2
    rw [hvalue', hr'] at hscan'
    exact scanPrimary_unpad (ne_parens_of_whitespace hafter) hscan' []
  · have hends' : EndsOff Str.isWhitespace (value ++ (after ++ [')'])) := by
      rw [← List.append_assoc]
      exact endsOff_concat.mpr (by decide)
    have htrim : trimBy Str.isWhitespace text = value ++ (after ++ [')']) := by
      rw [← trimBy_append hbefore htail (by simp) (hstops.append hne) hends', htext]
      simp
    rw [looksLikeFieldConditions_eq, htrim, conditionAhead_unpad hafter] at hlooks
    exact hlooks

theorem wellFormedPath_of_parseSingle {cursor cursor' : Cursor} {cond : FieldCondition}
    (h : parseSingleFieldCondition cursor = .ok (cond, cursor')) :
    ∃ passes c, parsePathSegments passes cursor.skipWhitespace = .ok (cond.path, c) := by
  obtain ⟨⟨path, c⟩, hpath, h⟩ := exists_of_bind_ok h
  obtain ⟨⟨op, c₁⟩, -, h⟩ := exists_of_bind_ok h
  obtain ⟨⟨value, c₂⟩, -, hr⟩ := exists_of_bind_ok h
  cases hr
  exact ⟨_, c, hpath⟩

/-- The paths of parsed conditions are well formed, and the first of them was parsed at the
    start of the text. -/
theorem wellFormed_of_parseConditions {passes : Nat} {cursor cursor' : Cursor}
    {conditions : List FieldCondition}
    (h : parseConditions passes cursor = .ok (conditions, cursor')) :
    (∀ cond ∈ conditions, WellFormedPath cond.path) ∧
      ∃ cond others passes' c, conditions = cond :: others ∧
        parsePathSegments passes' cursor.skipWhitespace.skipWhitespace = .ok (cond.path, c) := by
  induction passes generalizing cursor conditions with
  | zero => cases h
  | succ passes ih =>
    rw [parseConditions] at h
    obtain ⟨⟨cond, c⟩, hcond, h⟩ := exists_of_bind_ok h
    obtain ⟨passes', c', hpath⟩ := wellFormedPath_of_parseSingle hcond
    have hwf := wellFormedPath_of_parse hpath
    dsimp only at h
    split at h
    · obtain ⟨⟨others, c''⟩, hothers, hr⟩ := exists_of_bind_ok h
      cases hr
      exact ⟨List.forall_mem_cons.mpr ⟨hwf, (ih hothers).1⟩, cond, others, passes', c', rfl, hpath⟩
    · cases h
      exact ⟨by simpa using hwf, cond, [], passes', c', rfl, hpath⟩

/-- A path begins with a character of its own. -/
theorem stops_of_parsePathSegments {passes : Nat} {cursor cursor' : Cursor}
    {path : List PathSegment} (h : parsePathSegments passes cursor = .ok (path, cursor')) :
    Stops Str.isWhitespace (cursor.remaining.dropWhile isAsciiWhitespace) := by
  cases passes with
  | zero => cases h
  | succ passes =>
    rw [parsePathSegments] at h
    obtain ⟨⟨name, c⟩, hname, -⟩ := exists_of_bind_ok h
    obtain ⟨hisName, htext⟩ := of_parseSegmentName_ok hname
    rw [htext]
    cases hisName with
    | wildcard => simp [PathSegment.display, Str.isWhitespace]
    | field hne hchars =>
      exact stops_of_identifier hne fun c hc => isWhitespace_of_identifier (hchars c hc)

/-- The argument parser returns well-formed arguments when the closing parenthesis and
    nothing but white space follow. -/
theorem wellFormed_of_parseArgPart {cursor c c' : Cursor} {args : ArgMatcher}
    (h : parseArgPart cursor = .ok (args, c)) (hclose : c.expect ')' = .ok c')
    (htail : ∀ x ∈ c'.remaining, Str.isWhitespace x = true) : args.WellFormed := by
  unfold parseArgPart at h
  dsimp only at h
  split at h
  · cases h
    exact .any
  · split at h
    · rename_i hlooks
      obtain ⟨⟨conditions, c₁⟩, hconds, hr⟩ := exists_of_bind_ok h
      cases hr
      obtain ⟨hpaths, cond, others, passes, c₂, rfl, hpath⟩ :=
        wellFormed_of_parseConditions hconds
      -- the text of the test is the text the path was read from
      have hskip : ∀ text : List Char, (text.dropWhile isAsciiWhitespace).dropWhile
          isAsciiWhitespace = text.dropWhile isAsciiWhitespace :=
        fun text => (stops_dropWhile _ text).dropWhile_eq
      have hstart := stops_of_parsePathSegments hpath
      simp only [Cursor.remaining_skipWhitespace, hskip] at hstart hlooks
      rw [looksLikeFieldConditions_eq] at hlooks
      have hahead := conditionAhead_of_trimBy hstart hlooks
      apply ArgMatcher.WellFormed.fields hpaths
      apply dashFree_of_parse hpath
      simpa only [Cursor.remaining_skipWhitespace, hskip] using hahead
    · rename_i hlooks
      obtain ⟨⟨raw, rest⟩, hscan, h⟩ := exists_of_bind_ok h
      dsimp only at h
      split at h
      · cases h
      · rename_i hne
        cases h
        have hrest : rest = ')' :: c'.remaining := by
          have htext := Cursor.of_expect_ok hclose
          cases (scanPrimary_rest hscan).2 with
          | inl hnil =>
            rw [hnil] at htext
            cases htext
          | inr hparen =>
            obtain ⟨r, hr⟩ := hparen
            have hno : isAsciiWhitespace ')' = false := by decide
            rw [hr]
            simpa [hr, hno] using htext
        rw [hrest] at hscan
        have htrim : (Str.trim (String.ofList raw)).toList = trimBy Str.isWhitespace raw := by
          simp [Str.trim, trimBy]
        have hne' : trimBy Str.isWhitespace raw ≠ [] := by
          intro hnil
          apply hne
          rw [String.isEmpty_iff, ← String.toList_inj, htrim, hnil]
          rfl
        have hskip : (cursor.remaining.dropWhile isAsciiWhitespace).dropWhile
            isAsciiWhitespace = cursor.remaining.dropWhile isAsciiWhitespace :=
          (stops_dropWhile _ _).dropWhile_eq
        simp only [Cursor.remaining_skipWhitespace, hskip] at hscan hlooks
        have hprimary := primaryText_of_scan hscan htail hne' (by simpa using hlooks)
        apply ArgMatcher.WellFormed.primary
        rw [htrim]
        exact hprimary

/-- What the parser accepts is well formed. -/
theorem wellFormed_of_parsePattern {s : String} {p : ToolCallPattern engine}
    (h : parsePattern engine s = .ok p) : p.tool.WellFormed ∧ p.args.WellFormed := by
  obtain ⟨⟨tool, c⟩, htool, h⟩ := exists_of_bind_ok h
  obtain ⟨⟨args, c'⟩, hargs, h⟩ := exists_of_bind_ok h
  dsimp only at h
  split at h
  · rename_i hend
    cases h
    constructor
    · apply wellFormed_of_parseToolPart _ htool
      have hstops := stops_trimBy Str.isWhitespace s.toList
      simpa [Cursor.new, Str.trim, trimBy] using hstops
    · unfold parseArgs at hargs
      split at hargs
      · obtain ⟨⟨args', c₁⟩, harg, hargs⟩ := exists_of_bind_ok hargs
        obtain ⟨c₂, hclose, hr⟩ := exists_of_bind_ok hargs
        cases hr
        apply wellFormed_of_parseArgPart harg hclose
        intro x hx
        have hall : c'.remaining.dropWhile isAsciiWhitespace = [] := by simpa using hend
        exact isWhitespace_of_ascii (List.dropWhile_eq_nil_iff.mp hall x hx)
      · cases hargs
        exact .any
  · cases h

/-! ## Reading a printed pattern -/

theorem toList_trim (s : String) : (Str.trim s).toList = trimBy Str.isWhitespace s.toList := by
  simp [Str.trim, trimBy]

theorem display_start {tool : ToolMatcher engine} (h : tool.WellFormed) :
    tool.display.toList ≠ [] ∧ Stops Str.isWhitespace tool.display.toList := by
  cases h with
  | exact hname => exact ⟨hname.nonempty, hname.stops⟩
  | glob hname => exact ⟨hname.nonempty, hname.stops⟩
  | regex => simp [ToolMatcher.display, Str.isWhitespace]

/-- A pattern with arguments is printed with these in parentheses. -/
theorem display_args {p : ToolCallPattern engine} (h : p.args ≠ .any) :
    p.display.toList = p.tool.display.toList ++ '(' :: (p.args.display.toList ++ [')']) := by
  unfold ToolCallPattern.display
  split
  · rename_i hany
    exact absurd hany h
  · simp

theorem display_any {p : ToolCallPattern engine} (h : p.args = .any) :
    p.display = p.tool.display := by
  unfold ToolCallPattern.display
  rw [h]
  simp

/-- A pattern with arguments is read up to these. -/
theorem parsePattern_display_args {p : ToolCallPattern engine} (htool : p.tool.WellFormed)
    (hargs : p.args ≠ .any) :
    ∃ pos, parsePattern engine p.display =
      parseArgs ⟨pos, '(' :: (p.args.display.toList ++ [')'])⟩ >>= fun r =>
        if r.2.skipWhitespace.remaining.isEmpty then .ok ⟨p.tool, r.1⟩
        else .error (r.2.skipWhitespace.error
          s!"unexpected trailing: '{String.ofList r.2.skipWhitespace.remaining}'") := by
  obtain ⟨hne, hstops⟩ := display_start htool
  have hends : EndsOff Str.isWhitespace p.display.toList := by
    rw [display_args hargs, ← List.cons_append, ← List.append_assoc]
    exact endsOff_concat.mpr (by decide)
  have htrim : (Str.trim p.display).toList =
      p.tool.display.toList ++ '(' :: (p.args.display.toList ++ [')']) := by
    have hstart : Stops Str.isWhitespace p.display.toList := by
      rw [display_args hargs]
      exact hstops.append hne
    rw [toList_trim, trimBy_eq_self hstart hends, display_args hargs]
  obtain ⟨pos, hparse⟩ := parseToolPart_display htool 0
    (.inr ⟨p.args.display.toList ++ [')'], rfl⟩)
  rw [← htrim] at hparse
  refine ⟨pos, ?_⟩
  rw [parsePattern, Cursor.new, hparse]
  simp only [bind, Except.bind]
  rw [Cursor.skipWhitespace_of_stops (by simp [isAsciiWhitespace])]

/-- Arguments that are read back up to the closing parenthesis complete the pattern. -/
theorem parsePattern_of_args {p : ToolCallPattern engine} (htool : p.tool.WellFormed)
    (hargs : p.args ≠ .any)
    (h : ∀ pos, Yields (parseArgPart ⟨pos, p.args.display.toList ++ [')']⟩) p.args [')']) :
    parsePattern engine p.display = .ok p := by
  obtain ⟨pos, hparse⟩ := parsePattern_display_args htool hargs
  obtain ⟨pos₁, hpart⟩ := h (pos + utf8Len ['('])
  have hclose : (Cursor.mk pos₁ [')']).remaining.dropWhile isAsciiWhitespace = [')'] := by
    show List.dropWhile isAsciiWhitespace [')'] = [')']
    decide
  obtain ⟨pos₂, hexpect⟩ := Cursor.expect_ok hclose
  have hargs' : parseArgs ⟨pos, '(' :: (p.args.display.toList ++ [')'])⟩ =
      .ok (p.args, ⟨pos₂, []⟩) := by
    rw [parseArgs, Cursor.peek_cons, if_pos rfl]
    show parseArgPart ⟨pos + utf8Len ['('], p.args.display.toList ++ [')']⟩ >>= _ = _
    rw [hpart]
    simp [bind, Except.bind, hexpect]
  rw [hparse, hargs']
  rfl

/-- A pattern that is read back has its arguments read back. -/
theorem args_of_parsePattern {p : ToolCallPattern engine} (htool : p.tool.WellFormed)
    (hargs : p.args ≠ .any) (h : parsePattern engine p.display = .ok p) :
    ∃ pos cursor, parseArgPart ⟨pos, p.args.display.toList ++ [')']⟩ = .ok (p.args, cursor) := by
  obtain ⟨pos, hparse⟩ := parsePattern_display_args htool hargs
  rw [hparse] at h
  obtain ⟨⟨args, c⟩, hargs', h⟩ := exists_of_bind_ok h
  dsimp only at h
  split at h
  · have hp : args = p.args := by rw [← Except.ok.inj h]
    rw [parseArgs, Cursor.peek_cons, if_pos rfl] at hargs'
    obtain ⟨⟨args', c₁⟩, hpart, hargs'⟩ := exists_of_bind_ok hargs'
    obtain ⟨c₂, -, hr⟩ := exists_of_bind_ok hargs'
    cases hr
    rw [hp] at hpart
    exact ⟨_, c₁, hpart⟩
  · cases h

/-- A pattern without arguments that ends plain is read back. -/
theorem parsePattern_display_any {p : ToolCallPattern engine} (htool : p.tool.WellFormed)
    (hargs : p.args = .any) (hplain : p.tool.EndsPlain) :
    parsePattern engine p.display = .ok p := by
  obtain ⟨hne, hstops⟩ := display_start htool
  have hends : EndsOff Str.isWhitespace p.tool.display.toList := by
    cases htool' : p.tool with
    | exact name =>
      rw [htool'] at hplain
      exact hplain
    | glob pattern =>
      rw [htool'] at hplain
      exact hplain
    | regex re =>
      have htext : (ToolMatcher.regex re).display.toList = ('/' :: re.source.toList) ++ ['/'] := by
        simp [ToolMatcher.display]
      rw [htext]
      exact endsOff_concat.mpr (by decide)
  have htrim : (Str.trim p.display).toList = p.tool.display.toList ++ [] := by
    rw [toList_trim, display_any hargs, trimBy_eq_self hstops hends, List.append_nil]
  obtain ⟨pos, hparse⟩ := parseToolPart_display htool 0 (.inl rfl)
  rw [← htrim] at hparse
  rw [parsePattern, Cursor.new, hparse]
  show Except.ok _ = Except.ok _
  rw [← hargs]

/-- A name that was read is no longer than the text. -/
theorem length_of_parseToolPart {cursor cursor' : Cursor} {tool : ToolMatcher engine}
    {name : String} (h : parseToolPart engine cursor = .ok (tool, cursor'))
    (htool : tool = .exact name ∨ tool = .glob name) :
    name.toList.length ≤ cursor.remaining.length := by
  unfold parseToolPart at h
  dsimp only at h
  split at h
  · obtain ⟨⟨body, rest⟩, -, h⟩ := exists_of_bind_ok h
    dsimp only at h
    split at h
    · cases h
    · obtain ⟨c, -, h⟩ := exists_of_bind_ok h
      split at h
      · cases h
      · cases h
        simp at htool
  · have hlength : (cursor.skipWhitespace.takeWhile
        fun c => !(c == '(' || isAsciiWhitespace c)).1.length ≤ cursor.remaining.length :=
      (List.takeWhile_sublist _).length_le.trans (List.dropWhile_sublist _).length_le
    split at h
    · cases h
    · split at h
      · cases h
        obtain rfl : String.ofList _ = name := by simpa using htool
        simpa using hlength
      · cases h
        obtain rfl : String.ofList _ = name := by simpa using htool
        simpa using hlength

/-- A pattern without arguments that is read back ends plain. -/
theorem endsPlain_of_parsePattern {p : ToolCallPattern engine} (hargs : p.args = .any)
    (h : parsePattern engine p.display = .ok p) : p.tool.EndsPlain := by
  obtain ⟨⟨tool, c⟩, htool, h⟩ := exists_of_bind_ok h
  obtain ⟨⟨args, c'⟩, -, h⟩ := exists_of_bind_ok h
  dsimp only at h
  split at h
  · have htool' : tool = p.tool := by rw [← Except.ok.inj h]
    have hname : ∀ name : String, p.tool = .exact name ∨ p.tool = .glob name →
        EndsOff Str.isWhitespace name.toList := by
      intro name hname
      have hdisplay : p.display = name := by
        rw [display_any hargs]
        rcases hname with hname | hname <;> rw [hname] <;> rfl
      have hlength := length_of_parseToolPart htool (htool' ▸ hname)
      have hlength : name.toList.length ≤ (trimBy Str.isWhitespace name.toList).length := by
        rw [Cursor.new, toList_trim, hdisplay] at hlength
        exact hlength
      -- nothing was trimmed away
      obtain ⟨before, after, htext, -, -, -⟩ := exists_trimBy Str.isWhitespace name.toList
      have hsplit := congrArg List.length htext
      simp only [List.length_append] at hsplit
      have hbefore : before = [] := List.eq_nil_of_length_eq_zero (by omega)
      have hafter : after = [] := List.eq_nil_of_length_eq_zero (by omega)
      rw [hbefore, hafter, List.append_nil, List.nil_append] at htext
      rw [htext]
      exact endsOff_trimBy _ _
    cases htool : p.tool with
    | exact name => exact hname name (.inl htool)
    | glob pattern => exact hname pattern (.inr htool)
    | regex re => trivial
  · cases h

/-! ## The round trip -/

/-- A well-formed plain pattern is read back from its printed text. -/
theorem parsePattern_display {p : ToolCallPattern engine} (htool : p.tool.WellFormed)
    (hargs : p.args.WellFormed) (hplain : p.Plain) : parsePattern engine p.display = .ok p := by
  cases hp : p.args with
  | any =>
    rw [ToolCallPattern.Plain, hp] at hplain
    exact parsePattern_display_any htool hp hplain
  | primary op value =>
    rw [ToolCallPattern.Plain, hp] at hplain
    rw [hp] at hargs
    cases hargs with
    | primary hvalue =>
      apply parsePattern_of_args htool (by simp [hp])
      intro pos
      have hparse := parseArgPart_primary hvalue hplain pos
      rw [String.ofList_toList] at hparse
      rw [hp]
      exact hparse
  | fields conditions =>
    rw [ToolCallPattern.Plain, hp] at hplain
    rw [hp] at hargs
    cases hargs with
    | fields hpaths hdash =>
      apply parsePattern_of_args htool (by simp [hp])
      intro pos
      rw [hp]
      exact parseArgPart_fields hpaths hdash (hplain.1 _ rfl) hplain.2 pos

/-- A well-formed pattern that is read back is plain. -/
theorem plain_of_parsePattern {p : ToolCallPattern engine} (htool : p.tool.WellFormed)
    (hargs : p.args.WellFormed) (h : parsePattern engine p.display = .ok p) : p.Plain := by
  rw [ToolCallPattern.Plain]
  cases hp : p.args with
  | any => exact endsPlain_of_parsePattern hp h
  | primary op value =>
    obtain ⟨pos, cursor, hpart⟩ := args_of_parsePattern htool (by simp [hp]) h
    rw [hp] at hargs hpart
    cases hargs with
    | primary hvalue =>
      intro hstar
      have hstops := hvalue.stops.ascii.append (r := [')']) hvalue.nonempty
      obtain ⟨c, hany⟩ := parseArgPart_star hstops ((starsAny_close hvalue).mpr hstar) pos
      rw [ArgMatcher.display, hany] at hpart
      cases hpart
  | fields conditions =>
    obtain ⟨pos, cursor, hpart⟩ := args_of_parsePattern htool (by simp [hp]) h
    rw [hp] at hargs hpart
    cases hargs with
    | fields hpaths hdash =>
      obtain ⟨hstar, hvalues⟩ := of_parseArgPart_fields hpaths hdash hpart
      refine ⟨?_, hvalues⟩
      intro cond hhead
      cases hhead
      exact hstar

/-- A parsed pattern survives being stored exactly when nothing in its printed text would
    need a guard. -/
theorem parsePattern_display_iff {s : String} {p : ToolCallPattern engine}
    (h : parsePattern engine s = .ok p) : parsePattern engine p.display = .ok p ↔ p.Plain := by
  obtain ⟨htool, hargs⟩ := wellFormed_of_parsePattern h
  exact ⟨plain_of_parsePattern htool hargs, parsePattern_display htool hargs⟩

/-- A condition on a file path. -/
def editSources : ToolCallPattern .literal :=
  ⟨.exact "Edit", .fields [⟨[.field "file_path"], .glob, "src/**"⟩]⟩

/-- A condition whose value has a quote. -/
def quotedQuote : ToolCallPattern .literal :=
  ⟨.exact "T", .fields [⟨[.field "a"], .glob, "x\"y"⟩]⟩

theorem parsePattern_display_iff_edit :
    parsePattern .literal editSources.display = .ok editSources := by
  have hparse : parsePattern .literal "Edit(file_path ~ \"src/**\")" = .ok editSources := by
    decide +kernel
  apply (parsePattern_display_iff hparse).mpr
  have hvalue : QuotePlain "src/**".toList := ⟨by decide, by decide, by decide⟩
  constructor
  · intro cond hhead
    cases hhead
    simp
  · intro cond hmem
    obtain rfl : cond = _ := List.mem_singleton.mp hmem
    exact hvalue

/-- The escaped quote of a value is printed without its backslash, and the stored text is
    rejected. -/
theorem quotedQuote_lost :
    parsePattern .literal "T(a ~ \"x\\\"y\")" = .ok quotedQuote ∧
      parsePattern .literal quotedQuote.display =
        .error (.error ⟨"expected ')', found 'y'", 9⟩) := by
  decide +kernel

end Remo
