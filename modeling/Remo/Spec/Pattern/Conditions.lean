import Remo.Spec.Pattern.FieldPath

/-!
# Arguments of a pattern

The two ways to write arguments: field conditions, printed with their values in quotes,
and a primary value, printed as it is.

Key results:
* `conditionAhead_unpad`  white space behind a value does not turn it into a condition
* `parseArgPart_primary`  a printed primary value is read back unless it begins with a lone
  star
* `parseArgPart_fields`, `of_parseArgPart_fields` printed conditions are read back exactly
  when the first path is not a wildcard alone and no value needs an escape
-/

namespace Remo

/-! ## Field conditions -/

/-- The printed conditions. -/
def conditionsText (conditions : List FieldCondition) : List Char :=
  (displayConditionsFrom 0 conditions).toList

theorem display_condition (cond : FieldCondition) :
    cond.display.toList = pathText cond.path ++ ' ' ::
      (cond.op.display.toList ++ ' ' :: '"' :: (cond.value.toList ++ ['"'])) := by
  simp [FieldCondition.display, pathText]

/-- Past the first position it does not matter which one a condition has. -/
theorem displayConditionsFrom_succ (i : Nat) (conditions : List FieldCondition) :
    displayConditionsFrom (i + 1) conditions = displayConditionsFrom 1 conditions := by
  induction conditions generalizing i with
  | nil => rfl
  | cons cond conditions ih =>
    rw [displayConditionsFrom, displayConditionsFrom, ih (i + 1), ih 1]
    simp

theorem conditionsText_single (cond : FieldCondition) :
    conditionsText [cond] = cond.display.toList := by
  simp [conditionsText, displayConditionsFrom]

theorem conditionsText_cons (cond next : FieldCondition) (conditions : List FieldCondition) :
    conditionsText (cond :: next :: conditions) =
      cond.display.toList ++ ',' :: ' ' :: conditionsText (next :: conditions) := by
  have hnext : (displayConditionsFrom 1 (next :: conditions)).toList =
      ',' :: ' ' :: conditionsText (next :: conditions) := by
    rw [conditionsText, displayConditionsFrom, displayConditionsFrom, displayConditionsFrom_succ 1]
    simp
  rw [conditionsText, displayConditionsFrom, String.toList_append, hnext]
  simp

/-! ## One condition -/

theorem stops_pathText {path : List PathSegment} (hpath : WellFormedPath path)
    {p : Char → Bool} (hstar : p '*' = false)
    (hp : ∀ c, isIdentifierChar c = true → p c = false) (rest : List Char) :
    Stops p (pathText path ++ rest) := by
  have hname : ∀ {name rest}, IsName name → Stops p (name.display.toList ++ rest) := by
    intro name rest hname
    cases hname with
    | wildcard => simpa [PathSegment.display] using hstar
    | field hne hchars => exact stops_of_identifier hne fun c hc => hp c (hchars c hc)
  cases hpath with
  | last hn hindices =>
    rw [pathText_last hn hindices, List.append_assoc]
    exact hname hn
  | dot hn hindices hrest =>
    rw [pathText_dot hn hindices hrest, List.append_assoc]
    exact hname hn

theorem stops_condition {cond : FieldCondition} (hpath : WellFormedPath cond.path)
    (rest : List Char) : Stops isAsciiWhitespace (cond.display.toList ++ rest) := by
  rw [display_condition, List.append_assoc]
  exact stops_pathText hpath (by decide) (fun _ => isAsciiWhitespace_of_identifier) _

theorem skipWhitespace_space (pos : Nat) {text : List Char} (h : Stops isAsciiWhitespace text) :
    (Cursor.mk pos (' ' :: text)).skipWhitespace = ⟨pos + 1, text⟩ := by
  have hspace : isAsciiWhitespace ' ' = true := by decide
  simp [Cursor.skipWhitespace, Cursor.takeWhile, hspace, h.takeWhile_eq, h.dropWhile_eq,
    utf8Len]
  decide

/-- A printed condition is read up to its value, which is then read in quotes. -/
theorem parseSingleFieldCondition_display {cond : FieldCondition}
    (hpath : WellFormedPath cond.path) (pos : Nat) (rest : List Char) :
    ∃ pos', parseSingleFieldCondition ⟨pos, cond.display.toList ++ rest⟩ =
      (scanQuoted pos' (cond.value.toList ++ '"' :: rest)).map fun r =>
        (⟨cond.path, cond.op, String.ofList r.1⟩, r.2) := by
  have htext : cond.display.toList ++ rest = pathText cond.path ++ ' ' ::
      (cond.op.display.toList ++ ' ' :: '"' :: (cond.value.toList ++ '"' :: rest)) := by
    simp [display_condition]
  have hop : ∀ text, Stops isAsciiWhitespace (cond.op.display.toList ++ text) := by
    intro text
    cases cond.op <;> simp [MatchOp.display, isAsciiWhitespace]
  have hquote : ∀ text, Stops isAsciiWhitespace ('"' :: text) := by
    intro text
    simp [isAsciiWhitespace]
  have hstart := stops_condition hpath rest
  rw [htext] at hstart ⊢
  obtain ⟨pos₁, hpath'⟩ := parseFieldPath_display hpath pos
    (cond.op.display.toList ++ ' ' :: '"' :: (cond.value.toList ++ '"' :: rest))
  obtain ⟨pos₂, hop'⟩ := parseMatchOp_display cond.op (pos₁ + 1)
    ('"' :: (cond.value.toList ++ '"' :: rest))
  refine ⟨pos₂ + 1 + utf8Len ['"'], ?_⟩
  rw [parseSingleFieldCondition, Cursor.skipWhitespace_of_stops hstart, hpath']
  simp only [bind, Except.bind]
  rw [skipWhitespace_space pos₁ (hop _), hop']
  simp only [skipWhitespace_space pos₂ (hquote _), parseQuotedValue,
    Cursor.skipWhitespace_of_stops (hquote _), Cursor.peek_cons, ne_eq, not_true_eq_false,
    if_false]
  show (scanQuoted (pos₂ + 1 + utf8Len ['"']) (cond.value.toList ++ '"' :: rest) >>= _) >>= _ = _
  cases scanQuoted (pos₂ + 1 + utf8Len ['"']) (cond.value.toList ++ '"' :: rest) <;> rfl

theorem parseSingleFieldCondition_plain {cond : FieldCondition}
    (hpath : WellFormedPath cond.path) (hplain : QuotePlain cond.value.toList) (pos : Nat)
    (rest : List Char) :
    Yields (parseSingleFieldCondition ⟨pos, cond.display.toList ++ rest⟩) cond rest := by
  obtain ⟨pos', hparse⟩ := parseSingleFieldCondition_display hpath pos rest
  obtain ⟨pos'', hscan⟩ := scanQuoted_plain hplain pos' rest
  exact ⟨pos'', by rw [hparse, hscan, Except.map, String.ofList_toList]⟩

/-- A condition that is read back has a value that stands for itself, and is read up to
    its end. -/
theorem of_parseSingleFieldCondition {cond : FieldCondition} {cursor : Cursor}
    (hpath : WellFormedPath cond.path) {pos : Nat} {rest : List Char}
    (h : parseSingleFieldCondition ⟨pos, cond.display.toList ++ rest⟩ = .ok (cond, cursor)) :
    QuotePlain cond.value.toList ∧ cursor.remaining = rest := by
  obtain ⟨pos', hparse⟩ := parseSingleFieldCondition_display hpath pos rest
  rw [hparse] at h
  obtain ⟨⟨value, c⟩, hscan, hr⟩ := exists_of_map_ok h
  obtain ⟨hcond, rfl⟩ := Prod.mk.inj hr
  have hvalue : value = cond.value.toList := by
    rw [← hcond]
    simp
  rw [hvalue] at hscan
  have hplain := quotePlain_of_scanQuoted hscan
  obtain ⟨pos'', hscan'⟩ := scanQuoted_plain hplain pos' rest
  rw [hscan] at hscan'
  cases hscan'
  exact ⟨hplain, rfl⟩

/-! ## A list of conditions -/

section Conditions

variable {cond : FieldCondition} {conditions : List FieldCondition}

theorem length_conditionsText (cond : FieldCondition) (conditions : List FieldCondition) :
    (cond :: conditions).length ≤ (conditionsText (cond :: conditions)).length := by
  induction conditions generalizing cond with
  | nil =>
    rw [conditionsText_single, display_condition]
    simp only [List.length_cons, List.length_append, List.length_nil]
    omega
  | cons next conditions ih =>
    have := ih next
    rw [conditionsText_cons]
    simp only [List.length_cons, List.length_append] at this ⊢
    omega

theorem stops_conditionsText (hpath : WellFormedPath cond.path) (rest : List Char) :
    Stops isAsciiWhitespace (conditionsText (cond :: conditions) ++ rest) := by
  cases conditions with
  | nil =>
    rw [conditionsText_single]
    exact stops_condition hpath rest
  | cons next conditions =>
    rw [conditionsText_cons, List.append_assoc]
    exact stops_condition hpath _

/-- The text is that of the conditions, behind any white space and before the closing
    parenthesis. -/
def IsConditionsText (text : List Char) (conditions : List FieldCondition) : Prop :=
  text.dropWhile isAsciiWhitespace = conditionsText conditions ++ [')']

theorem isConditionsText_space (hpath : WellFormedPath cond.path) :
    IsConditionsText (' ' :: (conditionsText (cond :: conditions) ++ [')']))
      (cond :: conditions) := by
  rw [IsConditionsText, List.dropWhile_cons_of_pos (by decide)]
  exact (stops_conditionsText hpath [')']).dropWhile_eq

/-- Conditions whose values stand for themselves are read back. -/
theorem parseConditions_plain (hpaths : ∀ c ∈ cond :: conditions, WellFormedPath c.path)
    (hplain : ∀ c ∈ cond :: conditions, QuotePlain c.value.toList) {passes : Nat}
    (hpasses : (cond :: conditions).length ≤ passes) {cursor : Cursor}
    (htext : IsConditionsText cursor.remaining (cond :: conditions)) :
    Yields (parseConditions passes cursor) (cond :: conditions) [')'] := by
  induction conditions generalizing cond passes cursor with
  | nil =>
    cases passes with
    | zero => simp at hpasses
    | succ passes =>
      have hpath := hpaths cond List.mem_cons_self
      have hvalue := hplain cond List.mem_cons_self
      have hcursor : cursor.skipWhitespace =
          ⟨cursor.skipWhitespace.pos, cond.display.toList ++ [')']⟩ := by
        rw [← conditionsText_single, ← htext]
        rfl
      rw [parseConditions, hcursor]
      apply (parseSingleFieldCondition_plain hpath hvalue _ [')']).bind
      intro pos
      exact ⟨pos, rfl⟩
  | cons next conditions ih =>
    cases passes with
    | zero => simp at hpasses
    | succ passes =>
      obtain ⟨hpath, hpaths'⟩ := List.forall_mem_cons.mp hpaths
      obtain ⟨hvalue, hplain'⟩ := List.forall_mem_cons.mp hplain
      have hcursor : cursor.skipWhitespace = ⟨cursor.skipWhitespace.pos, cond.display.toList ++
          ',' :: ' ' :: (conditionsText (next :: conditions) ++ [')'])⟩ := by
        have hskip : cursor.skipWhitespace = ⟨cursor.skipWhitespace.pos,
            conditionsText (cond :: next :: conditions) ++ [')']⟩ := by
          rw [← htext]
          rfl
        rw [hskip, conditionsText_cons]
        simp
      rw [parseConditions, hcursor]
      apply (parseSingleFieldCondition_plain hpath hvalue _ _).bind
      intro pos
      apply (ih hpaths' hplain' (Nat.le_of_succ_le_succ hpasses)
        (isConditionsText_space (hpaths' next List.mem_cons_self))).bind
      intro pos'
      exact ⟨pos', rfl⟩

/-- The first of the returned conditions was parsed first, and the others behind it. -/
theorem of_parseConditions {passes : Nat} {cursor cursor' : Cursor}
    (h : parseConditions passes cursor = .ok (cond :: conditions, cursor')) :
    ∃ c passes', parseSingleFieldCondition cursor.skipWhitespace = .ok (cond, c) ∧
      (conditions ≠ [] →
        parseConditions passes' (c.skipWhitespace.advance 1) = .ok (conditions, cursor')) := by
  cases passes with
  | zero => cases h
  | succ passes =>
    rw [parseConditions] at h
    obtain ⟨⟨first, c⟩, hfirst, h⟩ := exists_of_bind_ok h
    refine ⟨c, passes, ?_⟩
    dsimp only at h
    split at h
    · obtain ⟨⟨others, c'⟩, hothers, hr⟩ := exists_of_bind_ok h
      cases hr
      exact ⟨hfirst, fun _ => hothers⟩
    · cases h
      exact ⟨hfirst, fun hne => absurd rfl hne⟩

/-- Conditions that are read back have values that stand for themselves. -/
theorem quotePlain_of_parseConditions
    (hpaths : ∀ c ∈ cond :: conditions, WellFormedPath c.path) {passes : Nat}
    {cursor cursor' : Cursor} (htext : IsConditionsText cursor.remaining (cond :: conditions))
    (h : parseConditions passes cursor = .ok (cond :: conditions, cursor')) :
    ∀ c ∈ cond :: conditions, QuotePlain c.value.toList := by
  have hskip : cursor.skipWhitespace = ⟨cursor.skipWhitespace.pos,
      conditionsText (cond :: conditions) ++ [')']⟩ := by
    rw [← htext]
    rfl
  obtain ⟨c, passes', hfirst, hothers⟩ := of_parseConditions h
  rw [hskip] at hfirst
  induction conditions generalizing cond passes cursor c passes' with
  | nil =>
    rw [conditionsText_single] at hfirst
    have hvalue := (of_parseSingleFieldCondition (hpaths cond List.mem_cons_self) hfirst).1
    simpa using hvalue
  | cons next conditions ih =>
    obtain ⟨hpath, hpaths'⟩ := List.forall_mem_cons.mp hpaths
    rw [conditionsText_cons, List.append_assoc] at hfirst
    obtain ⟨hvalue, hrest⟩ := of_parseSingleFieldCondition hpath hfirst
    have hparse := hothers (by simp)
    have hremaining : (c.skipWhitespace.advance 1).remaining =
        ' ' :: (conditionsText (next :: conditions) ++ [')']) := by
      simp [hrest, isAsciiWhitespace]
    have htext' : IsConditionsText (' ' :: (conditionsText (next :: conditions) ++ [')']))
        (next :: conditions) := isConditionsText_space (hpaths' next List.mem_cons_self)
    rw [← hremaining] at htext'
    have hskip' : (c.skipWhitespace.advance 1).skipWhitespace =
        ⟨(c.skipWhitespace.advance 1).skipWhitespace.pos,
          conditionsText (next :: conditions) ++ [')']⟩ := by
      rw [← htext']
      rfl
    obtain ⟨c', passes'', hfirst', hothers'⟩ := of_parseConditions hparse
    rw [hskip'] at hfirst'
    exact List.forall_mem_cons.mpr
      ⟨hvalue, ih hpaths' htext' hparse hskip' c' passes'' hfirst' hothers'⟩

end Conditions

/-! ## Primary values -/

/-- Whether two characters begin an operator. -/
theorem startsWithOp_cons_cons (c d : Char) (rest : List Char) :
    startsWithOp (c :: d :: rest) =
      (c == '~' || c == '=' || c == '!' && (d == '~' || d == '=')) := by
  by_cases hglob : c = '~'
  · subst hglob
    rfl
  by_cases hexact : c = '='
  · subst hexact
    rfl
  by_cases hnot : c = '!'
  · subst hnot
    by_cases hd : d = '~'
    · subst hd
      rfl
    by_cases hd' : d = '='
    · subst hd'
      rfl
    have hnone : startsWithOp ('!' :: d :: rest) = false := by
      unfold startsWithOp
      split <;> simp_all
    simp [hnone, hd, hd']
  · rw [startsWithOp_cons hglob hexact hnot]
    simp [hglob, hexact, hnot]

/-- White space is none of the characters that are not. -/
theorem isWhitespace_ne {c d : Char} (hc : Str.isWhitespace c = true)
    (hd : Str.isWhitespace d = false) : c ≠ d := by
  rintro rfl
  rw [hc] at hd
  cases hd

/-- White space belongs to no path. -/
theorem isPathChar_of_whitespace {c : Char} (h : Str.isWhitespace c = true) :
    isPathChar c = false := by
  by_contra hpath
  simp only [isPathChar, isAsciiAlphanumeric, Bool.not_eq_false] at hpath
  delta Char.isAlphanum at hpath
  delta Char.isAlpha Char.isDigit at hpath
  delta Char.isUpper Char.isLower at hpath
  simp only [Bool.or_eq_true, Bool.and_eq_true, decide_eq_true_eq, beq_iff_eq, ge_iff_le,
    UInt32.le_iff_toNat_le] at hpath
  simp only [Str.isWhitespace, Bool.or_eq_true, Bool.and_eq_true, decide_eq_true_eq,
    beq_iff_eq] at h
  have hval : c.toNat = c.val.toNat := rfl
  rcases hpath with ((hpath | hpath) | rfl) | rfl
  · simp at hpath
    omega
  · simp at hpath
    omega
  · revert h
    decide
  · revert h
    decide

section Pad

variable {value pad : List Char}

/-- No operator follows white space before the closing parenthesis. -/
theorem startsWithOp_pad (hpad : ∀ c ∈ pad, Str.isWhitespace c = true) :
    startsWithOp ((pad ++ [')']).dropWhile isAsciiWhitespace) = false := by
  induction pad with
  | nil => decide
  | cons c pad ih =>
    obtain ⟨hc, hpad'⟩ := List.forall_mem_cons.mp hpad
    rw [List.cons_append, List.dropWhile_cons]
    split
    · exact ih hpad'
    · exact startsWithOp_cons (isWhitespace_ne hc (by decide)) (isWhitespace_ne hc (by decide))
        (isWhitespace_ne hc (by decide)) _

/-- Where the test stopped, white space at the end does not bring about an operator. -/
theorem startsWithOp_unpad (hpad : ∀ c ∈ pad, Str.isWhitespace c = true) :
    startsWithOp ((value ++ (pad ++ [')'])).dropWhile isAsciiWhitespace) =
      startsWithOp ((value ++ [')']).dropWhile isAsciiWhitespace) := by
  induction value with
  | nil =>
    rw [List.nil_append, startsWithOp_pad hpad]
    decide
  | cons c value ih =>
    rw [List.cons_append, List.cons_append, List.dropWhile_cons, List.dropWhile_cons]
    split
    · exact ih
    · cases value with
      | cons d value => simp only [List.cons_append, startsWithOp_cons_cons]
      | nil =>
        cases pad with
        | nil => rfl
        | cons w pad =>
          have hw := hpad w List.mem_cons_self
          have hglob : w ≠ '~' := isWhitespace_ne hw (by decide)
          have hexact : w ≠ '=' := isWhitespace_ne hw (by decide)
          have hclose : startsWithOp (c :: [')']) = (c == '~' || c == '=' || c == '!' && false) :=
            startsWithOp_cons_cons c ')' []
          simp [startsWithOp_cons_cons, hglob, hexact, hclose]

/-- White space before the closing parenthesis stays where it is in the test. -/
theorem skipPathChars_pad (hpad : ∀ c ∈ pad, Str.isWhitespace c = true) :
    skipPathChars false (pad ++ [')']) = pad ++ [')'] := by
  cases pad with
  | nil => rfl
  | cons w pad =>
    have hw := hpad w List.mem_cons_self
    exact skipPathChars_stop (isPathChar_of_whitespace hw) (isWhitespace_ne hw (by decide))
      (isWhitespace_ne hw (by decide)) _

/-- White space behind a value, before the closing parenthesis, does not turn it into a
    condition. The flag says whether the test is in brackets. -/
theorem skipPathChars_unpad (hpad : ∀ c ∈ pad, Str.isWhitespace c = true) (inBrackets : Bool) :
    startsWithOp ((skipPathChars inBrackets (value ++ (pad ++ [')']))).dropWhile
        isAsciiWhitespace) =
      startsWithOp ((skipPathChars inBrackets (value ++ [')'])).dropWhile isAsciiWhitespace) := by
  induction value generalizing inBrackets with
  | nil =>
    cases inBrackets with
    | true =>
      have hno : ']' ∉ pad ++ [')'] := by
        intro hmem
        cases List.mem_append.mp hmem with
        | inl h => exact isWhitespace_ne (hpad _ h) (by decide) rfl
        | inr h => revert h; decide
      have hskip := skipPathChars_brackets hno []
      rw [List.append_nil] at hskip
      rw [List.nil_append, hskip]
      decide
    | false =>
      rw [List.nil_append, skipPathChars_pad hpad, startsWithOp_pad hpad]
      decide
  | cons c value ih =>
    rw [List.cons_append, List.cons_append]
    cases inBrackets with
    | true =>
      rw [skipPathChars.eq_def true, skipPathChars.eq_def true]
      exact ih _
    | false =>
      by_cases hpath : isPathChar c = true
      · have hchars : ∀ d ∈ [c], isPathChar d = true := by simpa using hpath
        have hskip := skipPathChars_append hchars
        simp only [List.singleton_append] at hskip
        rw [hskip, hskip]
        exact ih false
      by_cases hopen : c = '['
      · subst hopen
        rw [skipPathChars_open, skipPathChars_open]
        exact ih true
      by_cases hstar : c = '*'
      · subst hstar
        cases value with
        | cons d value =>
          by_cases hd : d = '.' ∨ d = '['
          · rw [List.cons_append, List.cons_append, skipPathChars_star hd, skipPathChars_star hd]
            exact ih false
          · have hstops : ∀ rest, Stops (fun c => c == '.' || c == '[') (d :: rest) := by
              intro rest
              simpa using hd
            rw [List.cons_append, List.cons_append, skipPathChars_star_stop (hstops _),
              skipPathChars_star_stop (hstops _)]
            rw [← List.cons_append, ← List.cons_append]
            exact startsWithOp_unpad hpad
        | nil =>
          have hstops : Stops (fun c => c == '.' || c == '[') (pad ++ [')']) := by
            cases pad with
            | nil => simp
            | cons w pad =>
              have hw := hpad w List.mem_cons_self
              have hdot : w ≠ '.' := isWhitespace_ne hw (by decide)
              have hbracket : w ≠ '[' := isWhitespace_ne hw (by decide)
              simp [hdot, hbracket]
          rw [List.nil_append, List.nil_append, skipPathChars_star_stop hstops,
            skipPathChars_star_stop (by simp), startsWithOp_pad hpad]
          decide
      · rw [skipPathChars_stop (by simpa using hpath) hopen hstar,
          skipPathChars_stop (by simpa using hpath) hopen hstar, ← List.cons_append,
          ← List.cons_append]
        exact startsWithOp_unpad hpad

theorem conditionAhead_unpad (hpad : ∀ c ∈ pad, Str.isWhitespace c = true) :
    conditionAhead (value ++ (pad ++ [')'])) = conditionAhead (value ++ [')']) :=
  skipPathChars_unpad hpad false

end Pad

section Ahead

variable {text rest : List Char}

theorem startsWithOp_append (h : startsWithOp text = true) (rest : List Char) :
    startsWithOp (text ++ rest) = true := by
  unfold startsWithOp at h
  split at h
  · rfl
  · rfl
  · rfl
  · rfl
  · cases h

/-- An operator that was found is found when more text follows. -/
theorem startsWithOp_dropWhile_append
    (h : startsWithOp (text.dropWhile isAsciiWhitespace) = true) (rest : List Char) :
    startsWithOp ((text ++ rest).dropWhile isAsciiWhitespace) = true := by
  induction text with
  | nil => cases h
  | cons c text ih =>
    by_cases hws : isAsciiWhitespace c = true
    · rw [List.dropWhile_cons_of_pos hws] at h
      rw [List.cons_append, List.dropWhile_cons_of_pos hws]
      exact ih h
    · rw [List.dropWhile_cons_of_neg hws] at h
      rw [List.cons_append, List.dropWhile_cons_of_neg hws]
      exact startsWithOp_append h rest

theorem skipPathChars_ahead {inBrackets : Bool}
    (h : startsWithOp ((skipPathChars inBrackets text).dropWhile isAsciiWhitespace) = true)
    (rest : List Char) :
    startsWithOp ((skipPathChars inBrackets (text ++ rest)).dropWhile isAsciiWhitespace) =
      true := by
  induction text generalizing inBrackets with
  | nil =>
    cases inBrackets <;> cases h
  | cons c text ih =>
    cases inBrackets with
    | true =>
      rw [skipPathChars.eq_def true] at h
      rw [List.cons_append, skipPathChars.eq_def true]
      exact ih h
    | false =>
      by_cases hpath : isPathChar c = true
      · have hchars : ∀ d ∈ [c], isPathChar d = true := by simpa using hpath
        have hskip := skipPathChars_append hchars
        simp only [List.singleton_append] at hskip
        rw [hskip] at h
        rw [List.cons_append, hskip]
        exact ih h
      by_cases hopen : c = '['
      · subst hopen
        rw [skipPathChars_open] at h
        rw [List.cons_append, skipPathChars_open]
        exact ih h
      by_cases hstar : c = '*'
      · subst hstar
        cases text with
        | nil => cases h
        | cons d text =>
          by_cases hd : d = '.' ∨ d = '['
          · rw [skipPathChars_star hd] at h
            rw [List.cons_append, List.cons_append, skipPathChars_star hd]
            exact ih h
          · have hstops : ∀ rest, Stops (fun c => c == '.' || c == '[') (d :: rest) := by
              intro rest
              simpa using hd
            rw [skipPathChars_star_stop (hstops _)] at h
            rw [List.cons_append, List.cons_append, skipPathChars_star_stop (hstops _)]
            exact startsWithOp_dropWhile_append h rest
      · rw [skipPathChars_stop (by simpa using hpath) hopen hstar] at h
        rw [List.cons_append, skipPathChars_stop (by simpa using hpath) hopen hstar]
        exact startsWithOp_dropWhile_append h rest

/-- What the test found in the trimmed text it finds in the text. -/
theorem conditionAhead_of_trimBy (hstart : Stops Str.isWhitespace text)
    (h : conditionAhead (trimBy Str.isWhitespace text) = true) : conditionAhead text = true := by
  obtain ⟨-, after, -, -, -, hdrop⟩ := exists_trimBy Str.isWhitespace text
  rw [hstart.dropWhile_eq] at hdrop
  rw [hdrop]
  exact skipPathChars_ahead h after

end Ahead

/-- A printed primary value: trimmed, closed by the parenthesis behind it, and not taken for
    a field condition. -/
structure PrimaryText (value : List Char) : Prop where
  nonempty : value ≠ []
  stops : Stops Str.isWhitespace value
  endsOff : EndsOff Str.isWhitespace value
  closes : scanPrimary 0 (value ++ [')']) = .ok (value, [')'])
  noCondition : conditionAhead (value ++ [')']) = false

/-- A leading star that the argument parser takes for any arguments: alone, or before ASCII
    white space or a character of more than one byte. -/
def LoneStar (value : List Char) : Prop :=
  ∃ rest, value = '*' :: rest ∧
    ∀ c rest', rest = c :: rest' → isAsciiWhitespace c = true ∨ c.utf8Size ≠ 1

theorem looksLikeFieldConditions_eq (text : List Char) :
    looksLikeFieldConditions text = conditionAhead (trimBy Str.isWhitespace text) := by
  simp [looksLikeFieldConditions, conditionAhead, Str.trim, trimBy]

/-- What the argument parser looks at begins and ends in characters of its own. -/
theorem trimBy_close {text : List Char} (hne : text ≠ []) (h : Stops Str.isWhitespace text) :
    trimBy Str.isWhitespace (text ++ [')']) = text ++ [')'] :=
  trimBy_eq_self (h.append hne) (endsOff_concat.mpr (by decide))

theorem starsAny_close {value : List Char} (h : PrimaryText value) :
    starsAny (value ++ [')']) = true ↔ LoneStar value := by
  cases value with
  | nil => exact absurd rfl h.nonempty
  | cons c value =>
    by_cases hstar : c = '*'
    · subst hstar
      cases value with
      | nil => simp [starsAny, LoneStar]
      | cons d value =>
        have hd : d ≠ ')' := by
          rintro rfl
          have hclose : scanPrimary 0 (')' :: (value ++ [')'])) =
              .ok ([], ')' :: (value ++ [')'])) := by
            rw [scanPrimary.eq_def]
            rfl
          have hcloses := h.closes
          rw [List.cons_append, List.cons_append, scanPrimary_cons (by decide) (by decide),
            hclose] at hcloses
          cases hcloses
        simp [starsAny, LoneStar, hd, or_comm]
    · have hno : starsAny (c :: value ++ [')']) = false := by
        unfold starsAny
        split
        · rename_i heq
          exact absurd (List.cons.inj heq).1 hstar
        · rfl
      rw [hno]
      constructor
      · intro hfalse
        cases hfalse
      · intro hlone
        obtain ⟨rest, heq, -⟩ := hlone
        exact absurd (List.cons.inj heq).1 hstar

/-- A printed primary value is read back unless it begins with a lone star. -/
theorem parseArgPart_primary {value : List Char} (h : PrimaryText value)
    (hstar : ¬ LoneStar value) (pos : Nat) :
    Yields (parseArgPart ⟨pos, value ++ [')']⟩) (.primary .glob (String.ofList value)) [')'] := by
  have hskip : (Cursor.mk pos (value ++ [')'])).skipWhitespace = ⟨pos, value ++ [')']⟩ :=
    Cursor.skipWhitespace_of_stops (h.stops.ascii.append h.nonempty)
  have hstars : starsAny (value ++ [')']) = false := by
    simpa using mt (starsAny_close h).mp hstar
  have hlooks : looksLikeFieldConditions (value ++ [')']) = false := by
    rw [looksLikeFieldConditions_eq, trimBy_close h.nonempty h.stops, h.noCondition]
  have htrim : Str.trim (String.ofList value) = String.ofList value := by
    have heq := trimBy_eq_self h.stops h.endsOff
    rw [trimBy] at heq
    rw [Str.trim, String.toList_ofList, heq]
  have hne : (String.ofList value).isEmpty = false := by
    simpa [String.isEmpty_iff, ← String.toList_inj] using h.nonempty
  rw [parseArgPart, hskip]
  simp only [hstars, Bool.false_eq_true, if_false, hlooks]
  rw [parsePrimaryValue, hskip]
  simp only [h.closes, bind, Except.bind, htrim, hne, Bool.false_eq_true, if_false]
  exact yields_ok _ _ _

/-- A text that begins with a lone star is taken for any arguments. -/
theorem parseArgPart_star {text : List Char} (h : Stops isAsciiWhitespace text)
    (hstar : starsAny text = true) (pos : Nat) :
    ∃ cursor, parseArgPart ⟨pos, text⟩ = .ok (.any, cursor) := by
  rw [parseArgPart, Cursor.skipWhitespace_of_stops h]
  simp only [hstar, if_true]
  exact ⟨_, rfl⟩

/-! ## Printed field conditions -/

section Fields

variable {cond : FieldCondition} {conditions : List FieldCondition}

/-- The first condition begins with its path. -/
theorem conditionsText_start (cond : FieldCondition) (conditions : List FieldCondition) :
    ∃ rest, conditionsText (cond :: conditions) ++ [')'] = pathText cond.path ++ ' ' ::
      (cond.op.display.toList ++ ' ' :: '"' :: rest) := by
  cases conditions with
  | nil =>
    refine ⟨cond.value.toList ++ '"' :: [')'], ?_⟩
    simp [conditionsText_single, display_condition]
  | cons next conditions =>
    refine ⟨cond.value.toList ++ '"' :: ',' :: ' ' :: (conditionsText (next :: conditions) ++
      [')']), ?_⟩
    simp [conditionsText_cons, display_condition]

theorem starsAny_ne {c : Char} (hc : c ≠ '*') (rest : List Char) :
    starsAny (c :: rest) = false := by
  unfold starsAny
  split
  · rename_i heq
    exact absurd (List.cons.inj heq).1 hc
  · rfl

theorem starsAny_field {ident : String} (hne : ident.toList ≠ [])
    (hchars : ∀ c ∈ ident.toList, isIdentifierChar c = true) (rest : List Char) :
    starsAny (ident.toList ++ rest) = false := by
  cases hident : ident.toList with
  | nil => exact absurd hident hne
  | cons c cs => exact starsAny_ne (ne_star_of_identifier (hchars c (by simp [hident]))) _

/-- A name behind which the path goes on is no lone star. -/
theorem starsAny_name {name : PathSegment} (hname : IsName name) {c : Char}
    (hc : c = '.' ∨ c = '[') (rest : List Char) :
    starsAny (name.display.toList ++ c :: rest) = false := by
  cases hname with
  | field hne hchars => exact starsAny_field hne hchars _
  | wildcard =>
    cases hc with
    | inl h => subst h; rfl
    | inr h => subst h; rfl

/-- A path is taken for a lone star when it is a wildcard alone. -/
theorem starsAny_path {path : List PathSegment} (hpath : WellFormedPath path)
    (rest : List Char) :
    starsAny (pathText path ++ ' ' :: rest) = true ↔ path = [.wildcard] := by
  have hname_star : ∀ {name : PathSegment} {indices : List PathSegment} (c : Char)
      (rest : List Char), IsName name → (∀ seg ∈ indices, IsIndex seg) →
      indices ≠ [] ∨ c = '.' →
      starsAny (name.display.toList ++ (indicesText indices ++ c :: rest)) = false := by
    intro name indices c rest hname hindices hgoes
    cases indices with
    | nil =>
      have hdot : c = '.' := by simpa using hgoes
      exact starsAny_name hname (.inl hdot) rest
    | cons seg indices =>
      rw [indicesText_cons (hindices seg List.mem_cons_self), List.cons_append]
      exact starsAny_name hname (.inr rfl) _
  cases hpath with
  | @last name indices hname hindices =>
    rw [pathText_last hname hindices, List.append_assoc]
    by_cases hnil : indices = []
    · subst hnil
      cases hname with
      | wildcard => exact ⟨fun _ => rfl, fun _ => rfl⟩
      | field hne hchars =>
        rw [PathSegment.display, starsAny_field hne hchars]
        simp
    · rw [hname_star ' ' rest hname hindices (.inl hnil)]
      simp [hnil]
  | @dot name indices path hname hindices hrest =>
    have hne : path ≠ [] := by
      rintro rfl
      cases hrest
    rw [pathText_dot hname hindices hrest, List.append_assoc, List.append_assoc,
      List.cons_append, hname_star '.' _ hname hindices (.inr rfl)]
    simp [hne]

/-- White space is no part of an identifier. -/
theorem isWhitespace_of_identifier {c : Char} (h : isIdentifierChar c = true) :
    Str.isWhitespace c = false := by
  by_contra hws
  have hpath := isPathChar_of_whitespace (by simpa using hws)
  simp only [isPathChar, Bool.or_eq_false_iff, beq_eq_false_iff_ne] at hpath
  have hdash : c = '-' := by simpa [isIdentifierChar, hpath.1.1, hpath.1.2] using h
  subst hdash
  revert hws
  decide

/-- Printed conditions are taken for conditions. -/
theorem looksLike_conditions (hpath : WellFormedPath cond.path) (hdash : DashFree cond.path) :
    looksLikeFieldConditions (conditionsText (cond :: conditions) ++ [')']) = true := by
  have hne : conditionsText (cond :: conditions) ≠ [] := by
    intro hnil
    have := length_conditionsText cond conditions
    simp [hnil] at this
  have hstops : Stops Str.isWhitespace (conditionsText (cond :: conditions)) := by
    obtain ⟨rest, htext⟩ := conditionsText_start cond conditions
    have hpath' := stops_pathText hpath (p := Str.isWhitespace) (by decide)
      (fun _ => isWhitespace_of_identifier)
      (' ' :: (cond.op.display.toList ++ ' ' :: '"' :: rest))
    rw [← htext] at hpath'
    cases hconds : conditionsText (cond :: conditions) with
    | nil => exact absurd hconds hne
    | cons c cs =>
      rw [hconds] at hpath'
      simpa using hpath'
  obtain ⟨rest, htext⟩ := conditionsText_start cond conditions
  rw [looksLikeFieldConditions_eq, trimBy_close hne hstops, htext, conditionAhead,
    skipPathChars_display hpath hdash]
  cases cond.op <;> rfl

/-- Printed conditions begin with a lone star when the first path is a wildcard alone. -/
theorem starsAny_conditions (hpath : WellFormedPath cond.path) :
    starsAny (conditionsText (cond :: conditions) ++ [')']) = true ↔
      cond.path = [.wildcard] := by
  obtain ⟨rest, htext⟩ := conditionsText_start cond conditions
  rw [htext]
  exact starsAny_path hpath _

/-- Printed conditions are parsed as conditions unless the first path is a wildcard alone. -/
theorem parseArgPart_conditions (hpath : WellFormedPath cond.path) (hdash : DashFree cond.path)
    (hstar : cond.path ≠ [.wildcard]) (pos : Nat) :
    parseArgPart ⟨pos, conditionsText (cond :: conditions) ++ [')']⟩ =
      parseFieldConditions ⟨pos, conditionsText (cond :: conditions) ++ [')']⟩ := by
  have hstars : starsAny (conditionsText (cond :: conditions) ++ [')']) = false := by
    simpa using mt (starsAny_conditions hpath).mp hstar
  rw [parseArgPart, Cursor.skipWhitespace_of_stops (stops_conditionsText hpath [')'])]
  simp only [hstars, Bool.false_eq_true, if_false, looksLike_conditions hpath hdash, if_true]

/-- Printed field conditions are read back when the first path is not a wildcard alone and
    the values stand for themselves between quotes. -/
theorem parseArgPart_fields (hpaths : ∀ c ∈ cond :: conditions, WellFormedPath c.path)
    (hdash : DashFree cond.path) (hstar : cond.path ≠ [.wildcard])
    (hplain : ∀ c ∈ cond :: conditions, QuotePlain c.value.toList) (pos : Nat) :
    Yields (parseArgPart ⟨pos, conditionsText (cond :: conditions) ++ [')']⟩)
      (.fields (cond :: conditions)) [')'] := by
  have hpath := hpaths cond List.mem_cons_self
  have hpasses : (cond :: conditions).length ≤
      (conditionsText (cond :: conditions) ++ [')']).length := by
    have := length_conditionsText cond conditions
    rw [List.length_append]
    omega
  have htext : IsConditionsText
      (Cursor.mk pos (conditionsText (cond :: conditions) ++ [')'])).remaining
      (cond :: conditions) := (stops_conditionsText hpath [')']).dropWhile_eq
  rw [parseArgPart_conditions hpath hdash hstar, parseFieldConditions]
  apply (parseConditions_plain hpaths hplain hpasses htext).bind
  intro pos'
  exact yields_ok _ _ _

/-- And only then. -/
theorem of_parseArgPart_fields (hpaths : ∀ c ∈ cond :: conditions, WellFormedPath c.path)
    (hdash : DashFree cond.path) {pos : Nat} {cursor : Cursor}
    (h : parseArgPart ⟨pos, conditionsText (cond :: conditions) ++ [')']⟩ =
      .ok (.fields (cond :: conditions), cursor)) :
    cond.path ≠ [.wildcard] ∧ ∀ c ∈ cond :: conditions, QuotePlain c.value.toList := by
  have hpath := hpaths cond List.mem_cons_self
  have hstops : Stops isAsciiWhitespace (conditionsText (cond :: conditions) ++ [')']) :=
    stops_conditionsText hpath [')']
  have htext : IsConditionsText
      (Cursor.mk pos (conditionsText (cond :: conditions) ++ [')'])).remaining
      (cond :: conditions) := hstops.dropWhile_eq
  have hstar : cond.path ≠ [.wildcard] := by
    intro heq
    obtain ⟨c, hany⟩ := parseArgPart_star hstops ((starsAny_conditions hpath).mpr heq) pos
    rw [hany] at h
    cases h
  rw [parseArgPart_conditions hpath hdash hstar] at h
  obtain ⟨⟨conds, c⟩, hconds, hr⟩ := exists_of_bind_ok h
  cases hr
  exact ⟨hstar, quotePlain_of_parseConditions hpaths htext hconds⟩

end Fields

end Remo
