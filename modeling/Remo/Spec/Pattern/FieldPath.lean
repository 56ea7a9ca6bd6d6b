import Remo.Spec.Pattern.Tokens

/-!
# Field paths

A parsed path is a sequence of names, each with its indices, and is read back from its
printed text. The test that tells field conditions from a primary value runs over the
path in front of the first operator; it passes no dash, so the paths it admits have none.

Key results:
* `wellFormedPath_of_parse`  what the path parser returns is well formed
* `parseFieldPath_display`   a printed well-formed path is read back
* `dashFree_of_parse`        a path behind which the test sees an operator has no dash
* `skipPathChars_display`    the test passes over a printed path without dashes
-/

namespace Remo

/-- A segment that begins a part of a path: an identifier or a wildcard. -/
inductive IsName : PathSegment → Prop
  | field {ident : String} : ident.toList ≠ [] →
      (∀ c ∈ ident.toList, isIdentifierChar c = true) → IsName (.field ident)
  | wildcard : IsName .wildcard

/-- A segment in brackets. -/
inductive IsIndex : PathSegment → Prop
  | index (i : UInt64) : IsIndex (.index i)
  | anyIndex : IsIndex .anyIndex

/-- Names with their indices, separated by dots. -/
inductive WellFormedPath : List PathSegment → Prop
  | last {name : PathSegment} {indices : List PathSegment} : IsName name →
      (∀ seg ∈ indices, IsIndex seg) → WellFormedPath (name :: indices)
  | dot {name : PathSegment} {indices path : List PathSegment} : IsName name →
      (∀ seg ∈ indices, IsIndex seg) → WellFormedPath path →
      WellFormedPath (name :: indices ++ path)

/-- No name of the path has a dash. -/
def DashFree (path : List PathSegment) : Prop :=
  ∀ ident, PathSegment.field ident ∈ path → '-' ∉ ident.toList

/-! ## The printed path -/

/-- The printed indices. -/
def indicesText (indices : List PathSegment) : List Char :=
  indices.flatMap fun seg => seg.display.toList

/-- The printed path. -/
def pathText (path : List PathSegment) : List Char := (displayPathFrom 0 path).toList

/-- Past the first position it does not matter which one a segment has. -/
theorem displayPathFrom_succ (i : Nat) (path : List PathSegment) :
    displayPathFrom (i + 1) path = displayPathFrom 1 path := by
  induction path generalizing i with
  | nil => rfl
  | cons seg path ih =>
    rw [displayPathFrom, displayPathFrom, ih (i + 1), ih 1]
    cases seg <;> simp [segmentSeparator]

theorem displayPathFrom_indices (i : Nat) {indices : List PathSegment}
    (h : ∀ seg ∈ indices, IsIndex seg) (path : List PathSegment) :
    (displayPathFrom (i + 1) (indices ++ path)).toList =
      indicesText indices ++ (displayPathFrom 1 path).toList := by
  induction indices generalizing i with
  | nil => simp [indicesText, displayPathFrom_succ i]
  | cons seg indices ih =>
    obtain ⟨hseg, hindices⟩ := List.forall_mem_cons.mp h
    rw [List.cons_append, displayPathFrom, String.toList_append, ih _ hindices]
    cases hseg <;> simp [segmentSeparator, indicesText]

/-- A name behind a dot. -/
theorem displayPathFrom_name {name : PathSegment} (hname : IsName name) (i : Nat)
    (path : List PathSegment) :
    (displayPathFrom i (name :: path)).toList =
      (if 0 < i then ['.'] else []) ++
        (name.display.toList ++ (displayPathFrom 1 path).toList) := by
  rw [displayPathFrom, displayPathFrom_succ]
  cases hname <;> by_cases hi : 0 < i <;> simp [segmentSeparator, hi]

theorem pathText_last {name : PathSegment} {indices : List PathSegment} (hname : IsName name)
    (h : ∀ seg ∈ indices, IsIndex seg) :
    pathText (name :: indices) = name.display.toList ++ indicesText indices := by
  have hindices := displayPathFrom_indices 0 h []
  rw [List.append_nil] at hindices
  rw [pathText, displayPathFrom_name hname, hindices]
  simp [displayPathFrom]

theorem pathText_dot {name : PathSegment} {indices path : List PathSegment}
    (hname : IsName name) (h : ∀ seg ∈ indices, IsIndex seg) (hpath : WellFormedPath path) :
    pathText (name :: indices ++ path) =
      name.display.toList ++ (indicesText indices ++ '.' :: pathText path) := by
  have hrest : (displayPathFrom 1 path).toList = '.' :: pathText path := by
    cases hpath with
    | last hname' => simp [pathText, displayPathFrom_name hname']
    | dot hname' => simp [pathText, displayPathFrom_name hname']
  rw [pathText, List.cons_append, displayPathFrom_name hname, displayPathFrom_indices 0 h, hrest]
  simp

/-! ## What the path parser returns -/

theorem isIndex_of_parseIndex {cursor cursor' : Cursor} {seg : PathSegment}
    (h : parseIndex cursor = .ok (seg, cursor')) : IsIndex seg := by
  unfold parseIndex at h
  dsimp only at h
  split at h
  · obtain ⟨c, -, hr⟩ := exists_of_bind_ok h
    cases hr
    exact .anyIndex
  · obtain ⟨⟨i, c⟩, -, h⟩ := exists_of_bind_ok h
    obtain ⟨c', -, hr⟩ := exists_of_bind_ok h
    cases hr
    exact .index i

theorem isIndex_of_parseIndices {passes : Nat} {cursor cursor' : Cursor}
    {indices : List PathSegment} (h : parseIndices passes cursor = .ok (indices, cursor')) :
    ∀ seg ∈ indices, IsIndex seg := by
  induction passes generalizing cursor indices with
  | zero =>
    cases h
    simp
  | succ passes ih =>
    rw [parseIndices] at h
    split at h
    · obtain ⟨⟨seg, c⟩, hseg, h⟩ := exists_of_bind_ok h
      obtain ⟨⟨segs, c'⟩, hsegs, hr⟩ := exists_of_bind_ok h
      cases hr
      exact List.forall_mem_cons.mpr ⟨isIndex_of_parseIndex hseg, ih hsegs⟩
    · cases h
      simp

theorem of_parseIdentifier_ok {cursor cursor' : Cursor} {ident : String}
    (h : parseIdentifier cursor = .ok (ident, cursor')) :
    ident.toList ≠ [] ∧ (∀ c ∈ ident.toList, isIdentifierChar c = true) ∧
      cursor.remaining = ident.toList ++ cursor'.remaining := by
  unfold parseIdentifier at h
  dsimp only at h
  split at h
  · cases h
  · rename_i hempty
    cases h
    refine ⟨?_, ?_, by simp [Cursor.takeWhile]⟩
    · simpa using hempty
    · simpa [Cursor.takeWhile] using all_takeWhile isIdentifierChar cursor.remaining

/-- A name is a star or an identifier behind any white space. -/
theorem of_parseSegmentName_ok {cursor cursor' : Cursor} {name : PathSegment}
    (h : parseSegmentName cursor = .ok (name, cursor')) :
    IsName name ∧ cursor.remaining.dropWhile isAsciiWhitespace =
      name.display.toList ++ cursor'.remaining := by
  unfold parseSegmentName at h
  dsimp only at h
  split at h
  · rename_i hstar
    cases h
    refine ⟨.wildcard, ?_⟩
    cases htext : cursor.remaining.dropWhile isAsciiWhitespace with
    | nil => simp [Cursor.peek, htext] at hstar
    | cons c rest =>
      obtain rfl : c = '*' := by simpa [Cursor.peek, htext] using hstar
      simp [PathSegment.display, htext]
  · obtain ⟨⟨ident, c⟩, hident, hr⟩ := exists_of_bind_ok h
    cases hr
    obtain ⟨hne, hchars, htext⟩ := of_parseIdentifier_ok hident
    exact ⟨.field hne hchars, by simpa [PathSegment.display] using htext⟩

theorem wellFormedPath_of_parse {passes : Nat} {cursor cursor' : Cursor}
    {path : List PathSegment} (h : parsePathSegments passes cursor = .ok (path, cursor')) :
    WellFormedPath path := by
  induction passes generalizing cursor path with
  | zero => cases h
  | succ passes ih =>
    rw [parsePathSegments] at h
    obtain ⟨⟨name, c⟩, hname, h⟩ := exists_of_bind_ok h
    obtain ⟨⟨indices, c'⟩, hindices, h⟩ := exists_of_bind_ok h
    dsimp only at h
    split at h
    · obtain ⟨⟨segs, c''⟩, hsegs, hr⟩ := exists_of_bind_ok h
      cases hr
      exact .dot (of_parseSegmentName_ok hname).1 (isIndex_of_parseIndices hindices) (ih hsegs)
    · cases h
      exact .last (of_parseSegmentName_ok hname).1 (isIndex_of_parseIndices hindices)

/-! ## Reading a printed path back -/

/-- White space is no part of a name or an index. -/
theorem isAsciiWhitespace_of_identifier {c : Char} (h : isIdentifierChar c = true) :
    isAsciiWhitespace c = false := by
  by_contra hws
  simp only [isAsciiWhitespace, Bool.not_eq_false, Bool.or_eq_true, beq_iff_eq] at hws
  rcases hws with (((rfl | rfl) | rfl) | rfl) | rfl <;> revert h <;> decide

/-- An identifier begins with a character of its own. -/
theorem stops_of_identifier {ident rest : List Char} {p : Char → Bool} (hne : ident ≠ [])
    (hp : ∀ c ∈ ident, p c = false) : Stops p (ident ++ rest) := by
  cases ident with
  | nil => exact absurd rfl hne
  | cons c ident => simpa using hp c List.mem_cons_self

theorem ne_star_of_identifier {c : Char} (h : isIdentifierChar c = true) : c ≠ '*' := by
  rintro rfl
  revert h
  decide

theorem parseSegmentName_display {name : PathSegment} (hname : IsName name) (pos : Nat)
    {rest : List Char} (hrest : Stops isIdentifierChar rest) :
    Yields (parseSegmentName ⟨pos, name.display.toList ++ rest⟩) name rest := by
  cases hname with
  | wildcard => exact ⟨_, rfl⟩
  | @field ident hne hchars =>
    have hstops : Stops isAsciiWhitespace (ident.toList ++ rest) :=
      stops_of_identifier hne fun c hc => isAsciiWhitespace_of_identifier (hchars c hc)
    have hstar : (Cursor.mk pos (ident.toList ++ rest)).peek ≠ some '*' := by
      cases hident : ident.toList with
      | nil => exact absurd hident hne
      | cons c cs =>
        have hc := ne_star_of_identifier (hchars c (by simp [hident]))
        simpa [Cursor.peek] using hc
    have hempty : ident.toList.isEmpty = false := by simpa using hne
    simp only [parseSegmentName, PathSegment.display, Cursor.skipWhitespace_of_stops hstops,
      if_neg hstar, parseIdentifier, Cursor.takeWhile, takeWhile_append_stops hchars hrest,
      dropWhile_append_stops hchars hrest, hempty, String.ofList_toList]
    exact ⟨_, rfl⟩

/-- The text of an index behind its opening bracket. -/
theorem parseIndex_display {seg : PathSegment} (hseg : IsIndex seg) (pos : Nat)
    (rest : List Char) :
    Yields (parseIndex ⟨pos, seg.display.toList.tail ++ rest⟩) seg rest := by
  cases hseg with
  | anyIndex => exact ⟨_, rfl⟩
  | index i =>
    have htext : (PathSegment.index i).display.toList.tail ++ rest =
        Nat.toDigits 10 i.toNat ++ ']' :: rest := by
      simp [PathSegment.display, Nat.toList_repr]
    have hdigit : ∀ c ∈ Nat.toDigits 10 i.toNat, isIdentifierChar c = true := by
      intro c hc
      have := Nat.isDigit_of_mem_toDigits (by decide) (by decide) hc
      simp [isIdentifierChar, isAsciiAlphanumeric, Char.isAlphanum, this]
    have hstops : Stops isAsciiWhitespace (Nat.toDigits 10 i.toNat ++ ']' :: rest) :=
      stops_of_identifier Nat.toDigits_ne_nil
        fun c hc => isAsciiWhitespace_of_identifier (hdigit c hc)
    have hstar : (Cursor.mk pos (Nat.toDigits 10 i.toNat ++ ']' :: rest)).peek ≠ some '*' := by
      cases hdigits : Nat.toDigits 10 i.toNat with
      | nil => exact absurd hdigits Nat.toDigits_ne_nil
      | cons c cs =>
        have hc := ne_star_of_identifier (hdigit c (by simp [hdigits]))
        simpa [Cursor.peek] using hc
    rw [htext, parseIndex]
    simp only [Cursor.skipWhitespace_of_stops hstops, if_neg hstar]
    have hclose : Stops isAsciiDigit (']' :: rest) := by simp [isAsciiDigit]
    apply (parseUsize_toDigits i pos hclose).bind
    intro pos'
    have htext : (Cursor.mk pos' (']' :: rest)).remaining.dropWhile isAsciiWhitespace =
        ']' :: rest := by simp [isAsciiWhitespace]
    obtain ⟨pos'', hexpect⟩ := Cursor.expect_ok htext
    exact ⟨pos'', by simp [hexpect, bind, Except.bind]⟩

/-- An index is printed in brackets. -/
theorem display_index {seg : PathSegment} (hseg : IsIndex seg) :
    seg.display.toList = '[' :: seg.display.toList.tail := by
  cases hseg <;> simp [PathSegment.display]

theorem indicesText_cons {seg : PathSegment} (hseg : IsIndex seg)
    (indices : List PathSegment) :
    indicesText (seg :: indices) =
      '[' :: (seg.display.toList.tail ++ indicesText indices) := by
  rw [indicesText, List.flatMap_cons, display_index hseg]
  rfl

theorem length_indicesText {indices : List PathSegment} (h : ∀ seg ∈ indices, IsIndex seg) :
    indices.length ≤ (indicesText indices).length := by
  induction indices with
  | nil => simp
  | cons seg indices ih =>
    obtain ⟨hseg, hindices⟩ := List.forall_mem_cons.mp h
    have := ih hindices
    rw [indicesText_cons hseg]
    simp only [List.length_cons, List.length_append]
    omega

theorem parseIndices_display {indices : List PathSegment} (h : ∀ seg ∈ indices, IsIndex seg)
    {passes : Nat} (hpasses : indices.length ≤ passes) (pos : Nat) {rest : List Char}
    (hrest : Stops (· == '[') rest) :
    Yields (parseIndices passes ⟨pos, indicesText indices ++ rest⟩) indices rest := by
  induction indices generalizing passes pos with
  | nil =>
    have hpeek : (Cursor.mk pos rest).peek ≠ some '[' := by
      cases rest with
      | nil => simp [Cursor.peek]
      | cons c rest => simpa [Cursor.peek] using hrest
    cases passes with
    | zero => exact ⟨pos, rfl⟩
    | succ passes => exact ⟨pos, by simp [indicesText, parseIndices, hpeek]⟩
  | cons seg indices ih =>
    obtain ⟨hseg, hindices⟩ := List.forall_mem_cons.mp h
    cases passes with
    | zero => simp at hpasses
    | succ passes =>
      have htext : indicesText (seg :: indices) ++ rest =
          '[' :: (seg.display.toList.tail ++ (indicesText indices ++ rest)) := by
        simp [indicesText_cons hseg]
      rw [htext, parseIndices, Cursor.peek_cons, if_pos rfl]
      apply (parseIndex_display hseg _ (indicesText indices ++ rest)).bind
      intro pos'
      apply (ih hindices (Nat.le_of_succ_le_succ hpasses) pos').bind
      intro pos''
      exact yields_ok _ _ _

/-- A printed index behind a name ends the name. -/
theorem stops_indicesText {indices : List PathSegment} (h : ∀ seg ∈ indices, IsIndex seg)
    {rest : List Char} {p : Char → Bool} (hp : p '[' = false) (hrest : Stops p rest) :
    Stops p (indicesText indices ++ rest) := by
  cases indices with
  | nil => simpa [indicesText] using hrest
  | cons seg indices =>
    rw [indicesText_cons (h seg List.mem_cons_self), List.cons_append]
    simpa using hp

theorem length_pathText {path : List PathSegment} (hpath : WellFormedPath path) :
    path.length ≤ (pathText path).length := by
  have hname : ∀ {name}, IsName name → 1 ≤ name.display.toList.length := by
    intro name hname
    cases hname with
    | wildcard => decide
    | field hne => exact List.length_pos_iff.mpr hne
  induction hpath with
  | @last name indices hn hindices =>
    have := hname hn
    have := length_indicesText hindices
    rw [pathText_last hn hindices]
    simp only [List.length_cons, List.length_append]
    omega
  | @dot name indices path hn hindices hpath ih =>
    have := hname hn
    have := length_indicesText hindices
    rw [pathText_dot hn hindices hpath]
    simp only [List.cons_append, List.length_cons, List.length_append]
    omega

theorem parsePathSegments_display {path : List PathSegment} (hpath : WellFormedPath path)
    {passes : Nat} (hpasses : path.length ≤ passes) (pos : Nat) (rest : List Char) :
    Yields (parsePathSegments passes ⟨pos, pathText path ++ ' ' :: rest⟩) path (' ' :: rest) := by
  induction hpath generalizing passes pos with
  | @last name indices hname hindices =>
    cases passes with
    | zero => simp at hpasses
    | succ passes =>
      rw [pathText_last hname hindices, List.append_assoc, parsePathSegments]
      apply (parseSegmentName_display hname pos
        (stops_indicesText hindices (by decide) (by simp; decide))).bind
      intro pos'
      have hlength : indices.length ≤ (indicesText indices ++ ' ' :: rest).length := by
        have := length_indicesText hindices
        rw [List.length_append]
        omega
      apply (parseIndices_display hindices hlength pos' (by simp)).bind
      intro pos''
      exact ⟨pos'', rfl⟩
  | @dot name indices path hname hindices hpath ih =>
    cases passes with
    | zero => simp at hpasses
    | succ passes =>
      rw [pathText_dot hname hindices hpath, List.append_assoc, List.append_assoc,
        List.cons_append, parsePathSegments]
      apply (parseSegmentName_display hname pos
        (stops_indicesText hindices (by decide) (by simp; decide))).bind
      intro pos'
      have hlength : indices.length ≤
          (indicesText indices ++ '.' :: (pathText path ++ ' ' :: rest)).length := by
        have := length_indicesText hindices
        rw [List.length_append]
        omega
      apply (parseIndices_display hindices hlength pos' (by simp)).bind
      intro pos''
      have hrest : path.length ≤ passes := by
        simp only [List.cons_append, List.length_cons, List.length_append] at hpasses
        omega
      apply (ih hrest (pos'' + utf8Len ['.'])).bind
      intro last
      exact ⟨last, rfl⟩

theorem parseFieldPath_display {path : List PathSegment} (hpath : WellFormedPath path)
    (pos : Nat) (rest : List Char) :
    Yields (parseFieldPath ⟨pos, pathText path ++ ' ' :: rest⟩) path (' ' :: rest) := by
  apply parsePathSegments_display hpath
  have := length_pathText hpath
  show path.length ≤ (pathText path ++ ' ' :: rest).length
  rw [List.length_append]
  omega

/-! ## The test for field conditions -/

/-- An operator follows the characters that may belong to a path. -/
def conditionAhead (text : List Char) : Bool :=
  startsWithOp ((skipPathChars false text).dropWhile isAsciiWhitespace)

/-- A character that may belong to a name in the test. -/
def isPathChar (c : Char) : Bool := isAsciiAlphanumeric c || c == '_' || c == '.'

theorem skipPathChars_append {cs : List Char} (h : ∀ c ∈ cs, isPathChar c = true)
    (rest : List Char) : skipPathChars false (cs ++ rest) = skipPathChars false rest := by
  induction cs with
  | nil => rfl
  | cons c cs ih =>
    obtain ⟨hc, hcs⟩ := List.forall_mem_cons.mp h
    have hpath : (isAsciiAlphanumeric c || c == '_' || c == '.') = true := hc
    rw [List.cons_append, skipPathChars.eq_def]
    simp only [Bool.false_eq_true, if_false, hpath, if_true]
    exact ih hcs

/-- The test stops at a character that no path has. -/
theorem skipPathChars_stop {c : Char} (hpath : isPathChar c = false) (hopen : c ≠ '[')
    (hstar : c ≠ '*') (rest : List Char) : skipPathChars false (c :: rest) = c :: rest := by
  have hpath' : (isAsciiAlphanumeric c || c == '_' || c == '.') = false := hpath
  rw [skipPathChars.eq_def]
  simp [hpath', hopen, hstar]

theorem skipPathChars_open (rest : List Char) :
    skipPathChars false ('[' :: rest) = skipPathChars true rest := by
  rw [skipPathChars.eq_def]
  rfl

theorem skipPathChars_close (rest : List Char) :
    skipPathChars true (']' :: rest) = skipPathChars false rest := by
  rw [skipPathChars.eq_def]
  rfl

/-- In brackets everything is passed but the closing one. -/
theorem skipPathChars_brackets {cs : List Char} (h : ']' ∉ cs) (rest : List Char) :
    skipPathChars true (cs ++ rest) = skipPathChars true rest := by
  induction cs with
  | nil => rfl
  | cons c cs ih =>
    have hc : c ≠ ']' := fun heq => h (by simp [heq])
    have hcs : ']' ∉ cs := fun hmem => h (List.mem_cons_of_mem _ hmem)
    rw [List.cons_append, skipPathChars.eq_def]
    simp only [if_true, show (c != ']') = true by simpa using hc]
    exact ih hcs

theorem skipPathChars_star {c : Char} (h : c = '.' ∨ c = '[') (rest : List Char) :
    skipPathChars false ('*' :: c :: rest) = skipPathChars false (c :: rest) := by
  rw [skipPathChars.eq_def]
  cases h with
  | inl h => subst h; rfl
  | inr h => subst h; rfl

/-- A star that nothing follows, or neither a dot nor a bracket, ends the path. -/
theorem skipPathChars_star_stop {rest : List Char}
    (h : Stops (fun c => c == '.' || c == '[') rest) :
    skipPathChars false ('*' :: rest) = rest := by
  cases rest with
  | nil => rfl
  | cons c rest =>
    have hc : ¬(c = '.' ∨ c = '[') := by simpa using h
    rw [skipPathChars.eq_def]
    simp only [Bool.false_eq_true, if_false, hc]
    rfl

/-- The test passes over printed indices. -/
theorem skipPathChars_indices {indices : List PathSegment} (h : ∀ seg ∈ indices, IsIndex seg)
    (rest : List Char) :
    skipPathChars false (indicesText indices ++ rest) = skipPathChars false rest := by
  induction indices with
  | nil => rfl
  | cons seg indices ih =>
    obtain ⟨hseg, hindices⟩ := List.forall_mem_cons.mp h
    have hbody : ∃ cs, seg.display.toList.tail = cs ++ [']'] ∧ ']' ∉ cs := by
      cases hseg with
      | anyIndex => exact ⟨['*'], rfl, by decide⟩
      | index i =>
        refine ⟨Nat.toDigits 10 i.toNat, by simp [PathSegment.display, Nat.toList_repr], ?_⟩
        intro hmem
        exact absurd (Nat.isDigit_of_mem_toDigits (by decide) (by decide) hmem) (by decide)
    obtain ⟨cs, htail, hcs⟩ := hbody
    rw [indicesText_cons hseg, htail, List.cons_append, skipPathChars_open, List.append_assoc,
      List.append_assoc, skipPathChars_brackets hcs, List.singleton_append, skipPathChars_close,
      ih hindices]

/-- The test passes over a name without dashes. -/
theorem skipPathChars_field {ident : List Char} (h : ∀ c ∈ ident, isIdentifierChar c = true)
    (hdash : '-' ∉ ident) (rest : List Char) :
    skipPathChars false (ident ++ rest) = skipPathChars false rest := by
  apply skipPathChars_append
  intro c hc
  have hident := h c hc
  have hno : c ≠ '-' := fun heq => hdash (heq ▸ hc)
  simp only [isIdentifierChar, Bool.or_eq_true, beq_iff_eq] at hident
  simp only [isPathChar, Bool.or_eq_true, beq_iff_eq]
  tauto

/-- The test passes over a printed name behind which the path goes on. -/
theorem skipPathChars_name {name : PathSegment} (hname : IsName name)
    (hdash : ∀ ident, name = .field ident → '-' ∉ ident.toList) {c : Char}
    (hc : c = '.' ∨ c = '[') (rest : List Char) :
    skipPathChars false (name.display.toList ++ c :: rest) = skipPathChars false (c :: rest) := by
  cases hname with
  | wildcard => exact skipPathChars_star hc rest
  | field _ hchars => exact skipPathChars_field hchars (hdash _ rfl) _

theorem skipPathChars_name_indices {name : PathSegment} {indices : List PathSegment}
    (hname : IsName name) (hdash : ∀ ident, name = .field ident → '-' ∉ ident.toList)
    (hindices : ∀ seg ∈ indices, IsIndex seg) {c : Char} (hc : c = '.' ∨ indices ≠ [])
    (rest : List Char) :
    skipPathChars false (name.display.toList ++ (indicesText indices ++ c :: rest)) =
      skipPathChars false (c :: rest) := by
  cases indices with
  | nil =>
    have hdot : c = '.' := by simpa using hc
    exact skipPathChars_name hname hdash (.inl hdot) rest
  | cons seg indices =>
    have htext := indicesText_cons (hindices seg List.mem_cons_self) indices
    rw [htext, List.cons_append, skipPathChars_name hname hdash (.inr rfl), ← List.cons_append,
      ← htext, skipPathChars_indices hindices]

/-- The test passes over a printed path without dashes. -/
theorem skipPathChars_display {path : List PathSegment} (hpath : WellFormedPath path)
    (hdash : DashFree path) (rest : List Char) :
    skipPathChars false (pathText path ++ ' ' :: rest) = ' ' :: rest := by
  have hstop : skipPathChars false (' ' :: rest) = ' ' :: rest :=
    skipPathChars_stop (by decide) (by decide) (by decide) rest
  induction hpath with
  | @last name indices hname hindices =>
    have hdash' : ∀ ident, name = .field ident → '-' ∉ ident.toList :=
      fun ident heq => hdash ident (by simp [heq])
    rw [pathText_last hname hindices, List.append_assoc]
    by_cases hnil : indices = []
    · subst hnil
      cases hname with
      | wildcard => exact skipPathChars_star_stop (by simp [indicesText])
      | field _ hchars =>
        rw [← hstop]
        exact skipPathChars_field hchars (hdash' _ rfl) _
    · rw [skipPathChars_name_indices hname hdash' hindices (.inr hnil), hstop]
  | @dot name indices path hname hindices hpath ih =>
    have hdash' : ∀ ident, name = .field ident → '-' ∉ ident.toList :=
      fun ident heq => hdash ident (by simp [heq])
    have hrest : DashFree path :=
      fun ident hmem => hdash ident (List.mem_append_right _ hmem)
    have hdot : skipPathChars false ('.' :: (pathText path ++ ' ' :: rest)) =
        skipPathChars false (pathText path ++ ' ' :: rest) := by
      have hchars : ∀ c ∈ ['.'], isPathChar c = true := by simp [isPathChar]
      exact skipPathChars_append hchars _
    rw [pathText_dot hname hindices hpath, List.append_assoc, List.append_assoc,
      List.cons_append, skipPathChars_name_indices hname hdash' hindices (.inl rfl), hdot,
      ih hrest]

/-! ## What the test says about a parsed path -/

/-- Skipping characters that are no closing bracket does not matter in brackets. -/
theorem skipPathChars_dropWhile {p : Char → Bool} (hp : p ']' = false) (text : List Char) :
    skipPathChars true (text.dropWhile p) = skipPathChars true text := by
  have hmem : ']' ∉ text.takeWhile p := by
    intro h
    have := all_takeWhile p text _ h
    simp [hp] at this
  have h := skipPathChars_brackets hmem (text.dropWhile p)
  rw [List.takeWhile_append_dropWhile] at h
  exact h.symm

theorem skipPathChars_expect {cursor cursor' : Cursor} (h : cursor.expect ']' = .ok cursor') :
    skipPathChars true cursor.remaining = skipPathChars false cursor'.remaining := by
  rw [← skipPathChars_dropWhile (p := isAsciiWhitespace) (by decide), Cursor.of_expect_ok h,
    skipPathChars_close]

theorem skipPathChars_parseIndex {cursor cursor' : Cursor} {seg : PathSegment}
    (h : parseIndex cursor = .ok (seg, cursor')) :
    skipPathChars true cursor.remaining = skipPathChars false cursor'.remaining := by
  rw [← skipPathChars_dropWhile (p := isAsciiWhitespace) (by decide)]
  unfold parseIndex at h
  dsimp only at h
  split at h
  · rename_i hstar
    obtain ⟨c, hexpect, hr⟩ := exists_of_bind_ok h
    cases hr
    rw [← skipPathChars_expect hexpect]
    cases htext : cursor.remaining.dropWhile isAsciiWhitespace with
    | nil => simp [Cursor.peek, htext] at hstar
    | cons c rest =>
      obtain rfl : c = '*' := by simpa [Cursor.peek, htext] using hstar
      have hno : ']' ∉ ['*'] := by decide
      have hskip := skipPathChars_brackets hno rest
      simpa [htext] using hskip
  · obtain ⟨⟨i, c⟩, hdigits, h⟩ := exists_of_bind_ok h
    obtain ⟨c', hexpect, hr⟩ := exists_of_bind_ok h
    cases hr
    rw [← skipPathChars_expect hexpect]
    unfold parseUsize at hdigits
    dsimp only at hdigits
    split at hdigits
    · cases hdigits
    · cases hdigits
      exact (skipPathChars_dropWhile (p := isAsciiDigit) (by decide) _).symm

theorem skipPathChars_parseIndices {passes : Nat} {cursor cursor' : Cursor}
    {indices : List PathSegment} (h : parseIndices passes cursor = .ok (indices, cursor')) :
    skipPathChars false cursor.remaining = skipPathChars false cursor'.remaining := by
  induction passes generalizing cursor indices with
  | zero =>
    cases h
    rfl
  | succ passes ih =>
    rw [parseIndices] at h
    split at h
    · rename_i hopen
      obtain ⟨⟨seg, c⟩, hseg, h⟩ := exists_of_bind_ok h
      obtain ⟨⟨segs, c'⟩, hsegs, hr⟩ := exists_of_bind_ok h
      cases hr
      have hindex := skipPathChars_parseIndex hseg
      cases htext : cursor.remaining with
      | nil => simp [Cursor.peek, htext] at hopen
      | cons c rest =>
        obtain rfl : c = '[' := by simpa [Cursor.peek, htext] using hopen
        rw [skipPathChars_open, ← ih hsegs, ← hindex]
        simp [htext]
    · cases h
      rfl

/-- Indices begin with a bracket, or there are none. -/
theorem parseIndices_start {passes : Nat} {cursor cursor' : Cursor} {indices : List PathSegment}
    (h : parseIndices passes cursor = .ok (indices, cursor')) :
    (∃ rest, cursor.remaining = '[' :: rest) ∨ cursor' = cursor := by
  cases passes with
  | zero =>
    cases h
    exact .inr rfl
  | succ passes =>
    rw [parseIndices] at h
    split at h
    · rename_i hopen
      left
      cases htext : cursor.remaining with
      | nil => simp [Cursor.peek, htext] at hopen
      | cons c rest =>
        obtain rfl : c = '[' := by simpa [Cursor.peek, htext] using hopen
        exact ⟨rest, rfl⟩
    · cases h
      exact .inr rfl

theorem startsWithOp_cons {c : Char} (hglob : c ≠ '~') (hexact : c ≠ '=') (hnot : c ≠ '!')
    (rest : List Char) : startsWithOp (c :: rest) = false := by
  unfold startsWithOp
  split
  · rename_i heq
    exact absurd (List.cons.inj heq).1 hglob
  · rename_i heq
    exact absurd (List.cons.inj heq).1 hexact
  · rename_i heq
    exact absurd (List.cons.inj heq).1 hnot
  · rename_i heq
    exact absurd (List.cons.inj heq).1 hnot
  · rfl

theorem startsWithOp_name {name : PathSegment} (hname : IsName name) (rest : List Char) :
    startsWithOp (name.display.toList ++ rest) = false := by
  cases hname with
  | wildcard => rfl
  | @field ident hne hchars =>
    cases hident : ident.toList with
    | nil => exact absurd hident hne
    | cons c cs =>
      have hc := hchars c (by simp [hident])
      simp only [PathSegment.display, hident, List.cons_append]
      have hno : ∀ d, isIdentifierChar d = false → c ≠ d := by
        rintro d hd rfl
        rw [hc] at hd
        cases hd
      exact startsWithOp_cons (hno _ (by decide)) (hno _ (by decide)) (hno _ (by decide)) _

/-- Before a name the test admits no white space. -/
theorem stops_of_conditionAhead {name : PathSegment} (hname : IsName name)
    {text rest : List Char} (hahead : conditionAhead text = true)
    (htext : text.dropWhile isAsciiWhitespace = name.display.toList ++ rest) :
    text = name.display.toList ++ rest := by
  cases text with
  | nil => exact htext
  | cons c text =>
    by_cases hws : isAsciiWhitespace c = true
    · -- the test stops at the white space and finds the name behind it
      have hc : isPathChar c = false ∧ c ≠ '[' ∧ c ≠ '*' := by
        simp only [isAsciiWhitespace, Bool.or_eq_true, beq_iff_eq] at hws
        rcases hws with (((rfl | rfl) | rfl) | rfl) | rfl <;> decide
      rw [conditionAhead, skipPathChars_stop hc.1 hc.2.1 hc.2.2, htext,
        startsWithOp_name hname] at hahead
      cases hahead
    · rw [← htext, List.dropWhile_cons_of_neg hws]

/-- In front of an operator a name has no dash. -/
theorem no_dash_of_conditionAhead {ident rest : List Char}
    (hchars : ∀ c ∈ ident, isIdentifierChar c = true)
    (hahead : conditionAhead (ident ++ rest) = true) : '-' ∉ ident := by
  intro hmem
  obtain ⟨before, after, rfl, hbefore⟩ := List.eq_append_cons_of_mem hmem
  have hchars' : ∀ c ∈ before, isIdentifierChar c = true :=
    fun c hc => hchars c (List.mem_append_left _ hc)
  have hstop := skipPathChars_stop (c := '-') (by decide) (by decide) (by decide) (after ++ rest)
  rw [conditionAhead, List.append_assoc, skipPathChars_field hchars' hbefore, List.cons_append,
    hstop] at hahead
  revert hahead
  simp [isAsciiWhitespace, startsWithOp]

/-- A path behind which the test sees an operator has no dash: the test would stop there. -/
theorem dashFree_of_parse {passes : Nat} {cursor cursor' : Cursor} {path : List PathSegment}
    (h : parsePathSegments passes cursor = .ok (path, cursor'))
    (hahead : conditionAhead cursor.remaining = true) : DashFree path := by
  induction passes generalizing cursor path with
  | zero => cases h
  | succ passes ih =>
    rw [parsePathSegments] at h
    obtain ⟨⟨name, c⟩, hname, h⟩ := exists_of_bind_ok h
    obtain ⟨⟨indices, c'⟩, hindices, h⟩ := exists_of_bind_ok h
    obtain ⟨hisName, htext⟩ := of_parseSegmentName_ok hname
    have hisIndex := isIndex_of_parseIndices hindices
    rw [stops_of_conditionAhead hisName hahead htext] at hahead
    have hfirst : ∀ ident, name = .field ident → '-' ∉ ident.toList := by
      rintro ident rfl
      cases hisName with
      | field _ hchars => exact no_dash_of_conditionAhead hchars hahead
    have hno : ∀ ident, PathSegment.field ident ∉ indices := by
      intro ident hmem
      cases hisIndex _ hmem
    dsimp only at h
    split at h
    · rename_i hdot
      obtain ⟨⟨segs, c''⟩, hsegs, hr⟩ := exists_of_bind_ok h
      cases hr
      -- behind the name and its indices the test goes on at the dot
      have hgoes : ∃ d rest, c.remaining = d :: rest ∧ (d = '.' ∨ d = '[') := by
        cases parseIndices_start hindices with
        | inl hopen =>
          obtain ⟨rest, hrest⟩ := hopen
          exact ⟨'[', rest, hrest, .inr rfl⟩
        | inr heq =>
          rw [heq] at hdot
          cases hrest : c.remaining with
          | nil => simp [Cursor.peek, hrest] at hdot
          | cons d rest =>
            have hd : d = '.' := by simpa [Cursor.peek, hrest] using hdot
            exact ⟨d, rest, rfl, .inl hd⟩
      obtain ⟨d, rest, hrest, hd⟩ := hgoes
      have hrest' : ∃ rest', c'.remaining = '.' :: rest' := by
        cases hc' : c'.remaining with
        | nil => simp [Cursor.peek, hc'] at hdot
        | cons e rest' =>
          obtain rfl : e = '.' := by simpa [Cursor.peek, hc'] using hdot
          exact ⟨rest', rfl⟩
      obtain ⟨rest', hrest'⟩ := hrest'
      have hskip : skipPathChars false (name.display.toList ++ c.remaining) =
          skipPathChars false rest' := by
        have hchars : ∀ c ∈ ['.'], isPathChar c = true := by simp [isPathChar]
        rw [hrest, skipPathChars_name hisName hfirst hd, ← hrest,
          skipPathChars_parseIndices hindices, hrest']
        exact skipPathChars_append hchars rest'
      have hahead' : conditionAhead (c'.advance 1).remaining = true := by
        rw [conditionAhead, hskip] at hahead
        simpa [conditionAhead, hrest'] using hahead
      intro ident hmem
      simp only [List.cons_append, List.mem_cons, List.mem_append] at hmem
      rcases hmem with heq | hmem | hmem
      · exact hfirst ident heq.symm
      · exact absurd hmem (hno ident)
      · exact ih hsegs hahead' ident hmem
    · cases h
      intro ident hmem
      cases List.mem_cons.mp hmem with
      | inl heq => exact hfirst ident heq.symm
      | inr hmem => exact absurd hmem (hno ident)

end Remo
