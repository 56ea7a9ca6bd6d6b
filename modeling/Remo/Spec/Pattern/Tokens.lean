import Remo.ForStd.Delimited
import Remo.ForStd.Except
import Remo.Native.Pattern.Parser
import Mathlib.Data.List.Induction

/-!
# What the scanners read

The parts of a pattern that are read character by character: white space, numbers,
operators, quoted values, and the two texts in which parentheses are counted. Each lemma
says what a scanner makes of a printed value followed by more text.

Key results:
* `parseUsize_toDigits`    a printed index is read back
* `parseMatchOp_display`   so is a printed operator
* `scanRegex_append_slash`, `scanPrimary_unpad` a text that ended at its delimiter ends
  there again
-/

namespace Remo

/-- The parser returns `v` and leaves `rest`. -/
def Yields {α : Type} (result : Except ParseFailure (α × Cursor)) (v : α)
    (rest : List Char) : Prop :=
  ∃ pos, result = .ok (v, ⟨pos, rest⟩)

section Yields

variable {α β : Type} {x : Except ParseFailure (α × Cursor)} {v : α} {w : β}
  {rest rest' : List Char} {f : α × Cursor → Except ParseFailure (β × Cursor)}

theorem Yields.bind (hx : Yields x v rest)
    (hf : ∀ pos, Yields (f (v, ⟨pos, rest⟩)) w rest') : Yields (x >>= f) w rest' := by
  obtain ⟨pos, rfl⟩ := hx
  exact hf pos

theorem yields_ok (v : α) (pos : Nat) (rest : List Char) :
    Yields (.ok (v, ⟨pos, rest⟩)) v rest := ⟨pos, rfl⟩

end Yields

/-! ## White space and delimiters -/

@[simp] theorem Cursor.remaining_skipWhitespace (cursor : Cursor) :
    cursor.skipWhitespace.remaining = cursor.remaining.dropWhile isAsciiWhitespace := rfl

@[simp] theorem Cursor.remaining_advance (cursor : Cursor) (n : Nat) :
    (cursor.advance n).remaining = cursor.remaining.drop n := rfl

@[simp] theorem Cursor.peek_cons (pos : Nat) (c : Char) (rest : List Char) :
    (Cursor.mk pos (c :: rest)).peek = some c := rfl

/-- There is nothing to skip before a character that is not white space. -/
theorem Cursor.skipWhitespace_of_stops {pos : Nat} {text : List Char}
    (h : Stops isAsciiWhitespace text) :
    (Cursor.mk pos text).skipWhitespace = ⟨pos, text⟩ := by
  simp [skipWhitespace, takeWhile, h.takeWhile_eq, h.dropWhile_eq, utf8Len]

/-- ASCII white space is white space. -/
theorem isWhitespace_of_ascii {c : Char} (h : isAsciiWhitespace c = true) :
    Str.isWhitespace c = true := by
  simp only [isAsciiWhitespace, Bool.or_eq_true, beq_iff_eq] at h
  rcases h with (((rfl | rfl) | rfl) | rfl) | rfl <;> decide

theorem Stops.ascii {text : List Char} (h : Stops Str.isWhitespace text) :
    Stops isAsciiWhitespace text := by
  intro c rest heq
  have hc := h c rest heq
  by_contra hne
  rw [isWhitespace_of_ascii (by simpa using hne)] at hc
  cases hc

/-- `expect` reads its character behind any white space. -/
theorem Cursor.expect_ok {cursor : Cursor} {ch : Char} {rest : List Char}
    (h : cursor.remaining.dropWhile isAsciiWhitespace = ch :: rest) :
    ∃ pos, cursor.expect ch = .ok ⟨pos, rest⟩ := by
  simp only [expect, peek, remaining_skipWhitespace, h, List.head?_cons, if_pos]
  exact ⟨_, by simp [advance, remaining_skipWhitespace, h]; rfl⟩

theorem Cursor.of_expect_ok {cursor cursor' : Cursor} {ch : Char}
    (h : cursor.expect ch = .ok cursor') :
    cursor.remaining.dropWhile isAsciiWhitespace = ch :: cursor'.remaining := by
  simp only [expect, peek, remaining_skipWhitespace] at h
  cases htext : cursor.remaining.dropWhile isAsciiWhitespace with
  | nil => simp [htext] at h
  | cons c rest =>
    simp only [htext, List.head?_cons] at h
    split at h
    · rename_i hc
      obtain rfl := Except.ok.inj h
      simp [htext, hc]
    · cases h

/-! ## Indices and operators -/

/-- The printed digits of a number are read back. -/
theorem parseUsize_toDigits (i : UInt64) (pos : Nat) {rest : List Char}
    (hrest : Stops isAsciiDigit rest) :
    Yields (parseUsize ⟨pos, Nat.toDigits 10 i.toNat ++ rest⟩) i rest := by
  have hdigits : ∀ c ∈ Nat.toDigits 10 i.toNat, isAsciiDigit c = true :=
    fun c hc => Nat.isDigit_of_mem_toDigits (by decide) (by decide) hc
  have hsmall : ¬(Nat.toDigits 10 i.toNat = [] ∨ 0xFFFFFFFFFFFFFFFF < i.toNat) := by
    have hlt := i.toNat_lt
    simp only [Nat.toDigits_ne_nil, false_or, Nat.not_lt]
    omega
  simp only [parseUsize, Cursor.takeWhile, takeWhile_append_stops hdigits hrest,
    dropWhile_append_stops hdigits hrest, Nat.ofDigitChars_ten_toDigits, if_neg hsmall,
    UInt64.ofNat_toNat]
  exact yields_ok _ _ _

/-- A printed operator is read back. -/
theorem parseMatchOp_display (op : MatchOp) (pos : Nat) (rest : List Char) :
    Yields (parseMatchOp ⟨pos, op.display.toList ++ ' ' :: rest⟩) op (' ' :: rest) := by
  cases op <;> exact ⟨_, rfl⟩

/-! ## Quoted values -/

/-- A value that stands for itself between quotes: it has no quote, no two adjacent
    backslashes and no backslash at its end. -/
structure QuotePlain (value : List Char) : Prop where
  noQuote : '"' ∉ value
  noPair : ¬ ['\\', '\\'] <:+: value
  noEnd : value.getLast? ≠ some '\\'

theorem quotePlain_nil : QuotePlain [] := ⟨by simp, by simp, by simp⟩

theorem quotePlain_cons {c : Char} {value : List Char} (hc : c ≠ '\\') :
    QuotePlain (c :: value) ↔ c ≠ '"' ∧ QuotePlain value := by
  have hpair : ['\\', '\\'] <:+: c :: value ↔ ['\\', '\\'] <:+: value := by
    simp [List.infix_cons_iff, List.cons_prefix_cons, hc.symm]
  have hend : (c :: value).getLast? = some '\\' ↔ value.getLast? = some '\\' := by
    cases value with
    | nil => simp [hc]
    | cons d value => simp
  constructor
  · intro h
    obtain ⟨hquote, hvalue⟩ := not_or.mp (mt List.mem_cons.mpr h.noQuote)
    exact ⟨Ne.symm hquote, hvalue, mt hpair.mpr h.noPair, mt hend.mpr h.noEnd⟩
  · intro ⟨hquote, h⟩
    exact ⟨by simp [hquote.symm, h.noQuote], mt hpair.mp h.noPair, mt hend.mp h.noEnd⟩

theorem quotePlain_backslash {c : Char} {value : List Char} :
    QuotePlain ('\\' :: c :: value) ↔ c ≠ '"' ∧ c ≠ '\\' ∧ QuotePlain value := by
  have hend : c ≠ '\\' → (('\\' :: c :: value).getLast? = some '\\' ↔
      value.getLast? = some '\\') := by
    intro hc
    cases value with
    | nil => simp [hc]
    | cons d value => simp
  constructor
  · intro h
    have hc : c ≠ '\\' := by
      rintro rfl
      exact h.noPair ⟨[], value, rfl⟩
    have hvalue : QuotePlain (c :: value) :=
      ⟨fun hmem => h.noQuote (List.mem_cons_of_mem _ hmem),
        fun hpair => h.noPair (List.infix_cons hpair), by simpa using h.noEnd⟩
    obtain ⟨hquote, hplain⟩ := (quotePlain_cons hc).mp hvalue
    exact ⟨hquote, hc, hplain⟩
  · intro ⟨hquote, hc, h⟩
    have hvalue := (quotePlain_cons hc).mpr ⟨hquote, h⟩
    refine ⟨by simp [hvalue.noQuote], ?_, mt (hend hc).mp h.noEnd⟩
    intro hpair
    cases List.infix_cons_iff.mp hpair with
    | inl hfront => simp [List.cons_prefix_cons, hc.symm] at hfront
    | inr hinfix => exact hvalue.noPair hinfix

theorem not_quotePlain_backslash : ¬ QuotePlain ['\\'] := fun h => h.noEnd rfl

section Quoted

variable {pos : Nat} {c : Char} {text value rest : List Char} {cursor : Cursor}

/-- A quote closes the value. -/
theorem scanQuoted_quote : scanQuoted pos ('"' :: text) = .ok ([], ⟨pos + 1, text⟩) := by
  rw [scanQuoted.eq_def]
  rfl

/-- An ordinary character stands for itself. -/
theorem scanQuoted_char (hquote : c ≠ '"') (hback : c ≠ '\\') :
    scanQuoted pos (c :: text) =
      (scanQuoted (pos + c.utf8Size) text).map fun r => (c :: r.1, r.2) := by
  rw [scanQuoted.eq_def]
  simp only [hquote, hback, if_false]
  cases scanQuoted (pos + c.utf8Size) text <;> rfl

/-- A backslash hides in front of a quote or a backslash, and else stands for itself. -/
theorem scanQuoted_backslash :
    scanQuoted pos ('\\' :: c :: text) =
      (scanQuoted (pos + 1 + c.utf8Size) text).map fun r =>
        (if c = '"' ∨ c = '\\' then c :: r.1 else '\\' :: c :: r.1, r.2) := by
  rw [scanQuoted]
  simp only [Char.reduceEq, if_false, if_true]
  cases scanQuoted (pos + 1 + c.utf8Size) text with
  | error e => rfl
  | ok r =>
    by_cases hc : c = '"' ∨ c = '\\'
    · simp [hc, bind, Except.bind, Except.map]
    · simp [hc, bind, Except.bind, Except.map]

/-- A value that stands for itself is read back up to the closing quote. -/
theorem scanQuoted_plain (h : QuotePlain value) (pos : Nat) (rest : List Char) :
    Yields (scanQuoted pos (value ++ '"' :: rest)) value rest := by
  induction value using List.twoStepInduction generalizing pos with
  | nil => exact ⟨pos + 1, scanQuoted_quote⟩
  | singleton c =>
    have hback : c ≠ '\\' := by
      rintro rfl
      exact not_quotePlain_backslash h
    have hquote := ((quotePlain_cons hback).mp h).1
    exact ⟨pos + c.utf8Size + 1, by
      simp [scanQuoted_char hquote hback, scanQuoted_quote, Except.map]⟩
  | cons_cons c d value ih ih' =>
    by_cases hback : c = '\\'
    · subst hback
      obtain ⟨hquote, hd, hvalue⟩ := quotePlain_backslash.mp h
      obtain ⟨pos', hscan⟩ := ih hvalue (pos + 1 + d.utf8Size)
      exact ⟨pos', by simp [scanQuoted_backslash, hscan, hquote, hd, Except.map]⟩
    · obtain ⟨hquote, hvalue⟩ := (quotePlain_cons hback).mp h
      obtain ⟨pos', hscan⟩ := ih' d hvalue (pos + c.utf8Size)
      rw [List.cons_append] at hscan
      exact ⟨pos', by simp [scanQuoted_char hquote hback, hscan, Except.map]⟩

/-- Reading never makes up for a backslash it took: the result is not the text with
    backslashes put in front. -/
theorem scanQuoted_ne_backslashes (n : Nat)
    (h : scanQuoted pos (value ++ '"' :: rest) = .ok (text, cursor)) :
    text ≠ List.replicate (n + 1) '\\' ++ value := by
  induction value using List.twoStepInduction generalizing pos text cursor n with
  | nil =>
    obtain rfl := (Prod.mk.inj (Except.ok.inj (scanQuoted_quote.symm.trans h))).1
    simp [List.replicate_succ]
  | singleton c =>
    by_cases hquote : c = '"'
    · subst hquote
      obtain rfl := (Prod.mk.inj (Except.ok.inj (scanQuoted_quote.symm.trans h))).1
      simp
    by_cases hback : c = '\\'
    · -- the closing quote was taken for an escaped one
      subst hback
      rw [List.singleton_append, scanQuoted_backslash] at h
      obtain ⟨r, -, hr⟩ := exists_of_map_ok h
      obtain ⟨rfl, -⟩ := Prod.mk.inj hr
      simp [List.replicate_succ]
    · rw [List.singleton_append, scanQuoted_char hquote hback] at h
      obtain ⟨r, -, hr⟩ := exists_of_map_ok h
      obtain ⟨rfl, -⟩ := Prod.mk.inj hr
      simp [List.replicate_succ, hback]
  | cons_cons c d value ih ih' =>
    by_cases hquote : c = '"'
    · subst hquote
      obtain rfl := (Prod.mk.inj (Except.ok.inj (scanQuoted_quote.symm.trans h))).1
      simp
    by_cases hback : c = '\\'
    · subst hback
      rw [List.cons_append, List.cons_append, scanQuoted_backslash] at h
      obtain ⟨r, hscan, hr⟩ := exists_of_map_ok h
      obtain ⟨rfl, -⟩ := Prod.mk.inj hr
      by_cases hd : d = '\\'
      · -- one of two backslashes is gone, so the rest is two short
        subst hd
        have hrest := ih (n + 1) hscan
        simp only [or_true, if_true]
        intro heq
        apply hrest
        rw [List.replicate_succ, List.cons_append] at heq
        rw [(List.cons.inj heq).2, List.replicate_succ' (n := n + 1), List.replicate_succ']
        simp
      · intro heq
        rw [List.replicate_succ, List.cons_append] at heq
        by_cases hdq : d = '"'
        · simp [hdq] at heq
        · -- the second character of the text is a backslash, `d` is none
          simp only [hdq, hd, or_self, if_false] at heq
          cases n with
          | zero => simp [hd] at heq
          | succ n => simp [List.replicate_succ, hd] at heq
    · rw [List.cons_append, scanQuoted_char hquote hback] at h
      obtain ⟨r, -, hr⟩ := exists_of_map_ok h
      obtain ⟨rfl, -⟩ := Prod.mk.inj hr
      simp [List.replicate_succ, hback]

/-- Only a value that stands for itself is read back. -/
theorem quotePlain_of_scanQuoted
    (h : scanQuoted pos (value ++ '"' :: rest) = .ok (value, cursor)) : QuotePlain value := by
  induction value using List.twoStepInduction generalizing pos cursor with
  | nil => exact quotePlain_nil
  | singleton c =>
    by_cases hquote : c = '"'
    · subst hquote
      cases (Prod.mk.inj (Except.ok.inj (scanQuoted_quote.symm.trans h))).1
    by_cases hback : c = '\\'
    · subst hback
      rw [List.singleton_append, scanQuoted_backslash] at h
      obtain ⟨r, -, hr⟩ := exists_of_map_ok h
      simp at hr
    · exact (quotePlain_cons hback).mpr ⟨hquote, quotePlain_nil⟩
  | cons_cons c d value ih ih' =>
    by_cases hquote : c = '"'
    · subst hquote
      cases (Prod.mk.inj (Except.ok.inj (scanQuoted_quote.symm.trans h))).1
    by_cases hback : c = '\\'
    · subst hback
      rw [List.cons_append, List.cons_append, scanQuoted_backslash] at h
      obtain ⟨r, hscan, hr⟩ := exists_of_map_ok h
      have hvalue := (Prod.mk.inj hr).1
      by_cases hd : d = '\\'
      · -- one of the two backslashes is missing and cannot come back
        subst hd
        simp only [or_true, if_true] at hvalue
        exact absurd (List.cons.inj hvalue).2 (scanQuoted_ne_backslashes 0 hscan)
      · by_cases hdq : d = '"'
        · simp [hdq] at hvalue
        · simp only [hdq, hd, or_self, if_false, List.cons.injEq, true_and] at hvalue
          rw [show r = (value, r.2) from Prod.ext hvalue rfl] at hscan
          exact quotePlain_backslash.mpr ⟨hdq, hd, ih hscan⟩
    · rw [List.cons_append, scanQuoted_char hquote hback] at h
      obtain ⟨r, hscan, hr⟩ := exists_of_map_ok h
      have hvalue := (List.cons.inj (Prod.mk.inj hr).1).2
      rw [show r = (d :: value, r.2) from Prod.ext hvalue rfl] at hscan
      exact (quotePlain_cons hback).mpr ⟨hquote, ih' d hscan⟩

end Quoted

/-! ## Regular expressions -/

/-- The body that ended before a slash ends before the next slash that follows it. -/
theorem scanRegex_append_slash {text body rest : List Char} {depth : Nat}
    (h : scanRegex depth text = .ok (body, '/' :: rest)) (rest' : List Char) :
    scanRegex depth (body ++ '/' :: rest') = .ok (body, '/' :: rest') := by
  fun_induction scanRegex depth text generalizing body with
  | case1 => cases h
  | case2 => cases h
  | case3 depth escaped text hsize ih =>
    obtain ⟨⟨body', r⟩, hscan, hr⟩ := exists_of_bind_ok h
    cases hr
    rw [List.cons_append, List.cons_append, scanRegex.eq_def]
    simp [hsize, ih hscan, bind, Except.bind]
  | case4 => cases h
  | case5 => cases h
  | case6 depth text hdepth _ ih =>
    obtain ⟨⟨body', r⟩, hscan, hr⟩ := exists_of_bind_ok h
    cases hr
    rw [List.cons_append, scanRegex.eq_def]
    simp [hdepth, ih hscan, bind, Except.bind]
  | case7 depth text _ _ ih =>
    obtain ⟨⟨body', r⟩, hscan, hr⟩ := exists_of_bind_ok h
    cases hr
    rw [List.cons_append, scanRegex.eq_def]
    simp [ih hscan, bind, Except.bind]
  | case8 depth c text hback hopen hclose hstop =>
    cases h
    rw [List.nil_append, scanRegex.eq_def]
    simp [hstop.2]
  | case9 depth c text hback hopen hclose hgo ih =>
    obtain ⟨⟨body', r⟩, hscan, hr⟩ := exists_of_bind_ok h
    cases hr
    rw [List.cons_append, scanRegex.eq_def]
    simp only [hback, hopen, hclose, hgo, if_false, ih hscan]
    rfl

/-- The scan of a regular expression goes on to a slash or to the end. -/
theorem scanRegex_rest {text body rest : List Char} {depth : Nat}
    (h : scanRegex depth text = .ok (body, rest)) : rest = [] ∨ ∃ r, rest = '/' :: r := by
  fun_induction scanRegex depth text generalizing body with
  | case1 | case2 =>
    cases h
    exact .inl rfl
  | case4 | case5 => cases h
  | case8 depth c text _ _ _ hstop =>
    cases h
    exact .inr ⟨text, by rw [hstop.1]⟩
  | case3 _ _ _ _ ih | case6 _ _ _ _ ih | case7 _ _ _ _ ih | case9 _ _ _ _ _ _ _ ih =>
    obtain ⟨⟨body', r⟩, hscan, hr⟩ := exists_of_bind_ok h
    cases hr
    exact ih hscan

/-! ## Primary values -/

/-- The scan of a primary value goes on to a closing parenthesis or to the end. -/
theorem scanPrimary_rest {text value rest : List Char} {depth : Nat}
    (h : scanPrimary depth text = .ok (value, rest)) :
    text = value ++ rest ∧ (rest = [] ∨ ∃ r, rest = ')' :: r) := by
  fun_induction scanPrimary depth text generalizing value with
  | case1 => cases h; simp
  | case2 => cases h
  | case5 => cases h; simp
  | case3 _ _ _ ih | case4 _ _ _ _ ih | case6 _ _ _ _ _ ih =>
    obtain ⟨⟨value', r⟩, hscan, hr⟩ := exists_of_bind_ok h
    cases hr
    obtain ⟨rfl, hrest⟩ := ih hscan
    exact ⟨rfl, hrest⟩

/-- A character that is not a parenthesis is passed. -/
theorem scanPrimary_cons {c : Char} (hopen : c ≠ '(') (hclose : c ≠ ')') (depth : Nat)
    (text : List Char) :
    scanPrimary depth (c :: text) = (scanPrimary depth text).map fun r => (c :: r.1, r.2) := by
  rw [scanPrimary]
  simp only [hopen, hclose, if_false]
  cases scanPrimary depth text <;> rfl

theorem scanPrimary_append {pad : List Char} (hpad : ∀ c ∈ pad, c ≠ '(' ∧ c ≠ ')') (depth : Nat)
    (text : List Char) :
    scanPrimary depth (pad ++ text) =
      (scanPrimary depth text).map fun r => (pad ++ r.1, r.2) := by
  induction pad with
  | nil => cases h : scanPrimary depth text <;> simp [h, Except.map]
  | cons c pad ih =>
    obtain ⟨hc, hpad'⟩ := List.forall_mem_cons.mp hpad
    rw [List.cons_append, scanPrimary_cons hc.1 hc.2, ih hpad']
    cases scanPrimary depth text <;> rfl

/-- A value that was followed by a padding and its closing parenthesis may be followed by
    the parenthesis at once. -/
theorem scanPrimary_unpad {value pad rest : List Char} {depth : Nat}
    (hpad : ∀ c ∈ pad, c ≠ '(' ∧ c ≠ ')')
    (h : scanPrimary depth (value ++ (pad ++ ')' :: rest)) = .ok (value ++ pad, ')' :: rest))
    (rest' : List Char) :
    scanPrimary depth (value ++ ')' :: rest') = .ok (value, ')' :: rest') := by
  induction value generalizing depth with
  | nil =>
    rw [List.nil_append, scanPrimary_append hpad] at h
    obtain ⟨⟨value, r⟩, hscan, hr⟩ := exists_of_map_ok h
    have hvalue : value = [] := by simpa using (Prod.mk.inj hr).1
    by_cases hdepth : 0 < depth
    · -- the parenthesis behind the padding would belong to the value
      rw [scanPrimary] at hscan
      simp only [Char.reduceEq, if_false, if_true, hdepth] at hscan
      obtain ⟨r', -, hr'⟩ := exists_of_bind_ok hscan
      rw [hvalue] at hr'
      cases hr'
    · rw [List.nil_append, scanPrimary]
      simp [hdepth]
  | cons c value ih =>
    rw [List.cons_append, scanPrimary] at h ⊢
    by_cases hopen : c = '('
    · simp only [hopen, if_true] at h ⊢
      by_cases hdepth : depth = maxDepth
      · rw [if_pos hdepth] at h
        cases h
      · rw [if_neg hdepth] at h ⊢
        obtain ⟨r, hscan, hr⟩ := exists_of_bind_ok h
        obtain rfl : r = (value ++ pad, ')' :: rest) := by
          cases r
          simpa using hr
        rw [ih hscan]
        rfl
    by_cases hclose : c = ')'
    · simp only [hclose, Char.reduceEq, if_false, if_true] at h ⊢
      by_cases hdepth : 0 < depth
      · rw [if_pos hdepth] at h ⊢
        obtain ⟨r, hscan, hr⟩ := exists_of_bind_ok h
        obtain rfl : r = (value ++ pad, ')' :: rest) := by
          cases r
          simpa using hr
        rw [ih hscan]
        rfl
      · rw [if_neg hdepth] at h
        cases h
    · simp only [hopen, hclose, if_false] at h ⊢
      obtain ⟨r, hscan, hr⟩ := exists_of_bind_ok h
      obtain rfl : r = (value ++ pad, ')' :: rest) := by
        cases r
        simpa using hr
      rw [ih hscan]
      rfl

end Remo
