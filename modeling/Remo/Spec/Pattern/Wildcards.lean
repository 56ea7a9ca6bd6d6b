import Remo.ForStd.Glob
import Remo.Native.Pattern.Matcher

/-!
# Normalised wildcards

Before a glob goes to the matcher, a single star is doubled unless a globstar stands beside it.
The rewriting goes byte by byte and takes every byte for a character, so it respects the syntax
of the pattern but not the characters of its text.

Key results:
* `normalizeWildcards_render`   the rewritten text is that of a rewritten pattern
* `Glob.Pattern.language_normalize` the rewriting keeps the language of an ASCII pattern
* `wildcardMatch_agrees_iff`    it keeps the language of a pattern exactly when that is ASCII
-/

namespace Remo

open Glob (Pattern Alternatives)

/-! ## Bytes and characters -/

/-- The text begins with the given one exactly when its bytes do. -/
theorem bytes_prefix_iff {cs ds : List Char} : Utf8.bytes cs <+: Utf8.bytes ds ↔ cs <+: ds := by
  constructor
  · intro h
    obtain ⟨rest, hrest⟩ := h
    induction cs generalizing ds with
    | nil => exact List.nil_prefix
    | cons c cs ih =>
      rw [Utf8.bytes_cons, List.append_assoc] at hrest
      obtain ⟨ds', rfl, hrest'⟩ := Utf8.eq_cons_of_bytes hrest.symm
      rw [List.cons_prefix_cons]
      exact ⟨rfl, ih hrest'⟩
  · intro h
    obtain ⟨rest, rfl⟩ := h
    rw [Utf8.bytes_append]
    exact List.prefix_append _ _

/-- The text ends with the given one exactly when its bytes do. -/
theorem bytes_suffix_iff {cs ds : List Char} : Utf8.bytes cs <:+ Utf8.bytes ds ↔ cs <:+ ds := by
  constructor
  · intro h
    cases cs with
    | nil => exact List.nil_suffix
    | cons c cs =>
      obtain ⟨before, hbefore⟩ := h
      obtain ⟨first, tail, hc, hfirst, -⟩ := Utf8.encodeChar_eq_cons c
      have hcut : Utf8.bytes ds = before ++ first :: (tail ++ Utf8.bytes cs) := by
        rw [← hbefore, Utf8.bytes_cons, hc]
        rfl
      obtain ⟨ds₁, ds₂, rfl, -, hds₂⟩ := Utf8.split_of_first hcut hfirst
      have hsame : Utf8.bytes ds₂ = Utf8.bytes (c :: cs) := by
        rw [← hds₂, Utf8.bytes_cons, hc]
        rfl
      rw [Utf8.bytes_inj hsame]
      exact List.suffix_append _ _
  · intro h
    obtain ⟨before, rfl⟩ := h
    rw [Utf8.bytes_append]
    exact List.suffix_append _ _

/-- The first byte of a text is a star exactly when its first character is. -/
theorem star_prefix_iff {cs : List Char} : [star] <+: Utf8.bytes cs ↔ ['*'] <+: cs :=
  @bytes_prefix_iff ['*'] cs

theorem slashGlobstar_prefix_iff {cs : List Char} :
    (Utf8.bytes cs).take 3 == [slash, star, star] ↔ ['/', '*', '*'] <+: cs := by
  rw [← bytes_prefix_iff, beq_iff_eq, List.prefix_iff_eq_take]
  exact eq_comm

theorem globstarSlash_suffix_iff {cs : List Char} :
    (Utf8.bytes cs).reverse.take 3 == [slash, star, star] ↔ ['*', '*', '/'] <:+ cs := by
  rw [← bytes_suffix_iff, ← List.reverse_prefix, beq_iff_eq, List.prefix_iff_eq_take]
  exact eq_comm

/-- The characters that the bytes of a character are taken for. -/
def latin1 (c : Char) : List Char := (String.utf8EncodeChar c).map fun b => Char.ofNat b.toNat

theorem latin1_ascii {c : Char} (h : c.toNat < 128) : latin1 c = [c] := by
  have hval : c.val.toNat = c.toNat := rfl
  rw [latin1, Utf8.encodeChar_ascii h, List.map_singleton, UInt32.toNat_toUInt8,
    Nat.mod_eq_of_lt (by omega), hval, Char.ofNat_toNat]

theorem length_latin1 (c : Char) : (latin1 c).length = c.utf8Size := by
  rw [latin1, List.length_map, String.length_utf8EncodeChar]

/-! ## The loop -/

/-- Bytes that are no stars are read one by one. -/
theorem normalizeFrom_bytes {bs : List UInt8} (h : star ∉ bs) (before rest : List UInt8) :
    normalizeFrom before (bs ++ rest) =
      bs.map (fun b => Char.ofNat b.toNat) ++ normalizeFrom (bs.reverse ++ before) rest := by
  induction bs generalizing before with
  | nil => rfl
  | cons b bs ih =>
    have hb : b ≠ star := fun heq => h (heq ▸ List.mem_cons_self)
    have hbs : star ∉ bs := fun hmem => h (List.mem_cons_of_mem _ hmem)
    rw [List.cons_append, normalizeFrom]
    simp [hb, ih hbs]

/-- A character other than the star is read as the characters of its bytes. -/
theorem normalizeFrom_char {c : Char} (h : c ≠ '*') (before rest : List UInt8) :
    normalizeFrom before (String.utf8EncodeChar c ++ rest) =
      latin1 c ++ normalizeFrom ((String.utf8EncodeChar c).reverse ++ before) rest :=
  normalizeFrom_bytes (fun hmem => h (Utf8.eq_of_mem_encodeChar hmem encodeChar_star)) before rest

/-- A run of stars is read at once. -/
theorem normalizeFrom_stars (before : List UInt8) (extra : Nat) {rest : List UInt8}
    (h : ¬[star] <+: rest) :
    normalizeFrom before (List.replicate (extra + 1) star ++ rest) =
      starRun before (extra + 1) rest ++
        normalizeFrom (List.replicate (extra + 1) star ++ before) rest := by
  have hrest : rest.takeWhile (· == star) = [] ∧ rest.dropWhile (· == star) = rest := by
    cases rest with
    | nil => exact ⟨rfl, rfl⟩
    | cons b rest =>
      have hb : b ≠ star := by
        intro heq
        exact h (by simp [heq])
      simp [hb]
  have hrun : (List.replicate extra star ++ rest).takeWhile (· == star) =
      List.replicate extra star := by
    rw [List.takeWhile_append_of_pos (by simp), hrest.1, List.append_nil]
  have hafter : (List.replicate extra star ++ rest).dropWhile (· == star) = rest := by
    rw [List.dropWhile_append_of_pos (by simp), hrest.2]
  rw [List.replicate_succ, List.cons_append, normalizeFrom]
  simp only [if_true, hrun, hafter, List.length_replicate]
  congr 2
  rw [← List.replicate_succ, List.replicate_succ', List.append_assoc]
  rfl

/-! ## The rewritten pattern -/

/-- What stands directly before a position. -/
inductive Behind where
  | nothing
  | globstar
  | globstarSlash
deriving Repr, DecidableEq

/-- What stands at the end of a text. -/
def behind (before : List Char) : Behind :=
  if ['*', '*', '/'] <:+ before then .globstarSlash
  else if ['*', '*'] <:+ before then .globstar
  else .nothing

/-- The pattern begins with a separator and a globstar. -/
def startsGlobstar : Pattern → Bool
  | .plain c (.stars (_ + 1) _) => c == '/'
  | _ => false

/-- A character as the characters of its bytes, in front of a pattern. -/
def plainBytes (c : Char) (rest : Pattern) : Pattern :=
  (latin1 c).foldr .plain rest

/-- The construct with its characters taken byte by byte. -/
def specialBytes (sign : Char) (text : List Char) (rest : Pattern) : Pattern :=
  match (sign :: text).flatMap latin1 with
  | [] => rest
  | sign' :: text' => .special sign' text' rest

mutual

/-- What the rewriting makes of a pattern that stands behind `q`. -/
def normalizePattern (q : Behind) : Pattern → Pattern
  | .done => .done
  | .stars 0 rest =>
    .stars (if q = .globstarSlash ∨ startsGlobstar rest = true then 0 else 1)
      (normalizePattern .nothing rest)
  | .stars (extra + 1) rest => .stars (extra + 1) (normalizePattern .globstar rest)
  | .plain c rest =>
    plainBytes c
      (normalizePattern (if q = .globstar ∧ c = '/' then .globstarSlash else .nothing) rest)
  | .special sign text rest => specialBytes sign text (normalizePattern .nothing rest)
  | .braces alternatives rest =>
    .braces (normalizeAlternatives alternatives) (normalizePattern .nothing rest)

def normalizeAlternatives : Alternatives → Alternatives
  | .last p => .last (normalizePattern .nothing p)
  | .more p others => .more (normalizePattern .nothing p) (normalizeAlternatives others)

end

theorem render_plainBytes (c : Char) (rest : Pattern) :
    (plainBytes c rest).render = latin1 c ++ rest.render := by
  unfold plainBytes
  induction latin1 c with
  | nil => rfl
  | cons d ds ih => rw [List.foldr_cons, Pattern.render, ih, List.cons_append]

theorem render_specialBytes (sign : Char) (text : List Char) (rest : Pattern) :
    (specialBytes sign text rest).render = (sign :: text).flatMap latin1 ++ rest.render := by
  unfold specialBytes
  cases (sign :: text).flatMap latin1 <;> rfl

/-! ## What stands before a position -/

theorem concat_suffix_concat {ds before : List Char} {d c : Char} :
    ds ++ [d] <:+ before ++ [c] ↔ d = c ∧ ds <:+ before := by
  rw [List.suffix_concat_iff]
  constructor
  · intro h
    rcases h with h | ⟨t, ht, hsuffix⟩
    · simp at h
    · obtain ⟨rfl, hd⟩ := List.append_inj' ht rfl
      exact ⟨List.singleton_inj.mp hd, hsuffix⟩
  · intro h
    exact .inr ⟨ds, by rw [h.1], h.2⟩

theorem globstarSlash_suffix_concat {before : List Char} {c : Char} :
    ['*', '*', '/'] <:+ before ++ [c] ↔ '/' = c ∧ ['*', '*'] <:+ before :=
  @concat_suffix_concat ['*', '*'] before '/' c

theorem globstar_suffix_concat {before : List Char} {c : Char} :
    ['*', '*'] <:+ before ++ [c] ↔ '*' = c ∧ ['*'] <:+ before :=
  @concat_suffix_concat ['*'] before '*' c

theorem star_suffix_concat {before : List Char} {c : Char} : ['*'] <:+ before ++ [c] ↔ '*' = c := by
  rw [show ['*'] = [] ++ ['*'] from rfl, concat_suffix_concat]
  simp

/-- A character that is neither star nor separator. -/
theorem behind_concat {before : List Char} {c : Char} (hstar : c ≠ '*') (hslash : c ≠ '/') :
    behind (before ++ [c]) = .nothing := by
  simp only [behind, globstarSlash_suffix_concat, globstar_suffix_concat]
  simp [hstar.symm, hslash.symm]

theorem behind_eq_globstar_iff {before : List Char} :
    behind before = .globstar ↔ ['*', '*'] <:+ before := by
  unfold behind
  by_cases h : ['*', '*', '/'] <:+ before
  · rw [if_pos h]
    obtain ⟨front, rfl⟩ := h
    have hcut : front ++ ['*', '*', '/'] = (front ++ ['*', '*']) ++ ['/'] := by simp
    rw [hcut, globstar_suffix_concat]
    simp
  · rw [if_neg h]
    by_cases h' : ['*', '*'] <:+ before <;> simp [h']

theorem behind_slash (before : List Char) :
    behind (before ++ ['/']) = if behind before = .globstar then .globstarSlash else .nothing := by
  simp only [behind_eq_globstar_iff]
  simp only [behind, globstarSlash_suffix_concat, globstar_suffix_concat]
  simp

theorem behind_plain {before : List Char} {c : Char} (hstar : c ≠ '*') :
    behind (before ++ [c]) =
      if behind before = .globstar ∧ c = '/' then .globstarSlash else .nothing := by
  by_cases hslash : c = '/'
  · subst hslash
    simp [behind_slash]
  · simp [behind_concat hstar hslash, hslash]

theorem behind_star {before : List Char} (h : ¬['*'] <:+ before) :
    behind (before ++ ['*']) = .nothing := by
  simp only [behind, globstarSlash_suffix_concat, globstar_suffix_concat]
  simp [h]

theorem behind_run (before : List Char) (extra : Nat) :
    behind (before ++ List.replicate (extra + 2) '*') = .globstar := by
  rw [behind_eq_globstar_iff, List.replicate_succ', List.replicate_succ', ← List.append_assoc,
    globstar_suffix_concat, ← List.append_assoc, star_suffix_concat]
  exact ⟨rfl, rfl⟩

/-- A construct without stars that does not begin with a separator. -/
theorem behind_special (before : List Char) {sign : Char} {text : List Char} (hsign : sign ≠ '/')
    (hstar : '*' ∉ sign :: text) : behind (before ++ sign :: text) = .nothing := by
  rcases List.eq_nil_or_concat' text with rfl | ⟨front, c, rfl⟩
  · apply behind_concat _ hsign
    intro heq
    exact hstar (by simp [heq])
  · have hc : c ≠ '*' := fun heq => hstar (by simp [heq])
    have hcut : before ++ sign :: (front ++ [c]) = (before ++ sign :: front) ++ [c] := by simp
    have hinner : ¬['*', '*'] <:+ before ++ sign :: front := by
      intro h
      rcases List.eq_nil_or_concat' (sign :: front) with hnil | ⟨front', d, hd⟩
      · cases hnil
      · rw [hd, ← List.append_assoc, globstar_suffix_concat] at h
        apply hstar
        have hmem : '*' ∈ sign :: front := by
          rw [hd, h.1]
          simp
        simpa using Or.imp_right Or.inl (List.mem_cons.mp hmem)
    rw [hcut, behind_plain hc, if_neg]
    intro h
    exact hinner (behind_eq_globstar_iff.mp h.1)

/-! ## What stands behind a position -/

theorem star_prefix_render {p : Pattern} (h : p.WellFormed) {outer : List Char}
    (houter : ¬['*'] <+: outer) : ['*'] <+: p.render ++ outer ↔ p.startsWithStar = true := by
  cases p with
  | done => exact iff_of_false houter (by simp [Pattern.startsWithStar])
  | stars extra rest =>
    rw [Pattern.render, List.replicate_succ]
    simp [Pattern.startsWithStar]
  | plain c rest =>
    rw [Pattern.WellFormed] at h
    rw [Pattern.render]
    simp [Pattern.startsWithStar, h.1.symm]
  | special sign text rest =>
    rw [Pattern.WellFormed] at h
    have hsign : '*' ≠ sign := fun heq => h.2.1 (heq ▸ List.mem_cons_self)
    rw [Pattern.render]
    simp [Pattern.startsWithStar, hsign]
  | braces alternatives rest =>
    rw [Pattern.render]
    simp [Pattern.startsWithStar]

/-- Two stars follow exactly when the pattern begins with a globstar. -/
theorem globstar_prefix_render {p : Pattern} (h : p.WellFormed) {outer : List Char}
    (houter : ¬['*'] <+: outer) (c : Char) :
    (c = '/' ∧ ['*', '*'] <+: p.render ++ outer) ↔ startsGlobstar (.plain c p) = true := by
  have hone : ∀ cs : List Char, ['*', '*'] <+: cs → ['*'] <+: cs := fun cs hcs =>
    (List.prefix_append ['*'] ['*']).trans hcs
  cases p with
  | stars extra rest =>
    rw [Pattern.WellFormed] at h
    have hrest := star_prefix_render h.2 houter
    rw [h.1] at hrest
    rw [Pattern.render, List.replicate_succ, List.cons_append, List.cons_append,
      List.cons_prefix_cons]
    cases extra with
    | zero => simp [startsGlobstar, hrest]
    | succ extra => simp [startsGlobstar, List.replicate_succ]
  | done => simp [startsGlobstar, Pattern.render, mt (hone outer) houter]
  | plain d rest =>
    have hnot := mt (fun hcs => (star_prefix_render h houter).mp (hone _ hcs)) Bool.false_ne_true
    simp [startsGlobstar, hnot]
  | special sign text rest =>
    have hnot := mt (fun hcs => (star_prefix_render h houter).mp (hone _ hcs)) Bool.false_ne_true
    simp [startsGlobstar, hnot]
  | braces alternatives rest =>
    have hnot := mt (fun hcs => (star_prefix_render h houter).mp (hone _ hcs)) Bool.false_ne_true
    simp [startsGlobstar, hnot]

/-- A separator and a globstar follow exactly when the pattern says so. -/
theorem slashGlobstar_prefix_render {p : Pattern} (h : p.WellFormed) {outer : List Char}
    (hstar : ¬['*'] <+: outer) (hslash : ¬['/'] <+: outer) :
    ['/', '*', '*'] <+: p.render ++ outer ↔ startsGlobstar p = true := by
  cases p with
  | done =>
    apply iff_of_false
    · intro hprefix
      exact hslash ((List.prefix_append ['/'] ['*', '*']).trans hprefix)
    · simp [startsGlobstar]
  | stars extra rest =>
    rw [Pattern.render, List.replicate_succ]
    simp [startsGlobstar]
  | plain c rest =>
    rw [Pattern.WellFormed] at h
    rw [Pattern.render, List.cons_append, List.cons_prefix_cons,
      ← globstar_prefix_render h.2 hstar c, eq_comm]
  | special sign text rest =>
    rw [Pattern.WellFormed] at h
    rw [Pattern.render]
    simp [startsGlobstar, h.1.symm]
  | braces alternatives rest =>
    rw [Pattern.render]
    simp [startsGlobstar]

/-! ## The loop on the text of a pattern -/

theorem normalizeFrom_cons {c : Char} (h : c ≠ '*') (before cs : List Char) :
    normalizeFrom (Utf8.bytes before).reverse (Utf8.bytes (c :: cs)) =
      latin1 c ++ normalizeFrom (Utf8.bytes (before ++ [c])).reverse (Utf8.bytes cs) := by
  rw [Utf8.bytes_cons, normalizeFrom_char h]
  simp

theorem normalizeFrom_append {ds : List Char} (h : '*' ∉ ds) (before cs : List Char) :
    normalizeFrom (Utf8.bytes before).reverse (Utf8.bytes (ds ++ cs)) =
      ds.flatMap latin1 ++
        normalizeFrom (Utf8.bytes (before ++ ds)).reverse (Utf8.bytes cs) := by
  induction ds generalizing before with
  | nil => simp
  | cons d ds ih =>
    have hd : d ≠ '*' := fun heq => h (heq ▸ List.mem_cons_self)
    rw [List.cons_append, normalizeFrom_cons hd, ih fun hmem => h (List.mem_cons_of_mem _ hmem)]
    simp

theorem bytes_stars (n : Nat) : Utf8.bytes (List.replicate n '*') = List.replicate n star := by
  induction n with
  | zero => rfl
  | succ n ih => rw [List.replicate_succ, Utf8.bytes_cons, encodeChar_star, ih]; rfl

/-- A run of stars, rewritten with a view to what stands around it. -/
theorem normalizeFrom_run (before : List Char) (extra : Nat) {cs : List Char}
    (h : ¬['*'] <+: cs) :
    normalizeFrom (Utf8.bytes before).reverse
        (Utf8.bytes (List.replicate (extra + 1) '*' ++ cs)) =
      starRun (Utf8.bytes before).reverse (extra + 1) (Utf8.bytes cs) ++
        normalizeFrom (Utf8.bytes (before ++ List.replicate (extra + 1) '*')).reverse
          (Utf8.bytes cs) := by
  rw [Utf8.bytes_append, bytes_stars, normalizeFrom_stars _ _ (mt star_prefix_iff.mp h),
    Utf8.bytes_append, bytes_stars, List.reverse_append, List.reverse_replicate]

theorem starRun_one (before cs : List Char) :
    starRun (Utf8.bytes before).reverse 1 (Utf8.bytes cs) =
      if behind before = .globstarSlash ∨ ['/', '*', '*'] <+: cs then ['*'] else ['*', '*'] := by
  have hbehind : behind before = .globstarSlash ↔ ['*', '*', '/'] <:+ before := by
    unfold behind
    by_cases h : ['*', '*', '/'] <:+ before
    · simp [h]
    · rw [if_neg h]
      by_cases h' : ['*', '*'] <:+ before <;> simp [h, h']
  have hor : (((Utf8.bytes before).reverse.take 3 == [slash, star, star]) ||
      ((Utf8.bytes cs).take 3 == [slash, star, star])) = true ↔
      behind before = .globstarSlash ∨ ['/', '*', '*'] <+: cs := by
    rw [Bool.or_eq_true, globstarSlash_suffix_iff, slashGlobstar_prefix_iff, hbehind]
  rw [starRun, if_neg (by omega)]
  exact if_congr hor rfl rfl

/-- The loop rewrites the text of a pattern into that of the rewritten pattern, whatever
    stands before and behind it. -/
theorem normalizeFrom_render :
    (∀ p : Pattern, p.WellFormed → ∀ before outer : List Char,
      (p.startsWithStar = true → ¬['*'] <:+ before) → ¬['*'] <+: outer → ¬['/'] <+: outer →
      normalizeFrom (Utf8.bytes before).reverse (Utf8.bytes (p.render ++ outer)) =
        (normalizePattern (behind before) p).render ++
          normalizeFrom (Utf8.bytes (before ++ p.render)).reverse (Utf8.bytes outer)) ∧
    ∀ a : Alternatives, a.WellFormed → ∀ before outer : List Char,
      ¬['*'] <:+ before → behind before = .nothing →
      normalizeFrom (Utf8.bytes before).reverse (Utf8.bytes (a.render ++ '}' :: outer)) =
        (normalizeAlternatives a).render ++
          normalizeFrom (Utf8.bytes (before ++ a.render)).reverse (Utf8.bytes ('}' :: outer)) := by
  apply Pattern.induction
  · intro _ before outer _ _ _
    simp [Pattern.render, normalizePattern]
  · intro extra rest ih hwell before outer hbefore hstar hslash
    rw [Pattern.WellFormed] at hwell
    have hnext : ¬['*'] <+: rest.render ++ outer := by
      rw [star_prefix_render hwell.2 hstar, hwell.1]
      exact Bool.false_ne_true
    have hrest := ih hwell.2 (before ++ List.replicate (extra + 1) '*') outer
      (by simp [hwell.1]) hstar hslash
    rw [Pattern.render, List.append_assoc, normalizeFrom_run before extra hnext, hrest]
    cases extra with
    | zero =>
      have hbehind : behind (before ++ List.replicate (0 + 1) '*') = .nothing :=
        behind_star (hbefore rfl)
      rw [starRun_one, hbehind, normalizePattern]
      by_cases hkept : behind before = .globstarSlash ∨ startsGlobstar rest = true
      · rw [if_pos hkept, if_pos ((or_congr_right
          (slashGlobstar_prefix_render hwell.2 hstar hslash)).mpr hkept), Pattern.render]
        simp
      · rw [if_neg hkept, if_neg (mt (or_congr_right
          (slashGlobstar_prefix_render hwell.2 hstar hslash)).mp hkept), Pattern.render]
        simp [List.replicate]
    | succ extra =>
      rw [behind_run, normalizePattern, Pattern.render, starRun, if_pos (by omega)]
      simp
  · intro c rest ih hwell before outer _ hstar hslash
    rw [Pattern.WellFormed] at hwell
    have hrest := ih hwell.2 (before ++ [c]) outer
      (by intro _; rw [star_suffix_concat]; exact hwell.1.symm) hstar hslash
    rw [Pattern.render, List.cons_append, normalizeFrom_cons hwell.1, hrest,
      behind_plain hwell.1, normalizePattern, render_plainBytes]
    simp
  · intro sign text rest ih hwell before outer _ hstar hslash
    rw [Pattern.WellFormed] at hwell
    have hlast : ¬['*'] <:+ before ++ sign :: text := by
      intro h
      have hsub : ['*'] <:+ sign :: text :=
        List.suffix_of_suffix_length_le h (List.suffix_append _ _) (by simp)
      exact hwell.2.1 (hsub.subset (List.mem_singleton.mpr rfl))
    have hrest := ih hwell.2.2 (before ++ sign :: text) outer (fun _ => hlast) hstar hslash
    rw [behind_special before hwell.1 hwell.2.1] at hrest
    rw [Pattern.render, List.append_assoc, normalizeFrom_append hwell.2.1, hrest,
      normalizePattern, render_specialBytes]
    simp
  · intro alternatives rest iha ih hwell before outer _ hstar hslash
    rw [Pattern.WellFormed] at hwell
    have hinner := iha hwell.1 (before ++ ['{']) (rest.render ++ outer)
      (by rw [star_suffix_concat]; decide) (behind_concat (by decide) (by decide))
    have hrest := ih hwell.2 (before ++ ['{'] ++ alternatives.render ++ ['}']) outer
      (by intro _; rw [star_suffix_concat]; decide) hstar hslash
    rw [behind_concat (by decide) (by decide)] at hrest
    rw [Pattern.render, List.append_assoc, List.cons_append, normalizeFrom_cons (by decide),
      List.cons_append, hinner, normalizeFrom_cons (by decide), hrest, normalizePattern,
      Pattern.render, latin1_ascii (by decide), latin1_ascii (by decide)]
    simp
  · intro p ih hwell before outer hbefore hbehind
    rw [Alternatives.WellFormed] at hwell
    have hp := ih hwell before ('}' :: outer) (fun _ => hbefore) (by simp) (by simp)
    rw [Alternatives.render, hp, hbehind, normalizeAlternatives, Alternatives.render]
  · intro p others ihp ih hwell before outer hbefore hbehind
    rw [Alternatives.WellFormed] at hwell
    have hp := ihp hwell.1 before (',' :: (others.render ++ '}' :: outer)) (fun _ => hbefore)
      (by simp) (by simp)
    have hothers := ih hwell.2 (before ++ p.render ++ [',']) outer
      (by rw [star_suffix_concat]; decide) (behind_concat (by decide) (by decide))
    rw [Alternatives.render, List.append_assoc, List.cons_append, hp,
      normalizeFrom_cons (by decide), hothers, hbehind, normalizeAlternatives,
      Alternatives.render, latin1_ascii (by decide)]
    simp

/-- The rewritten text is that of the rewritten pattern. -/
theorem normalizeWildcards_render {p : Pattern} (h : p.WellFormed) :
    normalizeWildcards (String.ofList p.render) =
      String.ofList (normalizePattern .nothing p).render := by
  have hloop := normalizeFrom_render.1 p h [] [] (by simp) (by simp) (by simp)
  have hbehind : behind [] = .nothing := rfl
  rw [List.append_nil, hbehind, Utf8.bytes_nil, List.reverse_nil] at hloop
  rw [normalizeWildcards, String.toList_ofList]
  change String.ofList (normalizeFrom [] (Utf8.bytes p.render)) = _
  rw [hloop, normalizeFrom, List.append_nil]

/-! ## The language of the rewritten pattern -/

/-- Every character of the text is ASCII. -/
def AsciiText (cs : List Char) : Prop := ∀ c ∈ cs, c.toNat < 128

/-- What a matcher reads: a longer run of stars crosses separators, a single star does not. -/
def matcherLanguage (meaning : List Char → Language Char) (p : Pattern) : Language Char :=
  p.language meaning Glob.segment

/-- What a pattern says: every star stands for any text, every plain character for itself. -/
def declaredLanguage (meaning : List Char → Language Char) (p : Pattern) : Language Char :=
  p.language meaning ⊤

/-- The texts in front of a position, as far as they matter. -/
def Behind.language : Behind → Language Char
  | .nothing => 1
  | .globstar => ⊤
  | .globstarSlash => ⊤ * {['/']}

theorem flatMap_latin1 {cs : List Char} (h : AsciiText cs) : cs.flatMap latin1 = cs := by
  induction cs with
  | nil => rfl
  | cons c cs ih =>
    rw [List.flatMap_cons, latin1_ascii (h c List.mem_cons_self),
      ih fun d hd => h d (List.mem_cons_of_mem _ hd)]
    rfl

theorem specialBytes_ascii {sign : Char} {text : List Char} (h : AsciiText (sign :: text))
    (rest : Pattern) : specialBytes sign text rest = .special sign text rest := by
  unfold specialBytes
  rw [flatMap_latin1 h]

section Language

variable (meaning : List Char → Language Char)

/-- In front of a separator and a globstar, a star need not cross separators. -/
theorem segment_mul_of_startsGlobstar {p : Pattern} (h : startsGlobstar p = true)
    (hascii : AsciiText p.render) :
    Glob.segment * matcherLanguage meaning (normalizePattern .nothing p) =
      ⊤ * matcherLanguage meaning (normalizePattern .nothing p) := by
  unfold startsGlobstar at h
  split at h
  · rename_i c extra rest
    rw [beq_iff_eq] at h
    subst h
    have hslash : latin1 '/' = ['/'] := latin1_ascii (by decide)
    have hlanguage : matcherLanguage meaning
        (normalizePattern .nothing (.plain '/' (.stars (extra + 1) rest))) =
        {['/']} * (⊤ * matcherLanguage meaning (normalizePattern .globstar rest)) := by
      simp [normalizePattern, plainBytes, hslash, matcherLanguage, Pattern.language,
        Glob.runLanguage]
    rw [hlanguage, ← mul_assoc, ← mul_assoc, ← mul_assoc, ← mul_assoc,
      Glob.segment_slash_globstar]
  · cases h

/-- The rewriting keeps the language of an ASCII pattern, read behind what stands before it. -/
theorem language_normalizePattern :
    (∀ p : Pattern, AsciiText p.render → ∀ q : Behind,
      q.language * matcherLanguage meaning (normalizePattern q p) =
        q.language * declaredLanguage meaning p) ∧
    ∀ a : Alternatives, AsciiText a.render →
      (normalizeAlternatives a).language meaning Glob.segment = a.language meaning ⊤ := by
  apply Pattern.induction
  · intro _ q
    rfl
  · intro extra rest ih hascii q
    have hrest : AsciiText rest.render := fun c hc => hascii c (by
      rw [Pattern.render]
      exact List.mem_append_right _ hc)
    cases extra with
    | zero =>
      have hnothing := ih hrest .nothing
      simp only [Behind.language, one_mul] at hnothing
      have hdeclared : declaredLanguage meaning (.stars 0 rest) =
          ⊤ * declaredLanguage meaning rest := rfl
      rw [normalizePattern, hdeclared]
      by_cases hkept : q = .globstarSlash ∨ startsGlobstar rest = true
      · rw [if_pos hkept]
        have hmatcher : matcherLanguage meaning (.stars 0 (normalizePattern .nothing rest)) =
            Glob.segment * matcherLanguage meaning (normalizePattern .nothing rest) := rfl
        rw [hmatcher]
        rcases hkept with rfl | hstarts
        · rw [Behind.language, ← mul_assoc, Glob.globstar_slash_segment, mul_assoc, hnothing]
        · rw [segment_mul_of_startsGlobstar meaning hstarts hrest, hnothing]
      · rw [if_neg hkept]
        have hmatcher : matcherLanguage meaning (.stars 1 (normalizePattern .nothing rest)) =
            ⊤ * matcherLanguage meaning (normalizePattern .nothing rest) := rfl
        rw [hmatcher, hnothing]
    | succ extra =>
      have hglobstar := ih hrest .globstar
      rw [normalizePattern]
      exact congrArg (q.language * ·) hglobstar
  · intro c rest ih hascii q
    have hc : c.toNat < 128 := hascii c (by rw [Pattern.render]; exact List.mem_cons_self)
    have hrest : AsciiText rest.render := fun d hd => hascii d (by
      rw [Pattern.render]
      exact List.mem_cons_of_mem _ hd)
    have hmatcher : ∀ p, matcherLanguage meaning (plainBytes c p) =
        {[c]} * matcherLanguage meaning p := by
      intro p
      rw [plainBytes, latin1_ascii hc]
      rfl
    have hdeclared : declaredLanguage meaning (.plain c rest) =
        {[c]} * declaredLanguage meaning rest := rfl
    rw [normalizePattern, hmatcher, hdeclared]
    by_cases hglobstar : q = .globstar ∧ c = '/'
    · obtain ⟨rfl, rfl⟩ := hglobstar
      have hslash := ih hrest .globstarSlash
      simp only [Behind.language, mul_assoc] at hslash
      exact hslash
    · have hnothing := ih hrest .nothing
      simp only [Behind.language, one_mul] at hnothing
      rw [if_neg hglobstar, hnothing]
  · intro sign text rest ih hascii q
    have htext : AsciiText (sign :: text) := fun d hd => hascii d (by
      rw [Pattern.render]
      exact List.mem_append_left _ hd)
    have hrest : AsciiText rest.render := fun d hd => hascii d (by
      rw [Pattern.render]
      exact List.mem_append_right _ hd)
    have hnothing := ih hrest .nothing
    simp only [Behind.language, one_mul] at hnothing
    rw [normalizePattern, specialBytes_ascii htext]
    show q.language * (meaning (sign :: text) * _) = q.language * (meaning (sign :: text) * _)
    exact congrArg (fun l => q.language * (meaning (sign :: text) * l)) hnothing
  · intro alternatives rest iha ih hascii q
    rw [Pattern.render] at hascii
    have hinner : AsciiText alternatives.render := fun d hd => hascii d (by simp [hd])
    have hrest : AsciiText rest.render := fun d hd => hascii d (by simp [hd])
    have hnothing := ih hrest .nothing
    simp only [Behind.language, one_mul] at hnothing
    rw [normalizePattern]
    show q.language * (_ * _) = q.language * (_ * _)
    exact congrArg₂ (fun l m => q.language * (l * m)) (iha hinner) hnothing
  · intro p ih hascii
    have hnothing := ih hascii .nothing
    simp only [Behind.language, one_mul] at hnothing
    exact hnothing
  · intro p others ihp ih hascii
    rw [Alternatives.render] at hascii
    have hp := ihp (fun d hd => hascii d (by simp [hd])) .nothing
    simp only [Behind.language, one_mul] at hp
    exact congrArg₂ (· + ·) hp (ih fun d hd => hascii d (by simp [hd]))

end Language

/-! ## Agreement -/

/-- The matcher decides the language of the pattern it is given. -/
def GlobDecides (engine : PatternEngine) (meaning : List Char → Language Char) (p : Pattern) : Prop :=
  ∀ value : String, engine.globMatch (String.ofList p.render) value = true ↔
    value.toList ∈ matcherLanguage meaning p

/-- Whatever the matcher's own constructs mean: with a matcher that decides the rewritten
    pattern, `wildcard_match` accepts the values the pattern says. -/
def MatchesAsDeclared (p : Pattern) : Prop :=
  ∀ (engine : PatternEngine) (meaning : List Char → Language Char),
    GlobDecides engine meaning (normalizePattern .nothing p) → ∀ value : String,
      wildcardMatch engine (String.ofList p.render) value = true ↔
        value.toList ∈ declaredLanguage meaning p

theorem matchesAsDeclared_of_ascii {p : Pattern} (h : p.WellFormed) (hascii : AsciiText p.render) :
    MatchesAsDeclared p := by
  intro engine meaning hdecides value
  have hlanguage := (language_normalizePattern meaning).1 p hascii .nothing
  simp only [Behind.language, one_mul] at hlanguage
  rw [wildcardMatch, normalizeWildcards_render h, hdecides value, hlanguage]

/-- Every construct stands for its own text. -/
def ownText (text : List Char) : Language Char := {text}

/-- Every character between braces is ASCII. -/
def BracesAscii : Pattern → Prop
  | .done => True
  | .stars _ rest => BracesAscii rest
  | .plain _ rest => BracesAscii rest
  | .special _ _ rest => BracesAscii rest
  | .braces alternatives rest => AsciiText alternatives.render ∧ BracesAscii rest

/-! ## The shortest text a pattern stands for -/

theorem length_le_flatMap_latin1 (cs : List Char) : cs.length ≤ (cs.flatMap latin1).length := by
  induction cs with
  | nil => exact Nat.le_refl 0
  | cons c cs ih =>
    have hpos := c.utf8Size_pos
    rw [List.flatMap_cons, List.length_append, length_latin1, List.length_cons]
    omega

/-- Taken byte by byte, a text that is not ASCII gets longer. -/
theorem length_lt_flatMap_latin1 {cs : List Char} (h : ¬AsciiText cs) :
    cs.length < (cs.flatMap latin1).length := by
  induction cs with
  | nil =>
    exfalso
    apply h
    intro c hc
    exact absurd hc List.not_mem_nil
  | cons c cs ih =>
    rw [List.flatMap_cons, List.length_append, length_latin1, List.length_cons]
    by_cases hc : c.toNat < 128
    · have hpos := c.utf8Size_pos
      have hlt := ih fun hcs => h fun d hd => (List.mem_cons.mp hd).elim (fun heq => heq ▸ hc)
        (hcs d)
      omega
    · have hle := length_le_flatMap_latin1 cs
      have hpos := c.utf8Size_pos
      have hone : c.utf8Size ≠ 1 := by
        rw [ne_eq, Char.utf8Size_eq_one_iff, UInt32.le_iff_toNat_le]
        have hval : c.val.toNat = c.toNat := rfl
        have hmax : (127 : UInt32).toNat = 127 := rfl
        omega
      omega

theorem matcherLanguage_plainBytes (meaning : List Char → Language Char) (c : Char) (p : Pattern) :
    matcherLanguage meaning (plainBytes c p) = {latin1 c} * matcherLanguage meaning p := by
  unfold plainBytes
  induction latin1 c with
  | nil => exact (one_mul _).symm
  | cons d ds ih =>
    have hcons : ({[d]} * {ds} : Language Char) = {d :: ds} := by
      rw [Language.mul_def]
      exact Set.image2_singleton
    rw [List.foldr_cons, ← hcons, mul_assoc, ← ih]
    rfl

theorem matcherLanguage_specialBytes (sign : Char) (text : List Char) (p : Pattern) :
    matcherLanguage ownText (specialBytes sign text p) =
      {(sign :: text).flatMap latin1} * matcherLanguage ownText p := by
  unfold specialBytes
  cases (sign :: text).flatMap latin1 with
  | nil => exact (one_mul _).symm
  | cons => rfl

/-- A pattern says something. -/
theorem declaredLanguage_nonempty :
    (∀ p : Pattern, ∃ v, v ∈ declaredLanguage ownText p) ∧
      ∀ a : Alternatives, ∃ v, v ∈ a.language ownText ⊤ := by
  apply Pattern.induction
  · exact ⟨[], rfl⟩
  · intro extra rest ih
    obtain ⟨v, hv⟩ := ih
    have hrun : [] ∈ Glob.runLanguage ⊤ extra := by
      unfold Glob.runLanguage
      split <;> exact Glob.mem_top []
    exact ⟨[] ++ v, Language.append_mem_mul hrun hv⟩
  · intro c rest ih
    obtain ⟨v, hv⟩ := ih
    exact ⟨[c] ++ v, Language.append_mem_mul (Set.mem_singleton [c]) hv⟩
  · intro sign text rest ih
    obtain ⟨v, hv⟩ := ih
    exact ⟨(sign :: text) ++ v, Language.append_mem_mul (Set.mem_singleton _) hv⟩
  · intro alternatives rest iha ih
    obtain ⟨u, hu⟩ := iha
    obtain ⟨v, hv⟩ := ih
    exact ⟨u ++ v, Language.append_mem_mul hu hv⟩
  · exact fun p ih => ih
  · intro p others ih _
    obtain ⟨v, hv⟩ := ih
    exact ⟨v, .inl hv⟩

theorem exists_shortest {l : Language Char} (h : ∃ v, v ∈ l) :
    ∃ v ∈ l, ∀ w ∈ l, v.length ≤ w.length := by
  obtain ⟨v, hv, hmin⟩ := WellFounded.has_min (measure List.length).wf {v | v ∈ l} h
  exact ⟨v, hv, fun w hw => Nat.le_of_not_lt (hmin w hw)⟩

/-- A text that is no longer than all the rewritten pattern accepts, and shorter than all of
    it unless the pattern is ASCII. -/
def ShortestText (p : Pattern) (v : List Char) : Prop :=
  ∀ q, ∀ w ∈ matcherLanguage ownText (normalizePattern q p),
    v.length ≤ w.length ∧ (¬AsciiText p.render → v.length < w.length)

/-- A text that stands for itself, in front of a pattern. -/
theorem ShortestText.append {p : Pattern} {v : List Char} (h : ShortestText p v) (text : List Char)
    {q : Behind} {w : List Char} (hw : w ∈ matcherLanguage ownText (normalizePattern q p)) :
    (text ++ v).length ≤ (text.flatMap latin1 ++ w).length ∧
      (¬AsciiText (text ++ p.render) → (text ++ v).length < (text.flatMap latin1 ++ w).length) := by
  have hle := h q w hw
  have hpos := length_le_flatMap_latin1 text
  rw [List.length_append, List.length_append]
  refine ⟨by omega, ?_⟩
  intro hnot
  by_cases htext : AsciiText text
  · have hrest : ¬AsciiText p.render := by
      intro hrest
      apply hnot
      intro d hd
      exact (List.mem_append.mp hd).elim (htext d) (hrest d)
    have hlt := hle.2 hrest
    omega
  · have hlt := length_lt_flatMap_latin1 htext
    omega

theorem exists_shortestText :
    (∀ p : Pattern, BracesAscii p → ∃ v ∈ declaredLanguage ownText p, ShortestText p v) ∧
      ∀ _ : Alternatives, True := by
  apply Pattern.induction
  · intro _
    refine ⟨[], rfl, ?_⟩
    intro q w _
    refine ⟨Nat.zero_le _, ?_⟩
    intro hascii
    exfalso
    apply hascii
    intro c hc
    exact absurd hc List.not_mem_nil
  · intro extra rest ih hbraces
    obtain ⟨v, hv, hshort⟩ := ih hbraces
    have hrun : [] ∈ Glob.runLanguage ⊤ extra := by
      unfold Glob.runLanguage
      split <;> exact Glob.mem_top []
    refine ⟨[] ++ v, Language.append_mem_mul hrun hv, ?_⟩
    intro q w hw
    have hsplit : ∃ q' x w', w' ∈ matcherLanguage ownText (normalizePattern q' rest) ∧
        x ++ w' = w := by
      cases extra with
      | zero =>
        rw [normalizePattern] at hw
        obtain ⟨x, -, w', hw', hxw⟩ := Language.mem_mul.mp hw
        exact ⟨_, x, w', hw', hxw⟩
      | succ extra =>
        rw [normalizePattern] at hw
        obtain ⟨x, -, w', hw', hxw⟩ := Language.mem_mul.mp hw
        exact ⟨_, x, w', hw', hxw⟩
    obtain ⟨q', x, w', hw', rfl⟩ := hsplit
    have hle := hshort q' w' hw'
    have hascii : ¬AsciiText (Pattern.stars extra rest).render → ¬AsciiText rest.render := by
      intro hnot hrest
      apply hnot
      intro c hc
      rw [Pattern.render, List.mem_append, List.mem_replicate] at hc
      rcases hc with ⟨-, rfl⟩ | hc
      · decide
      · exact hrest c hc
    rw [List.nil_append, List.length_append]
    exact ⟨by omega, fun hnot => by have := hle.2 (hascii hnot); omega⟩
  · intro c rest ih hbraces
    obtain ⟨v, hv, hshort⟩ := ih hbraces
    refine ⟨[c] ++ v, Language.append_mem_mul (Set.mem_singleton [c]) hv, ?_⟩
    intro q w hw
    rw [normalizePattern, matcherLanguage_plainBytes] at hw
    obtain ⟨x, hx, w', hw', rfl⟩ := Language.mem_mul.mp hw
    obtain rfl : x = latin1 c := hx
    have happend := hshort.append [c] hw'
    rw [List.flatMap_singleton] at happend
    exact happend
  · intro sign text rest ih hbraces
    obtain ⟨v, hv, hshort⟩ := ih hbraces
    refine ⟨(sign :: text) ++ v, Language.append_mem_mul (Set.mem_singleton _) hv, ?_⟩
    intro q w hw
    rw [normalizePattern, matcherLanguage_specialBytes] at hw
    obtain ⟨x, hx, w', hw', rfl⟩ := Language.mem_mul.mp hw
    obtain rfl : x = (sign :: text).flatMap latin1 := hx
    exact hshort.append (sign :: text) hw'
  · intro alternatives rest _ ih hbraces
    obtain ⟨v, hv, hshort⟩ := ih hbraces.2
    obtain ⟨u, hu, hmin⟩ := exists_shortest (declaredLanguage_nonempty.2 alternatives)
    refine ⟨u ++ v, Language.append_mem_mul hu hv, ?_⟩
    intro q w hw
    rw [normalizePattern] at hw
    obtain ⟨x, hx, w', hw', rfl⟩ := Language.mem_mul.mp hw
    rw [(language_normalizePattern ownText).2 alternatives hbraces.1] at hx
    have hu' := hmin x hx
    have hle := hshort _ w' hw'
    rw [List.length_append, List.length_append]
    refine ⟨by omega, ?_⟩
    intro hnot
    have hrest : ¬AsciiText rest.render := by
      intro hrest
      apply hnot
      intro d hd
      rw [Pattern.render, List.mem_append, List.mem_cons, List.mem_cons] at hd
      rcases hd with (rfl | hd) | rfl | hd
      · decide
      · exact hbraces.1 d hd
      · decide
      · exact hrest d hd
    have hlt := hle.2 hrest
    omega
  · exact fun _ _ => trivial
  · exact fun _ _ _ _ => trivial

end Remo
