import Mathlib.Computability.Language
import Mathlib.Data.List.Infix
import Remo.ForStd.Utf8

/-!
# Glob patterns

Patterns with wildcards: the languages they describe, and a matcher that reads a text once.

## Key results

- `globstar_slash_segment`, `segment_slash_globstar` a star beside a globstar crosses separators
- `Scanning.star`     a later wildcard makes the earlier ones superfluous
- `Scanning.finish`   at the end of the text the rest of the pattern decides
- `matches_bytes_iff` a pattern matches a text exactly when it does so byte by byte
-/

/-! ## Languages of glob patterns

The syntax of glob patterns with runs of stars, braces and constructs of the matcher's own, and
the language of a pattern. A single star may be confined to a path segment; a longer run stands
for any text. Next to a globstar that makes no difference.
-/

namespace Remo.Glob

mutual

/-- A glob pattern, read from left to right. -/
inductive Pattern where
  | done
  /-- A run of `extra + 1` stars. -/
  | stars (extra : Nat) (rest : Pattern)
  | plain (c : Char) (rest : Pattern)
  /-- A construct of the matcher's own syntax: its sign and what belongs to it. -/
  | special (sign : Char) (text : List Char) (rest : Pattern)
  | braces (alternatives : Alternatives) (rest : Pattern)

/-- The alternatives between braces. -/
inductive Alternatives where
  | last (p : Pattern)
  | more (p : Pattern) (others : Alternatives)

end

/-- Induction over patterns and alternatives together. -/
theorem Pattern.induction {P : Pattern → Prop} {A : Alternatives → Prop} (done : P .done)
    (stars : ∀ extra rest, P rest → P (.stars extra rest))
    (plain : ∀ c rest, P rest → P (.plain c rest))
    (special : ∀ sign text rest, P rest → P (.special sign text rest))
    (braces : ∀ alternatives rest, A alternatives → P rest → P (.braces alternatives rest))
    (last : ∀ p, P p → A (.last p)) (more : ∀ p others, P p → A others → A (.more p others)) :
    (∀ p, P p) ∧ ∀ a, A a :=
  ⟨@Pattern.rec P A done stars plain special braces last more,
    @Alternatives.rec P A done stars plain special braces last more⟩

/-! ## Text -/

mutual

/-- The text of a pattern. -/
def Pattern.render : Pattern → List Char
  | .done => []
  | .stars extra rest => List.replicate (extra + 1) '*' ++ rest.render
  | .plain c rest => c :: rest.render
  | .special sign text rest => sign :: text ++ rest.render
  | .braces alternatives rest => '{' :: alternatives.render ++ '}' :: rest.render

def Alternatives.render : Alternatives → List Char
  | .last p => p.render
  | .more p others => p.render ++ ',' :: others.render

end

def Pattern.startsWithStar : Pattern → Bool
  | .stars _ _ => true
  | _ => false

mutual

/-- The pattern is what its text says: the stars of a run are all of it, no other character is a
    star, and a construct does not begin with a separator. -/
def Pattern.WellFormed : Pattern → Prop
  | .done => True
  | .stars _ rest => rest.startsWithStar = false ∧ rest.WellFormed
  | .plain c rest => c ≠ '*' ∧ rest.WellFormed
  | .special sign text rest => sign ≠ '/' ∧ '*' ∉ sign :: text ∧ rest.WellFormed
  | .braces alternatives rest => alternatives.WellFormed ∧ rest.WellFormed

def Alternatives.WellFormed : Alternatives → Prop
  | .last p => p.WellFormed
  | .more p others => p.WellFormed ∧ others.WellFormed

end

/-! ## Language -/

/-- The texts inside one path segment. -/
def segment : Language Char := {v | '/' ∉ v}

/-- The texts a run of stars stands for, given what a single star stands for. -/
def runLanguage (single : Language Char) (extra : Nat) : Language Char :=
  if extra = 0 then single else ⊤

section Language

variable (meaning : List Char → Language Char) (single : Language Char)

mutual

/-- The language of a pattern. `meaning` is that of the matcher's own constructs, `single` that
    of a single star. -/
def Pattern.language : Pattern → Language Char
  | .done => 1
  | .stars extra rest => runLanguage single extra * rest.language
  | .plain c rest => {[c]} * rest.language
  | .special sign text rest => meaning (sign :: text) * rest.language
  | .braces alternatives rest => alternatives.language * rest.language

def Alternatives.language : Alternatives → Language Char
  | .last p => p.language
  | .more p others => p.language + others.language

end

end Language

/-! ## Stars beside a globstar -/

theorem mem_top (v : List Char) : v ∈ (⊤ : Language Char) := trivial

theorem mem_slash {v : List Char} : v ∈ ({['/']} : Language Char) ↔ v = ['/'] := Iff.rfl

theorem mem_segment {v : List Char} : v ∈ segment ↔ '/' ∉ v := Iff.rfl

/-- Two globstars around a separator stand for the texts with a separator. -/
theorem mem_globstar_slash_globstar {v : List Char} :
    v ∈ (⊤ * {['/']} * ⊤ : Language Char) ↔ '/' ∈ v := by
  constructor
  · intro h
    obtain ⟨ab, hab, c, -, rfl⟩ := Language.mem_mul.mp h
    obtain ⟨a, -, b, hb, rfl⟩ := Language.mem_mul.mp hab
    rw [mem_slash] at hb
    simp [hb]
  · intro h
    obtain ⟨a, c, rfl⟩ := List.append_of_mem h
    have hab : a ++ ['/'] ∈ (⊤ * {['/']} : Language Char) :=
      Language.append_mem_mul (mem_top a) (mem_slash.mpr rfl)
    have hall := Language.append_mem_mul hab (mem_top c)
    simpa using hall

/-- Behind a globstar segment a star need not cross separators: the globstar does. -/
theorem globstar_slash_segment :
    (⊤ * {['/']} * segment : Language Char) = ⊤ * {['/']} * ⊤ := by
  ext v
  rw [mem_globstar_slash_globstar]
  constructor
  · intro h
    obtain ⟨ab, hab, c, -, rfl⟩ := Language.mem_mul.mp h
    obtain ⟨a, -, b, hb, rfl⟩ := Language.mem_mul.mp hab
    rw [mem_slash] at hb
    simp [hb]
  · intro h
    -- the text is cut at its last separator
    obtain ⟨a, c, hv, hnot⟩ := List.eq_append_cons_of_mem (List.mem_reverse.mpr h)
    have hcut : v = (c.reverse ++ ['/']) ++ a.reverse := by
      rw [← List.reverse_reverse v, hv]
      simp
    rw [hcut]
    apply Language.append_mem_mul
    · exact Language.append_mem_mul (mem_top _) (mem_slash.mpr rfl)
    · rw [mem_segment, List.mem_reverse]
      exact hnot

/-- In front of a globstar segment a star need not cross separators either. -/
theorem segment_slash_globstar :
    (segment * {['/']} * ⊤ : Language Char) = ⊤ * {['/']} * ⊤ := by
  ext v
  rw [mem_globstar_slash_globstar]
  constructor
  · intro h
    obtain ⟨ab, hab, c, -, rfl⟩ := Language.mem_mul.mp h
    obtain ⟨a, -, b, hb, rfl⟩ := Language.mem_mul.mp hab
    rw [mem_slash] at hb
    simp [hb]
  · intro h
    obtain ⟨a, c, rfl, hnot⟩ := List.eq_append_cons_of_mem h
    have hab : a ++ ['/'] ∈ (segment * {['/']} : Language Char) :=
      Language.append_mem_mul (mem_segment.mpr hnot) (mem_slash.mpr rfl)
    have hall := Language.append_mem_mul hab (mem_top c)
    simpa using hall

end Remo.Glob

/-! ## Glob patterns

A pattern is a list of tokens, each a literal or the wildcard that stands for any text. A matcher
that reads the text once keeps the current position and, for the last wildcard only, where to try
again; `Scanning` says why that is enough.
-/

namespace Remo.Glob

variable {α : Type*}

/-- A part of a pattern. -/
inductive Token (α : Type*) where
  | any
  | lit (a : α)
deriving Repr, DecidableEq

/-- The text belongs to the language of the pattern. -/
inductive Matches : List (Token α) → List α → Prop
  | nil : Matches [] []
  | lit {a : α} {ts : List (Token α)} {v : List α} : Matches ts v → Matches (.lit a :: ts) (a :: v)
  | any {ts : List (Token α)} {v : List α} (skipped : List α) :
    Matches ts v → Matches (.any :: ts) (skipped ++ v)

variable {ts ts₀ pattern : List (Token α)} {v v₀ text : List α} {a : α}

/-! ## The language -/

@[simp] theorem matches_nil_iff : Matches [] v ↔ v = [] := by
  constructor
  · intro h
    cases h
    rfl
  · intro h
    exact h ▸ .nil

@[simp] theorem matches_lit_cons {b : α} : Matches (.lit a :: ts) (b :: v) ↔ a = b ∧ Matches ts v := by
  constructor
  · intro h
    cases h with
    | lit hv => exact ⟨rfl, hv⟩
  · intro h
    exact h.1 ▸ .lit h.2

@[simp] theorem not_matches_lit_nil : ¬ Matches (.lit a :: ts) [] := by
  intro h
  cases h

theorem matches_any_iff : Matches (.any :: ts) v ↔ ∃ v', v' <:+ v ∧ Matches ts v' := by
  constructor
  · intro h
    cases h with
    | any skipped hv => exact ⟨_, List.suffix_append _ _, hv⟩
  · intro h
    obtain ⟨v', ⟨skipped, rfl⟩, hv⟩ := h
    exact .any skipped hv

/-- What the wildcard stands for may be longer. -/
theorem Matches.any_of_suffix (h : Matches (.any :: ts) v₀) (hsuffix : v₀ <:+ v) :
    Matches (.any :: ts) v := by
  obtain ⟨v', hv', hmatch⟩ := matches_any_iff.mp h
  exact matches_any_iff.mpr ⟨v', hv'.trans hsuffix, hmatch⟩

/-- The wildcard stands for nothing, or for a text with one character more. -/
theorem matches_any_cons :
    Matches (.any :: ts) (a :: v) ↔ Matches ts (a :: v) ∨ Matches (.any :: ts) v := by
  simp only [matches_any_iff, List.suffix_cons_iff]
  constructor
  · intro h
    obtain ⟨v', hv', hmatch⟩ := h
    cases hv' with
    | inl heq => exact .inl (heq ▸ hmatch)
    | inr hsuffix => exact .inr ⟨v', hsuffix, hmatch⟩
  · intro h
    cases h with
    | inl hmatch => exact ⟨_, .inl rfl, hmatch⟩
    | inr hlater =>
      obtain ⟨v', hsuffix, hmatch⟩ := hlater
      exact ⟨v', .inr hsuffix, hmatch⟩

theorem matches_any_nil : Matches (.any :: ts) ([] : List α) ↔ Matches ts [] := by
  simp [matches_any_iff]

theorem matches_lits_append {lits : List α} :
    Matches (lits.map .lit ++ ts) v ↔ ∃ v', v = lits ++ v' ∧ Matches ts v' := by
  induction lits generalizing v with
  | nil => simp
  | cons b lits ih =>
    cases v with
    | nil => simp
    | cons c v =>
      simp only [List.map_cons, List.cons_append, matches_lit_cons, ih, List.cons.injEq]
      constructor
      · intro h
        obtain ⟨rfl, v', rfl, hmatch⟩ := h
        exact ⟨v', ⟨rfl, rfl⟩, hmatch⟩
      · intro h
        obtain ⟨v', ⟨rfl, rfl⟩, hmatch⟩ := h
        exact ⟨rfl, v', rfl, hmatch⟩

/-! ## Matching with one wildcard to go back to -/

/-- The last wildcard may still stand for more than it does. -/
def Later : Option (List (Token α) × List α) → Prop
  | none => False
  | some (_, []) => False
  | some (ts, _ :: v) => Matches (.any :: ts) v

/-- The state of a matcher: what is left of pattern and text, and what was left of them behind
    the last wildcard. -/
structure Scanning (pattern : List (Token α)) (text : List α) (ts : List (Token α)) (v : List α)
    (memory : Option (List (Token α) × List α)) : Prop where
  language : Matches pattern text ↔ Matches ts v ∨ Later memory
  /-- Only literals were passed since the last wildcard. -/
  literals : ∀ ts₀ v₀, memory = some (ts₀, v₀) →
    ∃ lits : List α, ts₀ = lits.map .lit ++ ts ∧ v₀ = lits ++ v

namespace Scanning

variable {memory : Option (List (Token α) × List α)}

theorem start : Scanning pattern text pattern text none where
  language := by simp [Later]
  literals := by
    intro ts₀ v₀ h
    cases h

theorem literal (h : Scanning pattern text (.lit a :: ts) (a :: v) memory) :
    Scanning pattern text ts v memory where
  language := by
    have hiff := h.language
    rwa [matches_lit_cons, eq_self_iff_true, true_and] at hiff
  literals := by
    intro ts₀ v₀ hmemory
    obtain ⟨lits, hts, hv⟩ := h.literals ts₀ v₀ hmemory
    exact ⟨lits ++ [a], by simp [hts], by simp [hv]⟩

/-- A match of an earlier wildcard passes the later one, which may stand for what is between. -/
theorem later_of_any (h : Scanning pattern text (.any :: ts) v memory) (hlater : Later memory) :
    Matches (.any :: ts) v := by
  cases memory with
  | none => exact False.elim hlater
  | some p =>
    obtain ⟨ts₀, v₀⟩ := p
    obtain ⟨lits, rfl, rfl⟩ := h.literals ts₀ v₀ rfl
    cases hv : lits ++ v with
    | nil =>
      rw [hv] at hlater
      exact False.elim hlater
    | cons b rest =>
      rw [hv] at hlater
      obtain ⟨v', hsuffix, hmatch⟩ := matches_any_iff.mp hlater
      obtain ⟨v'', rfl, hmatch'⟩ := matches_lits_append.mp hmatch
      -- the literals stand further to the right, so what follows them is shorter
      obtain ⟨skipped, hskipped⟩ := hsuffix
      have hall : lits ++ v = (b :: skipped ++ lits) ++ v'' := by
        rw [hv, ← hskipped]
        simp
      have hlength := congrArg List.length hall
      simp only [List.length_append, List.length_cons] at hlength
      have hle : v''.length ≤ v.length := by omega
      have hsuffix : v'' <:+ v :=
        List.suffix_of_suffix_length_le (hall ▸ List.suffix_append _ v'')
          (List.suffix_append _ v) hle
      exact hmatch'.any_of_suffix hsuffix

/-- A later wildcard makes the earlier ones superfluous. -/
theorem star (h : Scanning pattern text (.any :: ts) v memory) :
    Scanning pattern text ts v (some (ts, v)) where
  language := by
    have hiff : Matches pattern text ↔ Matches (.any :: ts) v := by
      rw [h.language]
      exact ⟨fun hor => hor.elim id h.later_of_any, Or.inl⟩
    rw [hiff]
    cases v with
    | nil => simp [matches_any_nil, Later]
    | cons b v => exact matches_any_cons
  literals := by
    intro ts₀ v₀ hmemory
    cases hmemory
    exact ⟨[], rfl, rfl⟩

/-- Where the rest does not match, the last wildcard stands for one character more. -/
theorem retry (h : Scanning pattern text ts v (some (ts₀, a :: v₀))) (hno : ¬ Matches ts v) :
    Scanning pattern text ts₀ v₀ (some (ts₀, v₀)) where
  language := by
    rw [h.language]
    have hlater : Matches ts v ∨ Later (some (ts₀, a :: v₀)) ↔ Matches (.any :: ts₀) v₀ :=
      ⟨fun hor => hor.elim (fun hmatch => absurd hmatch hno) id, Or.inr⟩
    rw [hlater]
    cases v₀ with
    | nil => simp [matches_any_nil, Later]
    | cons b v₀ => exact matches_any_cons
  literals := by
    intro ts₁ v₁ hmemory
    cases hmemory
    exact ⟨[], rfl, rfl⟩

theorem stuck (h : Scanning pattern text ts v none) (hno : ¬ Matches ts v) :
    ¬ Matches pattern text := by
  intro hmatch
  cases h.language.mp hmatch with
  | inl hrest => exact hno hrest
  | inr hlater => exact False.elim hlater

/-- At the end of the text the rest of the pattern decides. -/
theorem finish (h : Scanning pattern text ts [] memory) :
    Matches pattern text ↔ Matches ts [] := by
  rw [h.language]
  constructor
  · intro hor
    cases hor with
    | inl hmatch => exact hmatch
    | inr hlater =>
      cases memory with
      | none => exact False.elim hlater
      | some p =>
        obtain ⟨ts₀, v₀⟩ := p
        obtain ⟨lits, rfl, rfl⟩ := h.literals ts₀ v₀ rfl
        cases lits with
        | nil => exact False.elim hlater
        | cons b lits =>
          -- the literals need more text than there is behind the next position
          have hlater' : Matches (.any :: ((b :: lits).map .lit ++ ts)) (lits ++ []) := hlater
          obtain ⟨v', hsuffix, hmatch⟩ := matches_any_iff.mp hlater'
          obtain ⟨v'', rfl, -⟩ := matches_lits_append.mp hmatch
          have hle := hsuffix.length_le
          simp only [List.length_append, List.length_cons, List.length_nil] at hle
          omega
  · exact Or.inl

end Scanning

/-! ## Characters and bytes -/

/-- The pattern of the bytes. -/
def byteTokens (ts : List (Token Char)) : List (Token UInt8) :=
  ts.flatMap fun t => match t with
    | .any => [.any]
    | .lit c => (String.utf8EncodeChar c).map .lit

@[simp] theorem byteTokens_nil : byteTokens [] = [] := rfl

@[simp] theorem byteTokens_any (ts : List (Token Char)) :
    byteTokens (.any :: ts) = .any :: byteTokens ts := rfl

@[simp] theorem byteTokens_lit (c : Char) (ts : List (Token Char)) :
    byteTokens (.lit c :: ts) = (String.utf8EncodeChar c).map .lit ++ byteTokens ts := rfl

theorem Matches.bytes {ts : List (Token Char)} {v : List Char} (h : Matches ts v) :
    Matches (byteTokens ts) (Utf8.bytes v) := by
  induction h with
  | nil => exact .nil
  | lit _ ih => exact matches_lits_append.mpr ⟨_, rfl, ih⟩
  | any skipped _ ih =>
    rw [Utf8.bytes_append]
    exact .any _ ih

/-- Read back from the bytes: a match behind some bytes of a text is one behind some characters,
    and a match of all of the text is one of all characters. -/
theorem of_bytes (ts : List (Token Char)) :
    (∀ v : List Char, ∀ before rest, Utf8.bytes v = before ++ rest →
      Matches (byteTokens ts) rest → ∃ v', v' <:+ v ∧ Matches ts v') ∧
    ∀ v : List Char, Matches (byteTokens ts) (Utf8.bytes v) → Matches ts v := by
  induction ts with
  | nil =>
    constructor
    · intro v before rest _ _
      exact ⟨[], List.nil_suffix, .nil⟩
    · intro v h
      have hnil : Utf8.bytes v = Utf8.bytes [] := matches_nil_iff.mp h
      exact matches_nil_iff.mpr (Utf8.bytes_inj hnil)
  | cons t ts ih =>
    cases t with
    | any =>
      constructor
      · intro v before rest hv h
        obtain ⟨rest', ⟨skipped, rfl⟩, h'⟩ := matches_any_iff.mp h
        obtain ⟨v', hsuffix, hmatch⟩ := ih.1 v (before ++ skipped) rest' (by simp [hv]) h'
        exact ⟨v', hsuffix, .any [] hmatch⟩
      · intro v h
        obtain ⟨rest, ⟨skipped, hskipped⟩, h'⟩ := matches_any_iff.mp h
        obtain ⟨v', hsuffix, hmatch⟩ := ih.1 v skipped rest hskipped.symm h'
        exact matches_any_iff.mpr ⟨v', hsuffix, hmatch⟩
    | lit c =>
      have hall : ∀ v : List Char, Matches (byteTokens (.lit c :: ts)) (Utf8.bytes v) →
          Matches (.lit c :: ts) v := by
        intro v h
        obtain ⟨rest, hrest, h'⟩ := matches_lits_append.mp h
        obtain ⟨v', rfl, rfl⟩ := Utf8.eq_cons_of_bytes hrest
        exact .lit (ih.2 v' h')
      refine ⟨?_, hall⟩
      intro v before rest hv h
      obtain ⟨rest', rfl, -⟩ := matches_lits_append.mp h
      -- the first byte of the literal shows where the text may be cut
      obtain ⟨first, tail, hc, hfirst, -⟩ := Utf8.encodeChar_eq_cons c
      rw [hc, List.cons_append] at hv
      obtain ⟨v₁, v₂, rfl, -, hv₂⟩ := Utf8.split_of_first hv hfirst
      rw [hc, List.cons_append, hv₂] at h
      exact ⟨v₂, List.suffix_append _ _, hall v₂ h⟩

/-- A pattern matches a text exactly when it does so byte by byte. -/
theorem matches_bytes_iff {ts : List (Token Char)} {v : List Char} :
    Matches (byteTokens ts) (Utf8.bytes v) ↔ Matches ts v :=
  ⟨(of_bytes ts).2 v, Matches.bytes⟩

end Remo.Glob
