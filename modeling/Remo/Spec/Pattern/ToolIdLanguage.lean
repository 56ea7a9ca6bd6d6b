import Remo.ForStd.Glob
import Remo.Native.Pattern.ToolId

/-!
# The language of tool id patterns

A tool id pattern is read into tokens: a star, or a literal that may be escaped. The matcher
accepts exactly the ids of the pattern's language.

Key results:
* `validateToolIdPattern_iff` the well-formed patterns are those that can be read
* `run_iff`                   the loop decides the language of the bytes
* `toolIdMatch_decides`       the matcher decides the language of a well-formed pattern
-/

namespace Remo

open Glob (Token)

/-! ## Tokens -/

/-- The tokens of a pattern, unless it ends with a dangling escape. -/
def toolIdTokens : List Char → Option (List (Token Char))
  | [] => some []
  | c :: rest =>
    if c = '\\' then
      match rest with
      | [] => none
      | c :: rest => (toolIdTokens rest).map (.lit c :: ·)
    else if c = '*' then (toolIdTokens rest).map (.any :: ·)
    else (toolIdTokens rest).map (.lit c :: ·)

/-- The tokens of the bytes of a pattern. A dangling escape stands for itself. -/
def toolIdByteTokens : List UInt8 → List (Token UInt8)
  | [] => []
  | b :: rest =>
    if b = backslash then
      match rest with
      | [] => [.lit b]
      | c :: rest => .lit c :: toolIdByteTokens rest
    else if b = star then .any :: toolIdByteTokens rest
    else .lit b :: toolIdByteTokens rest

section Bytes

variable {b : UInt8} {rest : List UInt8}

theorem toolIdByteTokens_escape (c : UInt8) (rest : List UInt8) :
    toolIdByteTokens (backslash :: c :: rest) = .lit c :: toolIdByteTokens rest := by
  rw [toolIdByteTokens.eq_def]
  simp

theorem toolIdByteTokens_star (rest : List UInt8) :
    toolIdByteTokens (star :: rest) = .any :: toolIdByteTokens rest := by
  rw [toolIdByteTokens.eq_def]
  simp [star, backslash]

theorem toolIdByteTokens_lit (hback : b ≠ backslash) (hstar : b ≠ star) :
    toolIdByteTokens (b :: rest) = .lit b :: toolIdByteTokens rest := by
  rw [toolIdByteTokens.eq_def]
  simp [hback, hstar]

/-- Whatever is no star begins with a literal. -/
theorem toolIdByteTokens_cons (hstar : b ≠ star) :
    ∃ c ts, toolIdByteTokens (b :: rest) = .lit c :: ts := by
  by_cases hback : b = backslash
  · subst hback
    cases rest with
    | nil => exact ⟨backslash, [], by rw [toolIdByteTokens.eq_def]; simp⟩
    | cons c rest => exact ⟨c, _, toolIdByteTokens_escape c rest⟩
  · exact ⟨b, _, toolIdByteTokens_lit hback hstar⟩

theorem toolIdByteTokens_dangling : toolIdByteTokens [backslash] = [.lit backslash] := by
  rw [toolIdByteTokens.eq_def]
  simp

theorem validateToolIdBytes_escape (c : UInt8) (rest : List UInt8) :
    validateToolIdBytes (backslash :: c :: rest) = validateToolIdBytes rest := by
  rw [validateToolIdBytes.eq_def]
  simp

theorem validateToolIdBytes_ne (hback : b ≠ backslash) :
    validateToolIdBytes (b :: rest) = validateToolIdBytes rest := by
  rw [validateToolIdBytes.eq_def]
  simp [hback]

/-- Bytes that are neither a star nor an escape stand for themselves. -/
theorem toolIdBytes_append {bytes : List UInt8} (h : ∀ b ∈ bytes, b ≠ backslash ∧ b ≠ star)
    (rest : List UInt8) :
    toolIdByteTokens (bytes ++ rest) = bytes.map .lit ++ toolIdByteTokens rest ∧
      validateToolIdBytes (bytes ++ rest) = validateToolIdBytes rest := by
  induction bytes with
  | nil => exact ⟨rfl, rfl⟩
  | cons b bytes ih =>
    obtain ⟨hback, hstar⟩ := h b List.mem_cons_self
    obtain ⟨htokens, hvalid⟩ := ih fun b' hb' => h b' (List.mem_cons_of_mem _ hb')
    constructor
    · rw [List.cons_append, toolIdByteTokens_lit hback hstar, htokens, List.map_cons,
        List.cons_append]
    · rw [List.cons_append, validateToolIdBytes_ne hback, hvalid]

end Bytes

/-- An escape takes the whole character behind it, although the matcher looks at its first byte
    only: the others are no star and no escape. -/
theorem toolIdBytes_escape (c : Char) (rest : List UInt8) :
    toolIdByteTokens (backslash :: (String.utf8EncodeChar c ++ rest)) =
        (String.utf8EncodeChar c).map .lit ++ toolIdByteTokens rest ∧
      validateToolIdBytes (backslash :: (String.utf8EncodeChar c ++ rest)) =
        validateToolIdBytes rest := by
  obtain ⟨first, tail, hc, -, htail⟩ := Utf8.encodeChar_eq_cons c
  have hplain : ∀ b ∈ tail, b ≠ backslash ∧ b ≠ star := by
    intro b hb
    have hnot := htail b hb
    constructor
    · intro heq
      exact hnot (heq ▸ by decide)
    · intro heq
      exact hnot (heq ▸ by decide)
  obtain ⟨htokens, hvalid⟩ := toolIdBytes_append hplain rest
  rw [hc, List.cons_append, toolIdByteTokens_escape, validateToolIdBytes_escape]
  exact ⟨by rw [htokens, List.map_cons, List.cons_append], hvalid⟩

theorem encodeChar_backslash : String.utf8EncodeChar '\\' = [backslash] := by decide

/-- The bytes of another character are no star and no escape. -/
theorem ne_of_mem_encodeChar {c : Char} (hback : c ≠ '\\') (hstar : c ≠ '*') :
    ∀ b ∈ String.utf8EncodeChar c, b ≠ backslash ∧ b ≠ star := by
  intro b hb
  constructor
  · intro heq
    exact hback (Utf8.eq_of_mem_encodeChar hb (heq ▸ encodeChar_backslash))
  · intro heq
    exact hstar (Utf8.eq_of_mem_encodeChar hb (heq ▸ encodeChar_star))

/-- A pattern that can be read passes the validation, and the tokens of its bytes are the bytes
    of its tokens. A pattern that cannot be read ends with a dangling escape. -/
theorem toolIdTokens_bytes (cs : List Char) :
    (∀ ts, toolIdTokens cs = some ts → validateToolIdBytes (Utf8.bytes cs) = .ok () ∧
      toolIdByteTokens (Utf8.bytes cs) = Glob.byteTokens ts) ∧
    (toolIdTokens cs = none → validateToolIdBytes (Utf8.bytes cs) = .error .danglingEscape) := by
  induction cs using toolIdTokens.induct with
  | case1 =>
    constructor
    · intro ts hts
      cases hts
      exact ⟨rfl, rfl⟩
    · intro hnone
      cases hnone
  | case2 =>
    constructor
    · intro ts hts
      simp [toolIdTokens] at hts
    · intro _
      decide
  | case3 c rest ih =>
    obtain ⟨htokens, hvalid⟩ := toolIdBytes_escape c (Utf8.bytes rest)
    have hbytes : Utf8.bytes ('\\' :: c :: rest) =
        backslash :: (String.utf8EncodeChar c ++ Utf8.bytes rest) := by
      rw [Utf8.bytes_cons, encodeChar_backslash, Utf8.bytes_cons, List.singleton_append]
    have hread : toolIdTokens ('\\' :: c :: rest) = (toolIdTokens rest).map (.lit c :: ·) := by
      simp [toolIdTokens]
    rw [hread, hbytes, htokens, hvalid]
    constructor
    · intro ts hts
      obtain ⟨ts', hts', rfl⟩ := Option.map_eq_some_iff.mp hts
      obtain ⟨hok, hsame⟩ := ih.1 ts' hts'
      exact ⟨hok, by rw [hsame, Glob.byteTokens_lit]⟩
    · intro hnone
      exact ih.2 (Option.map_eq_none_iff.mp hnone)
  | case4 rest hne ih =>
    have hbytes : Utf8.bytes ('*' :: rest) = star :: Utf8.bytes rest := by
      rw [Utf8.bytes_cons, encodeChar_star, List.singleton_append]
    have hread : toolIdTokens ('*' :: rest) = (toolIdTokens rest).map (.any :: ·) := by
      rw [toolIdTokens.eq_def]
      simp
    rw [hread, hbytes, toolIdByteTokens_star, validateToolIdBytes_ne (by decide)]
    constructor
    · intro ts hts
      obtain ⟨ts', hts', rfl⟩ := Option.map_eq_some_iff.mp hts
      obtain ⟨hok, hsame⟩ := ih.1 ts' hts'
      exact ⟨hok, by rw [hsame, Glob.byteTokens_any]⟩
    · intro hnone
      exact ih.2 (Option.map_eq_none_iff.mp hnone)
  | case5 c rest hback hstar ih =>
    obtain ⟨htokens, hvalid⟩ := toolIdBytes_append (ne_of_mem_encodeChar hback hstar)
      (Utf8.bytes rest)
    have hread : toolIdTokens (c :: rest) = (toolIdTokens rest).map (.lit c :: ·) := by
      rw [toolIdTokens.eq_def]
      simp [hback, hstar]
    rw [hread, Utf8.bytes_cons, htokens, hvalid]
    constructor
    · intro ts hts
      obtain ⟨ts', hts', rfl⟩ := Option.map_eq_some_iff.mp hts
      obtain ⟨hok, hsame⟩ := ih.1 ts' hts'
      exact ⟨hok, by rw [hsame, Glob.byteTokens_lit]⟩
    · intro hnone
      exact ih.2 (Option.map_eq_none_iff.mp hnone)

/-- The well-formed patterns are those with tokens, the empty pattern apart. -/
theorem validateToolIdPattern_iff (pattern : String) :
    validateToolIdPattern pattern = .ok () ↔
      pattern ≠ "" ∧ ∃ ts, toolIdTokens pattern.toList = some ts := by
  obtain ⟨hsome, hnone⟩ := toolIdTokens_bytes pattern.toList
  unfold validateToolIdPattern
  split
  · rename_i hempty
    simp [String.isEmpty_iff.mp hempty]
  · rename_i hempty
    have hne : pattern ≠ "" := fun heq => hempty (String.isEmpty_iff.mpr heq)
    cases hts : toolIdTokens pattern.toList with
    | some ts =>
      have hok : validateToolIdBytes (asBytes pattern) = .ok () := (hsome ts hts).1
      simp [hok, hne]
    | none =>
      have herror : validateToolIdBytes (asBytes pattern) = .error .danglingEscape := hnone hts
      simp [herror]

/-! ## The loop -/

namespace ToolIdScan

variable {p v : List UInt8} {s next : ToolIdScan p v}

/-- What is left of the pattern and of the id, and what was left behind the last star. -/
def Scans (s : ToolIdScan p v) : Prop :=
  Glob.Scanning (toolIdByteTokens p) v (toolIdByteTokens (p.drop s.pi)) (v.drop s.vi)
    (s.starPi.map fun sp => (toolIdByteTokens (p.drop (sp + 1)), v.drop s.starVi))

theorem scans_start (p v : List UInt8) : (start p v).Scans := Glob.Scanning.start

section Pass

variable (h : s.Scans) {hv : s.vi < v.length}

/-- The id from the current position on. -/
theorem drop_vi (hv : s.vi < v.length) : v.drop s.vi = v.get ⟨s.vi, hv⟩ :: v.drop (s.vi + 1) :=
  List.drop_eq_getElem_cons hv

theorem drop_pi (hp : s.pi < p.length) : p.drop s.pi = p.get ⟨s.pi, hp⟩ :: p.drop (s.pi + 1) :=
  List.drop_eq_getElem_cons hp

/-- What the matcher does at a position of the pattern: an escaped byte, a star, a byte that
    stands for itself, or nothing where the pattern ends. -/
theorem continued_cases (s : ToolIdScan p v) (hv : s.vi < v.length) :
    (∃ (c : UInt8) (n : Nat) (hn : s.pi + n ≤ p.length),
      toolIdByteTokens (p.drop s.pi) = .lit c :: toolIdByteTokens (p.drop (s.pi + n)) ∧
      s.continued hv = if c = v.get ⟨s.vi, hv⟩ then some (s.advance n hn) else none) ∨
    (∃ hp : s.pi < p.length,
      toolIdByteTokens (p.drop s.pi) = .any :: toolIdByteTokens (p.drop (s.pi + 1)) ∧
      s.continued hv = some (s.remember hp)) ∨
    (toolIdByteTokens (p.drop s.pi) = [] ∧ s.continued hv = none) := by
  unfold continued
  by_cases hp : s.pi < p.length
  · rw [dif_pos hp, drop_pi hp]
    dsimp only
    by_cases hescape : p.get ⟨s.pi, hp⟩ = backslash ∧ s.pi + 1 < p.length
    · rw [dif_pos hescape]
      left
      have hlt : s.pi + 1 < p.length := hescape.2
      refine ⟨p.get ⟨s.pi + 1, hlt⟩, 2, hlt, ?_, rfl⟩
      have hnext : p.drop (s.pi + 1) = p.get ⟨s.pi + 1, hlt⟩ :: p.drop (s.pi + 2) :=
        List.drop_eq_getElem_cons hlt
      rw [hescape.1, hnext, toolIdByteTokens_escape]
    · rw [dif_neg hescape]
      by_cases hstar : p.get ⟨s.pi, hp⟩ = star
      · rw [if_pos hstar]
        right
        left
        exact ⟨hp, by rw [hstar, toolIdByteTokens_star], rfl⟩
      · rw [if_neg hstar]
        left
        refine ⟨p.get ⟨s.pi, hp⟩, 1, hp, ?_, rfl⟩
        by_cases hback : p.get ⟨s.pi, hp⟩ = backslash
        · -- an escape with nothing behind it
          have hend : p.drop (s.pi + 1) = [] := by
            apply List.drop_eq_nil_of_le
            have hnot : ¬ s.pi + 1 < p.length := fun hlt => hescape ⟨hback, hlt⟩
            omega
          rw [hback, hend, toolIdByteTokens_dangling]
          rfl
        · exact toolIdByteTokens_lit hback hstar
  · rw [dif_neg hp]
    right
    right
    exact ⟨by rw [List.drop_eq_nil_of_le (Nat.le_of_not_lt hp)]; rfl, rfl⟩

include h

theorem Scans.continued (hnext : s.continued hv = some next) : next.Scans := by
  have hscan : Glob.Scanning _ _ _ (v.drop s.vi) _ := h
  rw [drop_vi hv] at hscan
  rcases s.continued_cases hv with ⟨c, n, hn, htokens, hcontinued⟩ | ⟨hp, htokens, hcontinued⟩ |
    ⟨-, hcontinued⟩
  · rw [hcontinued] at hnext
    split at hnext
    · rename_i hc
      cases hnext
      rw [htokens, hc] at hscan
      exact hscan.literal
    · cases hnext
  · rw [hcontinued] at hnext
    cases hnext
    rw [htokens, ← drop_vi hv] at hscan
    exact hscan.star
  · rw [hcontinued] at hnext
    cases hnext

omit h in
/-- Where the matcher does not go on, the rest of the pattern does not match the rest of the
    id. -/
theorem not_matches_of_continued (hnone : s.continued hv = none) :
    ¬ Glob.Matches (toolIdByteTokens (p.drop s.pi)) (v.drop s.vi) := by
  rw [drop_vi hv]
  rcases s.continued_cases hv with ⟨c, n, hn, htokens, hcontinued⟩ | ⟨hp, -, hcontinued⟩ |
    ⟨htokens, -⟩
  · rw [hcontinued] at hnone
    split at hnone
    · cases hnone
    · rename_i hc
      rw [htokens, Glob.matches_lit_cons]
      exact fun hmatch => hc hmatch.1
  · rw [hcontinued] at hnone
    cases hnone
  · rw [htokens, Glob.matches_nil_iff]
    exact List.cons_ne_nil _ _

theorem Scans.pass (hnext : s.pass hv = some next) : next.Scans := by
  unfold ToolIdScan.pass at hnext
  split at hnext
  · rename_i hcontinued
    cases hnext
    exact h.continued hcontinued
  · rename_i hcontinued
    have hno := not_matches_of_continued hcontinued
    unfold backtrack at hnext
    split at hnext
    · rename_i sp hsp
      cases hnext
      have hlt : s.starVi < v.length := Nat.lt_of_le_of_lt s.starVi_le hv
      have hscan : Glob.Scanning _ _ _ _ (s.starPi.map _) := h
      rw [hsp, Option.map_some, List.drop_eq_getElem_cons hlt] at hscan
      have hmemory : (s.starPi.map fun sp =>
          (toolIdByteTokens (p.drop (sp + 1)), v.drop (s.starVi + 1))) =
          some (toolIdByteTokens (p.drop (sp + 1)), v.drop (s.starVi + 1)) := by
        rw [hsp]
        rfl
      show Glob.Scanning _ _ (toolIdByteTokens (p.drop (sp + 1))) (v.drop (s.starVi + 1))
        (s.starPi.map fun sp => (toolIdByteTokens (p.drop (sp + 1)), v.drop (s.starVi + 1)))
      rw [hmemory]
      exact hscan.retry hno
    · cases hnext

/-- Where the loop returns `false`, the pattern does not match the id. -/
theorem Scans.not_matches_of_pass (hnone : s.pass hv = none) :
    ¬ Glob.Matches (toolIdByteTokens p) v := by
  unfold ToolIdScan.pass at hnone
  split at hnone
  · cases hnone
  · rename_i hcontinued
    unfold backtrack at hnone
    split at hnone
    · cases hnone
    · rename_i hsp
      have hscan : Glob.Scanning _ _ _ _ (s.starPi.map _) := h
      rw [hsp, Option.map_none] at hscan
      exact hscan.stuck (not_matches_of_continued hcontinued)

end Pass

end ToolIdScan

/-- Nothing but stars is left of the pattern. -/
theorem skipStars_iff (p : List UInt8) (pi : Nat) (hpi : pi ≤ p.length) :
    skipStars p pi = p.length ↔ Glob.Matches (toolIdByteTokens (p.drop pi)) [] := by
  induction pi using skipStars.induct p with
  | case1 pi hlt hstar ih =>
    have hdrop : p.drop pi = star :: p.drop (pi + 1) := by
      rw [List.drop_eq_getElem_cons hlt, ← hstar]
      rfl
    rw [skipStars, dif_pos hlt, if_pos hstar, ih hlt, hdrop, toolIdByteTokens_star,
      Glob.matches_any_nil]
  | case2 pi hlt hstar =>
    have hne : ¬ pi = p.length := by omega
    rw [skipStars, dif_pos hlt, if_neg hstar]
    simp only [hne, false_iff]
    have hdrop : p.drop pi = p.get ⟨pi, hlt⟩ :: p.drop (pi + 1) := List.drop_eq_getElem_cons hlt
    obtain ⟨c, ts, hts⟩ := toolIdByteTokens_cons hstar
    rw [hdrop, hts]
    exact Glob.not_matches_lit_nil
  | case3 pi hlt =>
    have heq : pi = p.length := by omega
    rw [skipStars, dif_neg hlt, heq, List.drop_length]
    simp [toolIdByteTokens]

/-- The loop decides the language of the bytes. -/
theorem ToolIdScan.run_iff {p v : List UInt8} (s : ToolIdScan p v) (h : s.Scans) :
    s.run = true ↔ Glob.Matches (toolIdByteTokens p) v := by
  induction s using ToolIdScan.run.induct with
  | case1 s hv next hnext ih =>
    have hrun : s.run = next.run := by
      rw [ToolIdScan.run, dif_pos hv]
      split
      · rename_i next' hnext'
        rw [hnext] at hnext'
        cases hnext'
        rfl
      · rename_i hnone
        rw [hnext] at hnone
        cases hnone
    rw [hrun]
    exact ih (h.pass hnext)
  | case2 s hv hnone =>
    have hrun : s.run = false := by
      rw [ToolIdScan.run, dif_pos hv]
      split
      · rename_i next hnext
        rw [hnext] at hnone
        cases hnone
      · rfl
    rw [hrun]
    simp [h.not_matches_of_pass hnone]
  | case3 s hv =>
    have hend : v.drop s.vi = [] := List.drop_eq_nil_of_le (Nat.le_of_not_lt hv)
    have hscan : Glob.Scanning _ _ _ (v.drop s.vi) _ := h
    rw [hend] at hscan
    rw [ToolIdScan.run, dif_neg hv, beq_iff_eq, skipStars_iff p s.pi s.pi_le]
    exact hscan.finish.symm

/-- On a well-formed pattern the matcher accepts exactly the ids of the pattern's language: a star
    stands for any text, an escaped character and any other for itself. -/
theorem toolIdMatch_decides (pattern toolId : String)
    (h : validateToolIdPattern pattern = .ok ()) :
    ∃ ts, toolIdTokens pattern.toList = some ts ∧
      (toolIdMatch pattern toolId = true ↔ Glob.Matches ts toolId.toList) := by
  obtain ⟨-, ts, hts⟩ := (validateToolIdPattern_iff pattern).mp h
  refine ⟨ts, hts, ?_⟩
  have hrun := (ToolIdScan.start (asBytes pattern) (asBytes toolId)).run_iff
    (ToolIdScan.scans_start _ _)
  have hbytes : toolIdByteTokens (asBytes pattern) = Glob.byteTokens ts :=
    ((toolIdTokens_bytes pattern.toList).1 ts hts).2
  rw [hbytes] at hrun
  exact hrun.trans Glob.matches_bytes_iff

/-- An escaped star stands for itself. -/
theorem toolIdMatch_decides_escaped :
    ∃ ts, toolIdTokens "foo\\*b*".toList = some ts ∧
      (toolIdMatch "foo\\*b*" "foo*bar" = true ↔ Glob.Matches ts "foo*bar".toList) :=
  toolIdMatch_decides "foo\\*b*" "foo*bar" (by decide +kernel)

end Remo
