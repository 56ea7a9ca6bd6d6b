import Remo.Native.Pattern.Matcher

/-!
# Tool id patterns

The glob matcher of tool ids, a loop over the bytes of the pattern and of the id that goes back
to the last star. The loop's positions are kept within their bounds by their type.
-/

namespace Remo

/-- Why a tool id pattern is not well formed. -/
inductive ToolIdPatternError where
  | empty
  | danglingEscape
deriving Repr, DecidableEq

/-- `str::as_bytes`. -/
def asBytes (s : String) : List UInt8 := s.toList.flatMap String.utf8EncodeChar

/-- The byte `\`. -/
def backslash : UInt8 := 0x5C

/-- The positions of the matcher: in the pattern, in the id, and of the last star with the
    position in the id it was met at. -/
structure ToolIdScan (p v : List UInt8) where
  pi : Nat
  vi : Nat
  starPi : Option Nat
  starVi : Nat
  pi_le : pi ≤ p.length
  starVi_le : starVi ≤ vi
  starPi_lt : ∀ sp, starPi = some sp → sp < p.length

namespace ToolIdScan

variable {p v : List UInt8}

def start (p v : List UInt8) : ToolIdScan p v where
  pi := 0
  vi := 0
  starPi := none
  starVi := 0
  pi_le := Nat.zero_le _
  starVi_le := Nat.le_refl _
  starPi_lt := by simp

/-- Move on in the pattern and in the id. -/
def advance (s : ToolIdScan p v) (n : Nat) (h : s.pi + n ≤ p.length) : ToolIdScan p v :=
  { s with
    pi := s.pi + n
    vi := s.vi + 1
    pi_le := h
    starVi_le := Nat.le_succ_of_le s.starVi_le }

/-- Remember the star at the current positions and go on behind it. -/
def remember (s : ToolIdScan p v) (h : s.pi < p.length) : ToolIdScan p v :=
  { s with
    starPi := some s.pi
    starVi := s.vi
    pi := s.pi + 1
    pi_le := h
    starVi_le := Nat.le_refl _
    starPi_lt := by
      intro sp hsp
      cases hsp
      exact h }

/-- Go back to the last star, which takes in one byte more. -/
def backtrack (s : ToolIdScan p v) : Option (ToolIdScan p v) :=
  match h : s.starPi with
  | some sp =>
    some { s with
      pi := sp + 1
      starVi := s.starVi + 1
      vi := s.starVi + 1
      pi_le := s.starPi_lt sp h
      starVi_le := Nat.le_refl _ }
  | none => none

/-- The bytes at the current positions match, or there is a star. -/
def continued (s : ToolIdScan p v) (hv : s.vi < v.length) : Option (ToolIdScan p v) :=
  if hp : s.pi < p.length then
    let c := p.get ⟨s.pi, hp⟩
    if hescape : c = backslash ∧ s.pi + 1 < p.length then
      if p.get ⟨s.pi + 1, hescape.2⟩ = v.get ⟨s.vi, hv⟩ then some (s.advance 2 hescape.2) else none
    else if c = star then some (s.remember hp)
    else if c = v.get ⟨s.vi, hv⟩ then some (s.advance 1 hp)
    else none
  else none

/-- One pass of the loop, `none` where it returns `false`. -/
def pass (s : ToolIdScan p v) (hv : s.vi < v.length) : Option (ToolIdScan p v) :=
  match s.continued hv with
  | some next => some next
  | none => s.backtrack

/-- What is left to do: the id behind the last star, then the pattern. -/
def measure (s : ToolIdScan p v) : Nat × Nat := (v.length - s.starVi, p.length - s.pi)

/-- Every pass leaves less to do. -/
theorem measure_lt_of_pass {s next : ToolIdScan p v} {hv : s.vi < v.length}
    (h : s.pass hv = some next) : Prod.Lex (· < ·) (· < ·) next.measure s.measure := by
  have hstar := s.starVi_le
  have hadvance : ∀ n (hn : s.pi + n ≤ p.length), 0 < n →
      Prod.Lex (· < ·) (· < ·) (s.advance n hn).measure s.measure := by
    intro n hn hpos
    apply Prod.Lex.right
    show p.length - (s.pi + n) < p.length - s.pi
    omega
  unfold pass at h
  split at h
  · rename_i next' hnext
    cases h
    unfold continued at hnext
    split at hnext
    · rename_i hp
      dsimp only at hnext
      split at hnext
      · split at hnext
        · cases hnext
          exact hadvance 2 _ (by decide)
        · cases hnext
      · split at hnext
        · cases hnext
          by_cases heq : s.starVi = s.vi
          · have hsame : (s.remember hp).measure.1 = s.measure.1 := by
              show v.length - s.vi = v.length - s.starVi
              rw [heq]
            rw [Prod.lex_def]
            refine .inr ⟨hsame, ?_⟩
            show p.length - (s.pi + 1) < p.length - s.pi
            omega
          · apply Prod.Lex.left
            show v.length - s.vi < v.length - s.starVi
            omega
        · split at hnext
          · cases hnext
            exact hadvance 1 _ (by decide)
          · cases hnext
    · cases hnext
  · unfold backtrack at h
    split at h
    · cases h
      apply Prod.Lex.left
      show v.length - (s.starVi + 1) < v.length - s.starVi
      omega
    · cases h

end ToolIdScan

/-- The position behind the stars at a position. -/
def skipStars (p : List UInt8) (pi : Nat) : Nat :=
  if h : pi < p.length then
    if p.get ⟨pi, h⟩ = star then skipStars p (pi + 1) else pi
  else pi
termination_by p.length - pi

namespace ToolIdScan

variable {p v : List UInt8}

/-- The loop from a state on, and what follows it. -/
def run (s : ToolIdScan p v) : Bool :=
  if hv : s.vi < v.length then
    match _h : s.pass hv with
    | some next => run next
    | none => false
  else skipStars p s.pi == p.length
termination_by s.measure
decreasing_by exact measure_lt_of_pass _h

end ToolIdScan

/-- Match a tool-id glob pattern against a literal tool id. -/
def toolIdMatch (pattern toolId : String) : Bool :=
  (ToolIdScan.start (asBytes pattern) (asBytes toolId)).run

/-- The loop of the validation over the bytes that are left. -/
def validateToolIdBytes : List UInt8 → Except ToolIdPatternError Unit
  | [] => .ok ()
  | b :: bytes =>
    if b = backslash then
      match bytes with
      | [] => .error .danglingEscape
      | _ :: bytes => validateToolIdBytes bytes
    else validateToolIdBytes bytes

/-- Validate that a tool-id pattern string is syntactically well-formed. -/
def validateToolIdPattern (pattern : String) : Except ToolIdPatternError Unit :=
  if pattern.isEmpty then .error .empty else validateToolIdBytes (asBytes pattern)

end Remo
