import Mathlib.Data.String.Basic
import Mathlib.Tactic.Ring

/-!
# Decimal numbers in the order of texts

As texts, numbers with equally many digits are in their own order. The order breaks at the powers
of ten: a power of ten comes before the number in front of it.

## Key results

- `toDigits_lt_toDigits`: numbers with no power of ten between them are in order
- `toDigits_pow_lt`: a power of ten comes before its predecessor
-/

namespace Remo.Decimal

/-- A text that is smaller stays smaller when as long texts go on behind. -/
theorem append_lt_append {l l' : List Char} (h : l < l') (hlength : l.length = l'.length)
    (a b : List Char) : l ++ a < l' ++ b := by
  induction l generalizing l' with
  | nil =>
    cases l' with
    | nil => exact absurd h (by simp)
    | cons c cs => simp at hlength
  | cons c cs ih =>
    cases l' with
    | nil => simp at hlength
    | cons d ds =>
      rw [List.cons_lt_cons_iff] at h
      show c :: (cs ++ a) < d :: (ds ++ b)
      rw [List.cons_lt_cons_iff]
      cases h with
      | inl hlt => exact .inl hlt
      | inr hrest => exact .inr ⟨hrest.1, ih hrest.2 (by simpa using hlength)⟩

theorem digitChar_lt {d e : Nat} (he : e < 10) (h : d < e) : Nat.digitChar d < Nat.digitChar e := by
  have hall : ∀ e < 10, ∀ d < e, Nat.digitChar d < Nat.digitChar e := by decide
  exact hall e he d h

/-- Numbers with equally many digits are in order. -/
theorem toDigits_lt_of_length_eq {m n : Nat} (h : m < n)
    (hlength : (Nat.toDigits 10 m).length = (Nat.toDigits 10 n).length) :
    Nat.toDigits 10 m < Nat.toDigits 10 n := by
  induction n using Nat.strong_induction_on generalizing m with
  | _ n ih =>
    by_cases hn : n < 10
    · rw [Nat.toDigits_of_lt_base (by omega), Nat.toDigits_of_lt_base hn, List.cons_lt_cons_iff]
      exact .inl (digitChar_lt hn h)
    · have hm : 10 ≤ m := by
        -- a number of one digit is shorter
        apply Nat.le_of_not_lt
        intro hlt
        rw [Nat.toDigits_of_lt_base hlt, Nat.toDigits_of_base_le (by decide) (by omega)] at hlength
        have hpos := Nat.length_toDigits_pos (b := 10) (n := n / 10)
        simp only [List.length_singleton, List.length_append] at hlength
        omega
      have hsplit : ∀ i, 10 ≤ i → Nat.toDigits 10 i =
          Nat.toDigits 10 (i / 10) ++ [Nat.digitChar (i % 10)] :=
        fun i hi => Nat.toDigits_of_base_le (by decide) hi
      rw [hsplit m hm, hsplit n (by omega)] at hlength ⊢
      simp only [List.length_append, List.length_singleton, Nat.add_right_cancel_iff] at hlength
      by_cases hdiv : m / 10 < n / 10
      · exact append_lt_append (ih (n / 10) (by omega) hdiv hlength) hlength _ _
      · have hsame : m / 10 = n / 10 := by omega
        have hmod : m % 10 < n % 10 := by omega
        rw [hsame]
        apply List.append_left_lt
        rw [List.cons_lt_cons_iff]
        exact .inl (digitChar_lt (by omega) hmod)

/-- Numbers with no power of ten between them are in order. -/
theorem toDigits_lt_toDigits {m n : Nat} (h : m < n)
    (hpow : ∀ k, ¬ (m < 10 ^ (k + 1) ∧ 10 ^ (k + 1) ≤ n)) :
    Nat.toDigits 10 m < Nat.toDigits 10 n := by
  apply toDigits_lt_of_length_eq h
  have hle : ∀ k, (Nat.toDigits 10 m).length ≤ k + 1 ↔ (Nat.toDigits 10 n).length ≤ k + 1 := by
    intro k
    rw [Nat.length_toDigits_le_iff (by decide) (by omega),
      Nat.length_toDigits_le_iff (by decide) (by omega)]
    have hk := hpow k
    omega
  have hm := Nat.length_toDigits_pos (b := 10) (n := m)
  have hn := Nat.length_toDigits_pos (b := 10) (n := n)
  have h₁ := hle ((Nat.toDigits 10 m).length - 1)
  have h₂ := hle ((Nat.toDigits 10 n).length - 1)
  omega

/-- The first digit of a power of ten. -/
theorem toDigits_pow (k : Nat) : ∃ cs, Nat.toDigits 10 (10 ^ k) = '1' :: cs := by
  induction k with
  | zero => exact ⟨[], by decide⟩
  | succ k ih =>
    obtain ⟨cs, hcs⟩ := ih
    have hpos : 0 < 10 ^ k := Nat.pow_pos (by decide)
    rw [Nat.toDigits_of_base_le (by decide) (by rw [Nat.pow_succ]; omega), Nat.pow_succ,
      Nat.mul_div_cancel _ (by decide), hcs]
    exact ⟨_, rfl⟩

/-- The first digit of the number in front of a power of ten. -/
theorem toDigits_pred_pow (k : Nat) : ∃ cs, Nat.toDigits 10 (10 ^ (k + 1) - 1) = '9' :: cs := by
  induction k with
  | zero => exact ⟨[], by decide⟩
  | succ k ih =>
    obtain ⟨cs, hcs⟩ := ih
    have hpos : 0 < 10 ^ k := Nat.pow_pos (by decide)
    have hpow : 10 ^ (k + 1 + 1) = 100 * 10 ^ k := by ring
    have hpow' : 10 ^ (k + 1) = 10 * 10 ^ k := by ring
    have hdiv : (10 ^ (k + 1 + 1) - 1) / 10 = 10 ^ (k + 1) - 1 := by omega
    rw [Nat.toDigits_of_base_le (by decide) (by omega), hdiv, hcs]
    exact ⟨_, rfl⟩

/-- A power of ten comes before its predecessor. -/
theorem toDigits_pow_lt (k : Nat) :
    Nat.toDigits 10 (10 ^ (k + 1)) < Nat.toDigits 10 (10 ^ (k + 1) - 1) := by
  obtain ⟨cs, hcs⟩ := toDigits_pow (k + 1)
  obtain ⟨ds, hds⟩ := toDigits_pred_pow k
  rw [hcs, hds, List.cons_lt_cons_iff]
  exact .inl (by decide)

end Remo.Decimal
