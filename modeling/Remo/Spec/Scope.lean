import Remo.Native.Scope
import Mathlib.Data.String.Basic

/-!
# Scoped keys are kept apart

The decimal byte length in front of the scope id ends at the first colon, and
two scope ids of one length that start the same are the same. So a key of one
scope is never read as a key of another.
-/

namespace Remo

/-- Two colon-terminated fields at the start of one list are the same field. -/
theorem prefix_of_colon {xs ys l m : List Char} (hxs : ':' ∉ xs) (hys : ':' ∉ ys)
    (h : xs ++ ':' :: l <+: ys ++ ':' :: m) : xs = ys ∧ l <+: m := by
  induction xs generalizing ys with
  | nil =>
    cases ys with
    | nil => exact ⟨rfl, (List.cons_prefix_cons.mp h).2⟩
    | cons y ys =>
      have hy := (List.cons_prefix_cons.mp h).1
      exact absurd (hy ▸ List.mem_cons_self) hys
  | cons x xs ih =>
    cases ys with
    | nil =>
      have hx := (List.cons_prefix_cons.mp h).1
      exact absurd (hx ▸ List.mem_cons_self) hxs
    | cons y ys =>
      obtain ⟨hxy, hrest⟩ := List.cons_prefix_cons.mp h
      obtain ⟨hsame, htail⟩ := ih (fun hc => hxs (List.mem_cons_of_mem _ hc))
        (fun hc => hys (List.mem_cons_of_mem _ hc)) hrest
      exact ⟨by rw [hxy, hsame], htail⟩

/-- A decimal number holds no colon. -/
theorem colon_not_mem_toString (n : Nat) : ':' ∉ (toString n).toList := by
  rw [Nat.toString_eq_ofList_toDigits, String.toList_ofList]
  intro h
  exact absurd (Nat.isDigit_of_mem_toDigits (by decide) (by decide) h) (by decide)

theorem toString_nat_inj {m n : Nat} (h : (toString m).toList = (toString n).toList) : m = n := by
  simp only [Nat.toString_eq_ofList_toDigits, String.toList_ofList] at h
  rw [← Nat.ofDigitChars_ten_toDigits (n := m), h, Nat.ofDigitChars_ten_toDigits]

/-- Ids that are numbers behind one text are as different as their numbers. -/
theorem append_toString_inj {start : String} {m n : UInt64}
    (h : start ++ toString m.toNat = start ++ toString n.toNat) : m = n := by
  have hlist := congrArg String.toList h
  rw [String.toList_append, String.toList_append] at hlist
  exact UInt64.toNat_inj.mp (toString_nat_inj (List.append_cancel_left hlist))

/-- Two strings of one byte length that start one list are the same. -/
theorem eq_of_prefix_of_utf8ByteSize {a b : String} {l : List Char} (ha : a.toList <+: l)
    (hb : b.toList <+: l) (hsize : a.utf8ByteSize = b.utf8ByteSize) : a = b := by
  have hlen : ∀ s : String, s.utf8ByteSize = String.utf8Len s.toList := fun s => by
    rw [← String.utf8ByteSize_ofList, String.ofList_toList]
  rw [hlen, hlen] at hsize
  -- a proper extension has more bytes
  have hzero : ∀ t : List Char, String.utf8Len t = 0 → t = [] := by
    intro t ht
    cases t with
    | nil => rfl
    | cons c cs =>
      have hpos := Char.utf8Size_pos c
      rw [String.utf8Len_cons] at ht
      omega
  rcases List.prefix_or_prefix_of_prefix ha hb with ⟨t, ht⟩ | ⟨t, ht⟩
  · rw [← ht, String.utf8Len_append] at hsize
    rw [hzero t (by omega), List.append_nil] at ht
    exact String.toList_inj.mp ht
  · rw [← ht, String.utf8Len_append] at hsize
    rw [hzero t (by omega), List.append_nil] at ht
    exact String.toList_inj.mp ht.symm

/-- What a key of a scope starts with tells the scope. -/
theorem eq_of_keyStart {scope scope' : ScopeId} {value : String}
    (h : scope.keyStart.toList <+: (scopedKey scope' value).toList) : scope = scope' := by
  have hparts : "scope:".toList ++ ((toString scope.value.utf8ByteSize).toList ++
      ':' :: (scope.value.toList ++ [':'])) <+: "scope:".toList ++
        ((toString scope'.value.utf8ByteSize).toList ++
          ':' :: (scope'.value.toList ++ ':' :: value.toList)) := by
    simpa [ScopeId.keyStart, scopedKey] using h
  obtain ⟨hdigits, hrest⟩ := prefix_of_colon (colon_not_mem_toString _) (colon_not_mem_toString _)
    (List.prefix_append_right_inj _ |>.mp hparts)
  have hvalue : scope.value = scope'.value :=
    eq_of_prefix_of_utf8ByteSize ((List.prefix_append _ _).trans hrest) (List.prefix_append _ _)
      (toString_nat_inj hdigits)
  cases scope
  cases scope'
  cases hvalue
  rfl

/-- A scope reads its own keys back and no key of another scope. -/
theorem unscopedKey_scopedKey (scope scope' : ScopeId) (value : String) :
    unscopedKey scope (scopedKey scope' value) = if scope = scope' then some value else none := by
  unfold unscopedKey Str.stripPrefix
  by_cases hscope : scope = scope'
  · subst hscope
    have hstart : scope.keyStart.toList <+: (scopedKey scope value).toList := by
      simp [scopedKey]
    rw [if_pos hstart, if_pos rfl]
    simp [scopedKey]
  · rw [if_neg hscope, if_neg fun h => hscope (eq_of_keyStart h)]

/-- The key belongs to the scope. -/
def ScopeId.owns (scope : ScopeId) (key : String) : Bool := (unscopedKey scope key).isSome

@[simp] theorem ScopeId.owns_scopedKey (scope scope' : ScopeId) (value : String) :
    scope.owns (scopedKey scope' value) = decide (scope = scope') := by
  unfold ScopeId.owns
  rw [unscopedKey_scopedKey]
  split <;> simp [*]

end Remo
