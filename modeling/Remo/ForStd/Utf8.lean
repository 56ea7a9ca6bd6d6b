import Mathlib.Data.List.Basic

/-!
# UTF-8 as lists of bytes

The bytes of a list of characters, for programs that work on the bytes of a text. A character's
first byte shows where it starts, so a text can be cut only between characters.

Key results:
* `append_inj_left`    the first character of a text is read off its bytes
* `split_of_first`     a part of a text that begins with a first byte begins with a character
* `eq_of_mem_encodeChar` an ASCII byte is a character of its own
-/

namespace Remo.Utf8

/-- The bytes of a text. -/
def bytes (cs : List Char) : List UInt8 := cs.flatMap String.utf8EncodeChar

@[simp] theorem bytes_nil : bytes [] = [] := rfl

@[simp] theorem bytes_cons (c : Char) (cs : List Char) :
    bytes (c :: cs) = String.utf8EncodeChar c ++ bytes cs := rfl

@[simp] theorem bytes_append (cs cs' : List Char) : bytes (cs ++ cs') = bytes cs ++ bytes cs' :=
  List.flatMap_append

/-- A character has a first byte, and no other byte looks like one. -/
theorem encodeChar_eq_cons (c : Char) :
    ∃ first rest, String.utf8EncodeChar c = first :: rest ∧ first.IsUTF8FirstByte ∧
      ∀ b ∈ rest, ¬ b.IsUTF8FirstByte := by
  cases hc : String.utf8EncodeChar c with
  | nil => exact absurd hc String.utf8EncodeChar_ne_nil
  | cons first rest =>
    have hbyte : ∀ (i : Nat) (b : UInt8), (first :: rest)[i]? = some b →
        (b.IsUTF8FirstByte ↔ i = 0) := by
      intro i b hi
      rw [← hc] at hi
      obtain ⟨hlt, rfl⟩ := List.getElem?_eq_some_iff.mp hi
      exact UInt8.isUTF8FirstByte_getElem_utf8EncodeChar
    refine ⟨first, rest, rfl, (hbyte 0 first rfl).mpr rfl, ?_⟩
    intro b hb hfirst
    obtain ⟨i, hi⟩ := List.mem_iff_getElem?.mp hb
    have hzero := (hbyte (i + 1) b (by simpa using hi)).mp hfirst
    omega

/-- The first character of a text is read off its bytes. -/
theorem append_inj_left {c d : Char} {rest rest' : List UInt8}
    (h : String.utf8EncodeChar c ++ rest = String.utf8EncodeChar d ++ rest') :
    c = d ∧ rest = rest' := by
  have hdecode : ∀ (c : Char) (rest : List UInt8),
      (String.utf8EncodeChar c ++ rest).toByteArray.utf8DecodeChar? 0 = some c := by
    intro c rest
    rw [List.toByteArray_append]
    exact ByteArray.utf8DecodeChar?_utf8EncodeChar_append
  have hcd : c = d := by
    have hc := hdecode c rest
    rw [h, hdecode d rest'] at hc
    exact (Option.some.inj hc).symm
  subst hcd
  exact ⟨rfl, List.append_cancel_left h⟩

theorem bytes_inj {cs cs' : List Char} (h : bytes cs = bytes cs') : cs = cs' := by
  induction cs generalizing cs' with
  | nil =>
    cases cs' with
    | nil => rfl
    | cons d cs' =>
      obtain ⟨first, rest, hd, -⟩ := encodeChar_eq_cons d
      simp [hd] at h
  | cons c cs ih =>
    cases cs' with
    | nil =>
      obtain ⟨first, rest, hc, -⟩ := encodeChar_eq_cons c
      simp [hc] at h
    | cons d cs' =>
      obtain ⟨rfl, hrest⟩ := append_inj_left h
      rw [ih hrest]

/-- A text whose bytes begin with those of a character begins with the character. -/
theorem eq_cons_of_bytes {cs : List Char} {c : Char} {rest : List UInt8}
    (h : bytes cs = String.utf8EncodeChar c ++ rest) : ∃ cs', cs = c :: cs' ∧ rest = bytes cs' := by
  cases cs with
  | nil =>
    obtain ⟨first, rest', hc, -⟩ := encodeChar_eq_cons c
    simp [hc] at h
  | cons d cs =>
    obtain ⟨rfl, hrest⟩ := append_inj_left h
    exact ⟨cs, rfl, hrest.symm⟩

/-- A part of a text that begins with a first byte begins with a character. -/
theorem split_of_first {cs : List Char} {before rest : List UInt8} {b : UInt8}
    (h : bytes cs = before ++ b :: rest) (hb : b.IsUTF8FirstByte) :
    ∃ cs₁ cs₂, cs = cs₁ ++ cs₂ ∧ before = bytes cs₁ ∧ b :: rest = bytes cs₂ := by
  induction cs generalizing before with
  | nil => simp at h
  | cons c cs ih =>
    obtain ⟨first, tail, hc, -, htail⟩ := encodeChar_eq_cons c
    rw [bytes_cons, List.append_eq_append_iff] at h
    cases h with
    | inl hlong =>
      -- the part begins behind the first character
      obtain ⟨before', rfl, hrest⟩ := hlong
      obtain ⟨cs₁, cs₂, rfl, rfl, hcs₂⟩ := ih hrest
      exact ⟨c :: cs₁, cs₂, rfl, rfl, hcs₂⟩
    | inr hshort =>
      obtain ⟨inner, hinner, hrest⟩ := hshort
      cases before with
      | nil =>
        refine ⟨[], c :: cs, rfl, rfl, ?_⟩
        rw [bytes_cons, hinner]
        exact hrest
      | cons b' before =>
        -- the part would begin inside the first character
        cases inner with
        | nil =>
          refine ⟨[c], cs, rfl, ?_, ?_⟩
          · simpa using hinner.symm
          · simpa using hrest
        | cons b'' inner =>
          obtain rfl : b = b'' := by simpa using (List.cons.inj hrest).1
          rw [hc, List.cons_append] at hinner
          have hmem : b ∈ tail := by
            rw [(List.cons.inj hinner).2]
            simp
          exact absurd hb (htail b hmem)

/-! ## ASCII -/

/-- An ASCII character is one byte. -/
theorem encodeChar_ascii {c : Char} (h : c.toNat < 128) :
    String.utf8EncodeChar c = [c.val.toUInt8] := by
  apply String.utf8EncodeChar_eq_singleton
  rw [Char.utf8Size_eq_one_iff, UInt32.le_iff_toNat_le]
  have hval : c.val.toNat = c.toNat := rfl
  have hmax : (127 : UInt32).toNat = 127 := rfl
  omega

/-- The bytes of another character are no ASCII bytes. -/
theorem le_of_mem_encodeChar {c : Char} (h : 128 ≤ c.toNat) :
    ∀ b ∈ String.utf8EncodeChar c, 0x80 ≤ b.toNat := by
  have hor : ∀ (x y : UInt8), 0x80 ≤ y.toNat → 0x80 ≤ (x ||| y).toNat := by
    intro x y hy
    rw [UInt8.toNat_or]
    exact Nat.le_trans hy Nat.right_le_or
  have hone : c.utf8Size ≠ 1 := by
    rw [ne_eq, Char.utf8Size_eq_one_iff, UInt32.le_iff_toNat_le]
    have hval : c.val.toNat = c.toNat := rfl
    have hmax : (127 : UInt32).toNat = 127 := rfl
    omega
  have hpos := c.utf8Size_pos
  have hle := c.utf8Size_le_four
  have hsize : c.utf8Size = 2 ∨ c.utf8Size = 3 ∨ c.utf8Size = 4 := by omega
  intro b hb
  cases hsize with
  | inl htwo =>
    rw [String.utf8EncodeChar_eq_cons_cons htwo] at hb
    simp only [List.mem_cons, List.not_mem_nil, or_false] at hb
    rcases hb with rfl | rfl <;> exact hor _ _ (by decide)
  | inr hsize =>
    cases hsize with
    | inl hthree =>
      rw [String.utf8EncodeChar_eq_cons_cons_cons hthree] at hb
      simp only [List.mem_cons, List.not_mem_nil, or_false] at hb
      rcases hb with rfl | rfl | rfl <;> exact hor _ _ (by decide)
    | inr hfour =>
      rw [String.utf8EncodeChar_eq_cons_cons_cons_cons hfour] at hb
      simp only [List.mem_cons, List.not_mem_nil, or_false] at hb
      rcases hb with rfl | rfl | rfl | rfl <;> exact hor _ _ (by decide)

/-- A byte that is a character by itself occurs in no other character. -/
theorem eq_of_mem_encodeChar {c d : Char} {b : UInt8} (hc : b ∈ String.utf8EncodeChar c)
    (hd : String.utf8EncodeChar d = [b]) : c = d := by
  have hsmall : b.toNat < 128 := by
    have hsize : d.utf8Size = 1 := by rw [← String.length_utf8EncodeChar, hd, List.length_singleton]
    rw [Char.utf8Size_eq_one_iff, UInt32.le_iff_toNat_le] at hsize
    have hb : b = d.val.toUInt8 := by
      have hascii : d.toNat < 128 := Nat.lt_succ_of_le hsize
      rw [encodeChar_ascii hascii] at hd
      exact (List.singleton_inj.mp hd).symm
    have hmax : (127 : UInt32).toNat = 127 := rfl
    rw [hb, UInt32.toNat_toUInt8]
    omega
  have hascii : c.toNat < 128 := by
    by_contra hle
    have hlarge := le_of_mem_encodeChar (Nat.le_of_not_lt hle) b hc
    omega
  rw [encodeChar_ascii hascii, List.mem_singleton] at hc
  have hbytes : String.utf8EncodeChar c ++ [] = String.utf8EncodeChar d ++ [] := by
    rw [encodeChar_ascii hascii, hd, hc]
  exact (append_inj_left hbytes).1

end Remo.Utf8
