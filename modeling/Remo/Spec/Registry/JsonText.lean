import Remo.ForStd.Delimited
import Remo.Native.Value

/-!
# Reading printed JSON

A printed JSON value shows where it ends, so no two values have the same printing.

## Key results

- `unescape_escapeChar`: a character of a string is read off its escape.
- `readAt_print`: a printed value is read off a text.
- `print_inj`: no two well-formed values are printed alike.
-/

namespace Remo

namespace Value

open Delimited (Stops ReadAt joined)

theorem wellFormedElems_iff {elems : List Value} :
    WellFormedElems elems ↔ ∀ v ∈ elems, v.WellFormed := by
  induction elems with
  | nil => simp [WellFormedElems]
  | cons v elems ih => simp [WellFormedElems, ih]

theorem wellFormedEntries_iff {entries : List (String × Value)} :
    WellFormedEntries entries ↔ ∀ entry ∈ entries, entry.2.WellFormed := by
  induction entries with
  | nil => simp [WellFormedEntries]
  | cons entry entries ih => simp [WellFormedEntries, ih]

/-! ## Strings -/

/-- The value of a hexadecimal digit in lower case. -/
def hexValue (c : Char) : Nat := if c.toNat < 0x3A then c.toNat - 0x30 else c.toNat - 0x57

theorem hexValue_hexDigit {n : Nat} (h : n < 16) : hexValue (hexDigit n) = n := by
  have hall : ∀ n < 16, hexValue (hexDigit n) = n := by decide
  exact hall n h

/-- The character that an escape of one letter stands for. -/
def escaped (c : Char) : Char :=
  if c = 'n' then '\n'
  else if c = 'r' then '\r'
  else if c = 't' then '\t'
  else if c = 'b' then Char.ofNat 0x08
  else if c = 'f' then Char.ofNat 0x0C
  else c

/-- The first character of a printed string, and what is behind it. -/
def unescape : List Char → Option (Char × List Char)
  | [] => none
  | c :: text =>
    if c = '\\' then
      match text with
      | [] => none
      | mark :: text =>
        if mark = 'u' then
          some (Char.ofNat (16 * hexValue (text.getD 2 '0') + hexValue (text.getD 3 '0')),
            text.drop 4)
        else some (escaped mark, text)
    else some (c, text)

/-- A character is read off its escape. -/
theorem unescape_escapeChar (c : Char) (text : List Char) :
    unescape (escapeChar c ++ text) = some (c, text) := by
  unfold escapeChar
  split
  · rfl
  · rfl
  · rfl
  · rfl
  · rfl
  · rename_i hquote hslash _ _ _
    split
    · rename_i h
      have hc : c = Char.ofNat 0x08 := by rw [← h, Char.ofNat_toNat]
      rw [hc]
      rfl
    · split
      · rename_i h
        have hc : c = Char.ofNat 0x0C := by rw [← h, Char.ofNat_toNat]
        rw [hc]
        rfl
      · split
        · rename_i hcontrol
          have hhigh : hexValue (hexDigit (c.toNat / 16)) = c.toNat / 16 :=
            hexValue_hexDigit (by omega)
          have hlow : hexValue (hexDigit (c.toNat % 16)) = c.toNat % 16 :=
            hexValue_hexDigit (by omega)
          show some (Char.ofNat (16 * hexValue (hexDigit (c.toNat / 16)) +
            hexValue (hexDigit (c.toNat % 16))), text) = _
          rw [hhigh, hlow, Nat.div_add_mod, Char.ofNat_toNat]
        · show (if c = '\\' then _ else some (c, text)) = _
          rw [if_neg hslash]

/-- No escape begins with the end of the string. -/
theorem escapeChar_ne_quote (c : Char) (text rest : List Char) :
    escapeChar c ++ text ≠ '"' :: rest := by
  intro h
  have hread := unescape_escapeChar c text
  rw [h] at hread
  have hquote : unescape ('"' :: rest) = some ('"', rest) := rfl
  rw [hquote] at hread
  have hc : c = '"' := (congrArg Prod.fst (Option.some.inj hread)).symm
  rw [hc] at h
  cases h

theorem flatMap_escapeChar_inj {cs ds rest rest' : List Char}
    (h : cs.flatMap escapeChar ++ '"' :: rest = ds.flatMap escapeChar ++ '"' :: rest') :
    cs = ds ∧ rest = rest' := by
  induction cs generalizing ds with
  | nil =>
    cases ds with
    | nil => exact ⟨rfl, (List.cons.inj h).2⟩
    | cons d ds =>
      rw [List.flatMap_cons, List.append_assoc] at h
      exact absurd h.symm (escapeChar_ne_quote d _ _)
  | cons c cs ih =>
    cases ds with
    | nil =>
      rw [List.flatMap_cons, List.append_assoc] at h
      exact absurd h (escapeChar_ne_quote c _ _)
    | cons d ds =>
      rw [List.flatMap_cons, List.flatMap_cons, List.append_assoc, List.append_assoc] at h
      have hread := congrArg unescape h
      rw [unescape_escapeChar, unescape_escapeChar] at hread
      obtain ⟨hc, htail⟩ := Prod.mk.inj (Option.some.inj hread)
      obtain ⟨hcs, hrest⟩ := ih htail
      exact ⟨by rw [hc, hcs], hrest⟩

theorem toList_printString (s : String) :
    (printString s).toList = '"' :: (s.toList.flatMap escapeChar ++ ['"']) := by
  simp [printString]

theorem printString_read {s s' : String} {rest rest' : List Char}
    (h : (printString s).toList ++ rest = (printString s').toList ++ rest') :
    s = s' ∧ rest = rest' := by
  rw [toList_printString, toList_printString, List.cons_append, List.cons_append,
    List.append_assoc, List.append_assoc] at h
  obtain ⟨hlist, hrest⟩ := flatMap_escapeChar_inj (List.cons.inj h).2
  exact ⟨String.toList_inj.mp hlist, hrest⟩

/-! ## Values -/

theorem printElems_eq (elems : List Value) : printElems elems = elems.map print := by
  induction elems with
  | nil => rfl
  | cons v elems ih => rw [printElems, ih, List.map_cons]

theorem printEntries_eq (entries : List (String × Value)) :
    printEntries entries = entries.map fun entry => printString entry.1 ++ ":" ++ print entry.2 := by
  induction entries with
  | nil => rfl
  | cons entry entries ih => rw [printEntries, ih, List.map_cons]

/-- The characters of a printed value. -/
def text (v : Value) : List Char := (print v).toList

/-- The characters of a printed entry of an object. -/
def entryText (entry : String × Value) : List Char :=
  (printString entry.1).toList ++ ':' :: entry.2.text

theorem text_array (elems : List Value) :
    text (.array elems) = '[' :: (joined ',' text elems ++ [']']) := by
  rw [← Delimited.intercalate_eq_joined, text, print, printElems_eq]
  simp [String.toList_intercalate, Function.comp_def]
  rfl

theorem text_object (entries : List (String × Value)) :
    text (.object entries) = '\x7b' :: (joined ',' entryText entries ++ ['\x7d']) := by
  rw [← Delimited.intercalate_eq_joined, text, print, printEntries_eq]
  simp [String.toList_intercalate, Function.comp_def]
  rfl

/-- The kinds of values, by how their printing begins. -/
inductive Kind where
  | null
  | bool
  | number
  | string
  | array
  | object
deriving DecidableEq

def kind : Value → Kind
  | .null => .null
  | .bool _ => .bool
  | .number _ => .number
  | .string _ => .string
  | .array _ => .array
  | .object _ => .object

/-- The kind of the values whose printing begins with a character. -/
def kindOf (c : Char) : Kind :=
  if c = 'n' then .null
  else if c = 't' ∨ c = 'f' then .bool
  else if c = '"' then .string
  else if c = '[' then .array
  else if c = '\x7b' then .object
  else .number

theorem kindOf_number {c : Char} (h : IsNumberChar c) : kindOf c = .number := by
  unfold kindOf
  have hne : ∀ d : Char, ¬IsNumberChar d → c ≠ d := by
    intro d hd heq
    rw [heq] at h
    exact hd h
  rw [if_neg (hne 'n' (by decide)), if_neg (not_or.mpr ⟨hne 't' (by decide), hne 'f' (by decide)⟩),
    if_neg (hne '"' (by decide)), if_neg (hne '[' (by decide)), if_neg (hne '\x7b' (by decide))]

/-- The first character of a printed value shows its kind. -/
theorem text_begins {v : Value} (h : v.WellFormed) :
    ∃ c tail, v.text = c :: tail ∧ kindOf c = v.kind := by
  cases v with
  | null => exact ⟨'n', _, rfl, rfl⟩
  | bool b => cases b with
    | true => exact ⟨'t', _, rfl, rfl⟩
    | false => exact ⟨'f', _, rfl, rfl⟩
  | number text =>
    obtain ⟨hne, hall⟩ := h
    obtain ⟨c, tail, hc⟩ := List.exists_cons_of_ne_nil hne
    exact ⟨c, tail, hc, kindOf_number (hall c (by rw [hc]; exact List.mem_cons_self))⟩
  | string s => exact ⟨'"', _, toList_printString s, rfl⟩
  | array elems => exact ⟨'[', _, text_array elems, rfl⟩
  | object entries => exact ⟨'\x7b', _, text_object entries, rfl⟩

/-- What comes behind a value is not the rest of a number. -/
abbrev IsStop (c : Char) : Prop := ¬IsNumberChar c

theorem kind_eq_of_text {v w : Value} (hv : v.WellFormed) (hw : w.WellFormed)
    {rest rest' : List Char} (h : v.text ++ rest = w.text ++ rest') : v.kind = w.kind := by
  obtain ⟨c, tail, hc, hkind⟩ := text_begins hv
  obtain ⟨d, tail', hd, hkind'⟩ := text_begins hw
  rw [hc, hd] at h
  rw [← hkind, ← hkind', (List.cons.inj h).1]

theorem begins_ne_bracket {v : Value} (h : v.WellFormed) :
    ∃ c tail, v.text = c :: tail ∧ c ≠ ']' := by
  obtain ⟨c, tail, hc, hkind⟩ := text_begins h
  refine ⟨c, tail, hc, ?_⟩
  intro heq
  -- a bracket is no number character, so it would show the kind of a number
  rw [heq] at hc hkind
  cases v with
  | number text =>
    have hbracket := h.2 ']' (by
      show ']' ∈ Value.text (.number text)
      rw [hc]
      exact List.mem_cons_self)
    exact absurd hbracket (by decide)
  | null => cases hkind
  | bool b => cases hkind
  | string s => cases hkind
  | array elems => cases hkind
  | object entries => cases hkind

theorem readAt_number {t : String} (h : (Value.number t).WellFormed) :
    ReadAt IsStop text WellFormed (.number t) := by
  intro w rest rest' hw hrest hrest' heq
  have hkind := kind_eq_of_text h hw heq
  cases w with
  | number t' =>
    have htext : ∀ c ∈ t.toList, ¬IsStop c := fun c hc => not_not.mpr (h.2 c hc)
    have htext' : ∀ c ∈ t'.toList, ¬IsStop c := fun c hc => not_not.mpr (hw.2 c hc)
    obtain ⟨hsame, hr⟩ :=
      Delimited.readAt_of_takeWhile htext t'.toList rest rest' htext' hrest hrest' heq
    rw [String.toList_inj.mp hsame]
    exact ⟨rfl, hr⟩
  | null => cases hkind
  | bool b => cases hkind
  | string s => cases hkind
  | array elems => cases hkind
  | object entries => cases hkind

/-- An array is read off when its elements are. -/
theorem readAt_array {elems : List Value} (h : ∀ v ∈ elems, v.WellFormed)
    (hread : ∀ v ∈ elems, ReadAt IsStop text WellFormed v) :
    ReadAt IsStop text WellFormed (.array elems) := by
  intro w rest rest' hw hrest hrest' heq
  have hkind := kind_eq_of_text (v := .array elems) (wellFormedElems_iff.mpr h) hw heq
  cases w with
  | array elems' =>
    rw [text_array, text_array, List.cons_append, List.cons_append, List.append_assoc,
      List.append_assoc] at heq
    obtain ⟨hsame, hr⟩ := Delimited.readAt_joined (by decide) (by decide) (by decide)
      (fun v hv => begins_ne_bracket hv) hread h (wellFormedElems_iff.mp hw)
      (List.cons.inj heq).2
    rw [hsame]
    exact ⟨rfl, hr⟩
  | null => cases hkind
  | bool b => cases hkind
  | number text => cases hkind
  | string s => cases hkind
  | object entries => cases hkind

/-- An object is read off when the values of its entries are. -/
theorem readAt_object {entries : List (String × Value)} (hnodup : (entries.map Prod.fst).Nodup)
    (h : ∀ entry ∈ entries, entry.2.WellFormed)
    (hread : ∀ entry ∈ entries, ReadAt IsStop text WellFormed entry.2) :
    ReadAt IsStop text WellFormed (.object entries) := by
  intro w rest rest' hw hrest hrest' heq
  have hkind := kind_eq_of_text (v := .object entries) ⟨hnodup, wellFormedEntries_iff.mpr h⟩ hw heq
  cases w with
  | object entries' =>
    rw [text_object, text_object, List.cons_append, List.cons_append, List.append_assoc,
      List.append_assoc] at heq
    have hentries : ∀ entry ∈ entries,
        ReadAt IsStop entryText (fun entry => entry.2.WellFormed) entry := by
      intro entry hmem
      obtain ⟨name, v⟩ := entry
      apply Delimited.readAt_pair (fun name => (printString name).toList) ':' _
        (hread (name, v) hmem)
      intro k' r r' hkey
      obtain ⟨hk, hmark⟩ := printString_read hkey
      exact ⟨hk, (List.cons.inj hmark).2⟩
    obtain ⟨hsame, hr⟩ := Delimited.readAt_joined (by decide) (by decide) (by decide)
      (fun entry _ => ⟨'"', _, by rw [entryText, toList_printString]; rfl, by decide⟩)
      hentries h (wellFormedEntries_iff.mp hw.2) (List.cons.inj heq).2
    rw [hsame]
    exact ⟨rfl, hr⟩
  | null => cases hkind
  | bool b => cases hkind
  | number text => cases hkind
  | string s => cases hkind
  | array elems => cases hkind

mutual

/-- A printed value is read off a text. -/
theorem readAt_print (v : Value) (h : v.WellFormed) : ReadAt IsStop text WellFormed v := by
  cases v with
  | null =>
    intro w rest rest' hw hrest hrest' heq
    have hkind := kind_eq_of_text h hw heq
    cases w with
    | null => exact ⟨rfl, List.append_cancel_left heq⟩
    | bool b => cases hkind
    | number text => cases hkind
    | string s => cases hkind
    | array elems => cases hkind
    | object entries => cases hkind
  | bool b =>
    intro w rest rest' hw hrest hrest' heq
    have hkind := kind_eq_of_text h hw heq
    cases w with
    | bool b' =>
      cases b <;> cases b'
      · exact ⟨rfl, List.append_cancel_left heq⟩
      · have hfirst := (List.cons.inj heq).1
        cases hfirst
      · have hfirst := (List.cons.inj heq).1
        cases hfirst
      · exact ⟨rfl, List.append_cancel_left heq⟩
    | null => cases hkind
    | number text => cases hkind
    | string s => cases hkind
    | array elems => cases hkind
    | object entries => cases hkind
  | number text => exact readAt_number h
  | string s =>
    intro w rest rest' hw hrest hrest' heq
    have hkind := kind_eq_of_text h hw heq
    cases w with
    | string s' =>
      obtain ⟨hs, hr⟩ := printString_read heq
      rw [hs]
      exact ⟨rfl, hr⟩
    | null => cases hkind
    | bool b => cases hkind
    | number text => cases hkind
    | array elems => cases hkind
    | object entries => cases hkind
  | array elems =>
    exact readAt_array (wellFormedElems_iff.mp h) (readAt_printElems elems h)
  | object entries =>
    exact readAt_object h.1 (wellFormedEntries_iff.mp h.2) (readAt_printEntries entries h.2)

theorem readAt_printElems (elems : List Value) (h : WellFormedElems elems) :
    ∀ v ∈ elems, ReadAt IsStop text WellFormed v := by
  cases elems with
  | nil => simp
  | cons v elems =>
    intro w hw
    cases List.mem_cons.mp hw with
    | inl heq =>
      rw [heq]
      exact readAt_print v h.1
    | inr hmem => exact readAt_printElems elems h.2 w hmem

theorem readAt_printEntries (entries : List (String × Value)) (h : WellFormedEntries entries) :
    ∀ entry ∈ entries, ReadAt IsStop text WellFormed entry.2 := by
  cases entries with
  | nil => simp
  | cons entry entries =>
    obtain ⟨name, v⟩ := entry
    intro other hother
    cases List.mem_cons.mp hother with
    | inl heq =>
      rw [heq]
      exact readAt_print v h.1
    | inr hmem => exact readAt_printEntries entries h.2 other hmem

end

/-- No two well-formed values are printed alike. -/
theorem print_inj {v w : Value} (hv : v.WellFormed) (hw : w.WellFormed) (h : print v = print w) :
    v = w := by
  have htext : v.text ++ [] = w.text ++ [] := by
    unfold text
    rw [h]
  exact (readAt_print v hv w [] [] hw (by simp) (by simp) htext).1

end Value

end Remo
