import Remo.Native.Registry.Canonical
import Remo.Spec.Registry.JsonText

/-!
# Canonical bytes stand for values

The canonical bytes of a value are the compact printing of the value with all its entries sorted.
Two values have the same bytes exactly when they are the same as JSON.

## Key results

- `writeCanonicalJson_ok`: what the writer writes is the printing of the sorted value.
- `canon_eq_iff`: values with the same sorted value are the same as JSON.
- `canonicalBytes_eq_iff`: and those are the values with the same bytes.
-/

namespace Remo

namespace Value

section Same

-- When a number is the same as another.
variable (num : String → String → Prop)

mutual

/-- The values are the same as JSON: objects have the same value under every key, in whatever
    order. -/
def SameBy : Value → Value → Prop
  | .null, .null => True
  | .bool b, .bool b' => b = b'
  | .number text, .number text' => num text text'
  | .string s, .string s' => s = s'
  | .array elems, .array elems' => SameElems elems elems'
  | .object entries, .object entries' =>
    entries.length = entries'.length ∧ SameEntries entries entries'
  | _, _ => False

def SameElems : List Value → List Value → Prop
  | [], [] => True
  | v :: elems, v' :: elems' => SameBy v v' ∧ SameElems elems elems'
  | _, _ => False

/-- The entries are all in the object. -/
def SameEntries : List (String × Value) → List (String × Value) → Prop
  | [], _ => True
  | (name, v) :: entries, entries' =>
    (∃ v', entries'.lookup name = some v' ∧ SameBy v v') ∧ SameEntries entries entries'

end

end Same

/-- The values are the same, with the same numbers. -/
abbrev Same : Value → Value → Prop := SameBy Eq

/-- The entries of an object in the order they are written. -/
def Before (a b : String × Value) : Prop :=
  BytesLe (bytesOf (printString a.1)) (bytesOf (printString b.1))

instance : DecidableRel Before := fun a b =>
  inferInstanceAs (Decidable (BytesLe (bytesOf (printString a.1)) (bytesOf (printString b.1))))

mutual

/-- The value with the entries of all its objects sorted. -/
def canon : Value → Value
  | .null => .null
  | .bool b => .bool b
  | .number text => .number text
  | .string s => .string s
  | .array elems => .array (canonElems elems)
  | .object entries => .object ((canonEntries entries).insertionSort Before)

def canonElems : List Value → List Value
  | [] => []
  | v :: elems => canon v :: canonElems elems

def canonEntries : List (String × Value) → List (String × Value)
  | [] => []
  | (name, v) :: entries => (name, canon v) :: canonEntries entries

end

theorem canonElems_eq (elems : List Value) : canonElems elems = elems.map canon := by
  induction elems with
  | nil => rfl
  | cons v elems ih => rw [canonElems, ih, List.map_cons]

theorem canonEntries_eq (entries : List (String × Value)) :
    canonEntries entries = entries.map fun entry => (entry.1, canon entry.2) := by
  induction entries with
  | nil => rfl
  | cons entry entries ih => rw [canonEntries, ih, List.map_cons]

/-! ## The order of the entries -/

theorem bytesOf_inj {s s' : String} (h : bytesOf s = bytesOf s') : s = s' :=
  String.toList_inj.mp (Utf8.bytes_inj h)

theorem printString_inj {s s' : String} (h : printString s = printString s') : s = s' := by
  have htext : (printString s).toList ++ [] = (printString s').toList ++ [] := by rw [h]
  exact (printString_read htext).1

theorem bytesLe_antisymm {a b : List UInt8} (h : BytesLe a b) (h' : BytesLe b a) : a = b := by
  have hmap := le_antisymm h h'
  exact List.map_injective_iff.mpr (fun _ _ => UInt8.toNat_inj.mp) hmap

theorem before_total (a b : String × Value) : Before a b ∨ Before b a := le_total _ _

theorem before_trans {a b c : String × Value} (h : Before a b) (h' : Before b c) : Before a c :=
  le_trans h h'

theorem before_antisymm {a b : String × Value} (h : Before a b) (h' : Before b a) : a.1 = b.1 :=
  printString_inj (bytesOf_inj (bytesLe_antisymm h h'))

instance : Std.Total Before := ⟨before_total⟩

instance : IsTrans (String × Value) Before := ⟨fun _ _ _ => before_trans⟩

/-- Entries with different keys have one sorted order. -/
theorem insertionSort_eq_of_perm {es fs : List (String × Value)} (hnodup : (es.map Prod.fst).Nodup)
    (h : es.Perm fs) : es.insertionSort Before = fs.insertionSort Before := by
  have hperm : (es.insertionSort Before).Perm (fs.insertionSort Before) :=
    (List.perm_insertionSort _ _).trans (h.trans (List.perm_insertionSort _ _).symm)
  apply hperm.eq_of_pairwise _ (List.pairwise_insertionSort _ _) (List.pairwise_insertionSort _ _)
  intro a b ha hb hab hba
  have hkey := before_antisymm hab hba
  have ha' := (List.mem_insertionSort _).mp ha
  have hb' := h.mem_iff.mpr ((List.mem_insertionSort _).mp hb)
  exact List.inj_on_of_nodup_map hnodup ha' hb' hkey

/-! ## The same sorted value -/

theorem mem_of_lookup {es : List (String × Value)} {name : String} {v : Value}
    (h : es.lookup name = some v) : (name, v) ∈ es := by
  obtain ⟨before, after, heq, -⟩ := List.lookup_eq_some_iff.mp h
  rw [heq]
  simp

theorem lookup_of_mem {es : List (String × Value)} (hnodup : (es.map Prod.fst).Nodup)
    {name : String} {v : Value} (h : (name, v) ∈ es) : es.lookup name = some v := by
  have hsome : (es.lookup name).isSome := by
    rw [List.lookup_isSome_iff]
    exact ⟨(name, v), h, by simp⟩
  obtain ⟨v', hv'⟩ := Option.isSome_iff_exists.mp hsome
  have hsame := List.inj_on_of_nodup_map hnodup h (mem_of_lookup hv') rfl
  rw [hv', (Prod.mk.inj hsame).2]

theorem sameEntries_iff {num : String → String → Prop} {es fs : List (String × Value)} :
    SameEntries num es fs ↔
      ∀ entry ∈ es, ∃ v', fs.lookup entry.1 = some v' ∧ SameBy num entry.2 v' := by
  induction es with
  | nil => simp [SameEntries]
  | cons entry es ih => simp [SameEntries, ih]

/-- Sorting does not change the keys. -/
theorem keys_canonEntries (es : List (String × Value)) :
    (canonEntries es).map Prod.fst = es.map Prod.fst := by
  rw [canonEntries_eq, List.map_map]
  rfl

/-- Objects have the same sorted entries when they have the same entries. -/
theorem sorted_eq_iff {es fs : List (String × Value)} (hes : (es.map Prod.fst).Nodup)
    (hfs : (fs.map Prod.fst).Nodup) :
    (canonEntries es).insertionSort Before = (canonEntries fs).insertionSort Before ↔
      es.length = fs.length ∧
        ∀ entry ∈ es, ∃ v', fs.lookup entry.1 = some v' ∧ canon entry.2 = canon v' := by
  constructor
  · intro h
    have hperm : (canonEntries es).Perm (canonEntries fs) :=
      (List.perm_insertionSort Before _).symm.trans (h ▸ List.perm_insertionSort Before _)
    refine ⟨?_, ?_⟩
    · have hlength := hperm.length_eq
      rw [canonEntries_eq, canonEntries_eq, List.length_map, List.length_map] at hlength
      exact hlength
    · intro entry hentry
      have hmem : (entry.1, canon entry.2) ∈ canonEntries es := by
        rw [canonEntries_eq]
        exact List.mem_map_of_mem (f := fun e : String × Value => (e.1, canon e.2)) hentry
      have hmem' := hperm.mem_iff.mp hmem
      rw [canonEntries_eq] at hmem'
      obtain ⟨other, hother, heq⟩ := List.mem_map.mp hmem'
      obtain ⟨hname, hvalue⟩ := Prod.mk.inj heq
      refine ⟨other.2, ?_, hvalue.symm⟩
      rw [← hname]
      exact lookup_of_mem hfs hother
  · intro h
    obtain ⟨hlength, hall⟩ := h
    apply insertionSort_eq_of_perm (by rw [keys_canonEntries]; exact hes)
    have hsub : canonEntries es ⊆ canonEntries fs := by
      intro entry hentry
      rw [canonEntries_eq] at hentry
      obtain ⟨other, hother, heq⟩ := List.mem_map.mp hentry
      obtain ⟨v', hv', hcanon⟩ := hall other hother
      rw [canonEntries_eq, ← heq, hcanon]
      exact List.mem_map_of_mem (f := fun e : String × Value => (e.1, canon e.2))
        (mem_of_lookup hv')
    have hnodup : (canonEntries es).Nodup := by
      apply List.Nodup.of_map Prod.fst
      rw [keys_canonEntries]
      exact hes
    apply (List.subperm_of_subset hnodup hsub).perm_of_length_le
    rw [canonEntries_eq, canonEntries_eq, List.length_map, List.length_map, hlength]

mutual

/-- Values have the same sorted value when they are the same as JSON. -/
theorem canon_eq_iff (v w : Value) (hv : v.WellFormed) (hw : w.WellFormed) :
    canon v = canon w ↔ Same v w := by
  cases v with
  | null => cases w <;> simp [canon, SameBy]
  | bool b => cases w <;> simp [canon, SameBy]
  | number text => cases w <;> simp [canon, SameBy]
  | string s => cases w <;> simp [canon, SameBy]
  | array elems =>
    cases w with
    | array elems' =>
      simp only [canon, SameBy, Value.array.injEq]
      exact canonElems_eq_iff elems elems' hv hw
    | null => simp [canon, SameBy]
    | bool b => simp [canon, SameBy]
    | number text => simp [canon, SameBy]
    | string s => simp [canon, SameBy]
    | object entries => simp [canon, SameBy]
  | object entries =>
    cases w with
    | object entries' =>
      simp only [canon, SameBy, Value.object.injEq]
      rw [sorted_eq_iff hv.1 hw.1]
      apply and_congr_right
      intro hlength
      exact canonEntries_eq_iff entries entries' hv.2 (wellFormedEntries_iff.mp hw.2)
    | null => simp [canon, SameBy]
    | bool b => simp [canon, SameBy]
    | number text => simp [canon, SameBy]
    | string s => simp [canon, SameBy]
    | array elems => simp [canon, SameBy]

theorem canonElems_eq_iff (elems elems' : List Value) (h : WellFormedElems elems)
    (h' : WellFormedElems elems') :
    canonElems elems = canonElems elems' ↔ SameElems Eq elems elems' := by
  cases elems with
  | nil => cases elems' <;> simp [canonElems, SameElems]
  | cons v elems =>
    cases elems' with
    | nil => simp [canonElems, SameElems]
    | cons v' elems' =>
      simp only [canonElems, SameElems, List.cons.injEq]
      rw [canon_eq_iff v v' h.1 h'.1, canonElems_eq_iff elems elems' h.2 h'.2]

theorem canonEntries_eq_iff (entries entries' : List (String × Value))
    (h : WellFormedEntries entries) (h' : ∀ entry ∈ entries', entry.2.WellFormed) :
    (∀ entry ∈ entries, ∃ v', entries'.lookup entry.1 = some v' ∧ canon entry.2 = canon v') ↔
      SameEntries Eq entries entries' := by
  cases entries with
  | nil => simp [SameEntries]
  | cons entry entries =>
    obtain ⟨name, v⟩ := entry
    simp only [SameEntries, List.forall_mem_cons]
    rw [canonEntries_eq_iff entries entries' h.2 h']
    apply and_congr_left
    intro hrest
    apply exists_congr
    intro v'
    apply and_congr_right
    intro hlookup
    exact canon_eq_iff v v' h.1 (h' (name, v') (mem_of_lookup hlookup))

end

section Same

variable {num : String → String → Prop}

mutual

/-- A sorted value is the same as what the value is the same as. -/
theorem canon_sameBy_iff (v w : Value) : SameBy num (canon v) w ↔ SameBy num v w := by
  cases v with
  | null => rfl
  | bool b => rfl
  | number text => rfl
  | string s => rfl
  | array elems =>
    cases w with
    | array elems' => exact canonElems_sameBy_iff elems elems'
    | null => simp [canon, SameBy]
    | bool b => simp [canon, SameBy]
    | number text => simp [canon, SameBy]
    | string s => simp [canon, SameBy]
    | object entries => simp [canon, SameBy]
  | object entries =>
    cases w with
    | object entries' =>
      simp only [canon, SameBy]
      rw [List.length_insertionSort, canonEntries_eq, List.length_map, ← canonEntries_eq,
        sameEntries_iff, ← canonEntries_sameBy_iff entries entries']
      apply and_congr_right
      intro hlength
      simp only [List.mem_insertionSort, canonEntries_eq, List.mem_map]
      constructor
      · intro h entry hentry
        exact h (entry.1, canon entry.2) ⟨entry, hentry, rfl⟩
      · intro h entry hentry
        obtain ⟨other, hother, heq⟩ := hentry
        rw [← heq]
        exact h other hother
    | null => simp [canon, SameBy]
    | bool b => simp [canon, SameBy]
    | number text => simp [canon, SameBy]
    | string s => simp [canon, SameBy]
    | array elems => simp [canon, SameBy]

theorem canonElems_sameBy_iff (elems elems' : List Value) :
    SameElems num (canonElems elems) elems' ↔ SameElems num elems elems' := by
  cases elems with
  | nil => cases elems' <;> simp [canonElems, SameElems]
  | cons v elems =>
    cases elems' with
    | nil => simp [canonElems, SameElems]
    | cons v' elems' =>
      simp only [canonElems, SameElems]
      rw [canon_sameBy_iff v v', canonElems_sameBy_iff elems elems']

theorem canonEntries_sameBy_iff (entries entries' : List (String × Value)) :
    (∀ entry ∈ entries, ∃ v', entries'.lookup entry.1 = some v' ∧
        SameBy num (canon entry.2) v') ↔ SameEntries num entries entries' := by
  cases entries with
  | nil => simp [SameEntries]
  | cons entry entries =>
    obtain ⟨name, v⟩ := entry
    simp only [SameEntries, List.forall_mem_cons]
    rw [canonEntries_sameBy_iff entries entries']
    apply and_congr_left
    intro hrest
    apply exists_congr
    intro v'
    rw [canon_sameBy_iff v v']

end

end Same

mutual

/-- Sorting keeps a value well-formed. -/
theorem wellFormed_canon (v : Value) (h : v.WellFormed) : (canon v).WellFormed := by
  cases v with
  | null => exact trivial
  | bool b => exact trivial
  | number text => exact h
  | string s => exact trivial
  | array elems => exact wellFormedElems_iff.mpr (wellFormed_canonElems elems h)
  | object entries =>
    refine ⟨?_, wellFormedEntries_iff.mpr ?_⟩
    · rw [((List.perm_insertionSort Before (canonEntries entries)).map Prod.fst).nodup_iff,
        keys_canonEntries]
      exact h.1
    · intro entry hentry
      exact wellFormed_canonEntries entries h.2 entry ((List.mem_insertionSort _).mp hentry)

theorem wellFormed_canonElems (elems : List Value) (h : WellFormedElems elems) :
    ∀ v ∈ canonElems elems, v.WellFormed := by
  cases elems with
  | nil => simp [canonElems]
  | cons v elems =>
    intro w hw
    rw [canonElems] at hw
    cases List.mem_cons.mp hw with
    | inl heq =>
      rw [heq]
      exact wellFormed_canon v h.1
    | inr hmem => exact wellFormed_canonElems elems h.2 w hmem

theorem wellFormed_canonEntries (entries : List (String × Value)) (h : WellFormedEntries entries) :
    ∀ entry ∈ canonEntries entries, entry.2.WellFormed := by
  cases entries with
  | nil => simp [canonEntries]
  | cons entry entries =>
    obtain ⟨name, v⟩ := entry
    intro other hother
    rw [canonEntries] at hother
    cases List.mem_cons.mp hother with
    | inl heq =>
      rw [heq]
      exact wellFormed_canon v h.1
    | inr hmem => exact wellFormed_canonEntries entries h.2 other hmem

end

end Value

/-! ## The writer -/

theorem bytesOf_append (s s' : String) : bytesOf (s ++ s') = bytesOf s ++ bytesOf s' := by
  unfold bytesOf
  rw [String.toList_append, Utf8.bytes_append]

theorem bytesOf_intercalate (sep : String) (parts : List String) :
    bytesOf (String.intercalate sep parts) =
      List.intercalate (bytesOf sep) (parts.map bytesOf) := by
  cases parts with
  | nil => rfl
  | cons part parts =>
    induction parts generalizing part with
    | nil => simp
    | cons part' parts ih =>
      have hrest := ih part'
      rw [List.map_cons] at hrest
      rw [String.intercalate_cons_cons, bytesOf_append, bytesOf_append, hrest, List.map_cons,
        List.map_cons, List.intercalate_cons_cons]

theorem collectResults_ok {ε α : Type} {results : List (Except ε α)} {as : List α} :
    collectResults results = .ok as ↔ results = as.map .ok := by
  induction results generalizing as with
  | nil =>
    cases as with
    | nil => simp [collectResults]
    | cons a as => simp [collectResults]
  | cons result results ih =>
    cases result with
    | error e => cases as <;> simp [collectResults]
    | ok a =>
      unfold collectResults
      cases hrest : collectResults results with
      | error e =>
        cases as with
        | nil => simp
        | cons a' as =>
          have hnot := mt (@ih as).mpr (by rw [hrest]; simp)
          simp [hnot]
      | ok as' =>
        have hresults := ih.mp hrest
        cases as with
        | nil => simp
        | cons a' as =>
          have hmap : as'.map (Except.ok (ε := ε)) = as.map Except.ok ↔ as' = as :=
            (List.map_injective_iff.mpr fun _ _ => Except.ok.inj).eq_iff
          simp [hresults, hmap]

theorem bracketed_ok {ε : Type} {left right : String} {parts : Except ε (List (List UInt8))}
    {bytes : List UInt8} (h : bracketed left right parts = .ok bytes) :
    ∃ written, parts = .ok written ∧
      bytes = bytesOf left ++ List.intercalate (bytesOf ",") written ++ bytesOf right := by
  cases parts with
  | error e => cases h
  | ok written => exact ⟨written, rfl, (Except.ok.inj h).symm⟩

section Write

variable {nonFinite : String → Option String}

open Value

theorem writeElems_eq (elems : List Value) :
    writeElems nonFinite elems = elems.map (writeCanonicalJson nonFinite) := by
  induction elems with
  | nil => rfl
  | cons v elems ih => rw [writeElems, ih, List.map_cons]

theorem writeEntries_eq (entries : List (String × Value)) :
    writeEntries nonFinite entries = entries.map fun entry =>
      (bytesOf (printString entry.1), writeCanonicalJson nonFinite entry.2) := by
  induction entries with
  | nil => rfl
  | cons entry entries ih => rw [writeEntries, ih, List.map_cons]

theorem bytesOf_print_array (elems : List Value) : bytesOf (print (.array elems)) =
    bytesOf "[" ++ List.intercalate (bytesOf ",") (elems.map fun v => bytesOf (print v)) ++
      bytesOf "]" := by
  rw [print, printElems_eq, bytesOf_append, bytesOf_append, bytesOf_intercalate, List.map_map,
    Function.comp_def]

theorem bytesOf_print_object (entries : List (String × Value)) :
    bytesOf (print (.object entries)) = bytesOf "\x7b" ++ List.intercalate (bytesOf ",")
      (entries.map fun entry => bytesOf (printString entry.1 ++ ":" ++ print entry.2)) ++
        bytesOf "\x7d" := by
  rw [print, printEntries_eq, bytesOf_append, bytesOf_append, bytesOf_intercalate, List.map_map,
    Function.comp_def]

/-- The entry with its value written as it is printed. -/
def printedEntry (entry : String × Value) :
    List UInt8 × Except PinnedRegistryHashError (List UInt8) :=
  (bytesOf (printString entry.1), .ok (bytesOf (print entry.2)))

theorem writeEntry_printedEntry (entry : String × Value) :
    writeEntry (printedEntry entry) =
      .ok (bytesOf (printString entry.1 ++ ":" ++ print entry.2)) := by
  rw [bytesOf_append, bytesOf_append, writeEntry, printedEntry]
  simp only [Except.map]

/-- The entries are sorted alike before and after their values are written. -/
theorem insertionSort_printedEntry (entries : List (String × Value)) :
    (entries.map printedEntry).insertionSort EntryLe =
      (entries.insertionSort Before).map printedEntry := by
  apply (List.map_insertionSort Before EntryLe printedEntry entries _).symm
  intro a ha b hb
  unfold EntryLe printedEntry
  exact Iff.rfl

/-- When the elements are written as their sorted values, so is the array. -/
theorem writeArray_ok {elems : List Value} {bytes : List UInt8}
    (h : writeCanonicalJson nonFinite (.array elems) = .ok bytes)
    (hwrite : ∀ v ∈ elems, ∀ written, writeCanonicalJson nonFinite v = .ok written →
      written = bytesOf (print (canon v))) : bytes = bytesOf (print (canon (.array elems))) := by
  rw [writeCanonicalJson] at h
  obtain ⟨parts, hparts, hbytes⟩ := bracketed_ok h
  have hresults := collectResults_ok.mp hparts
  rw [writeElems_eq] at hresults
  have hprinted : parts = (canonElems elems).map fun v => bytesOf (print v) := by
    have hok : elems.map (writeCanonicalJson nonFinite) =
        (elems.map fun v => bytesOf (print (canon v))).map .ok := by
      rw [List.map_map]
      apply List.map_congr_left
      intro v hv
      have hmem : writeCanonicalJson nonFinite v ∈ parts.map .ok := by
        rw [← hresults]
        exact List.mem_map_of_mem hv
      obtain ⟨written, -, hwritten⟩ := List.mem_map.mp hmem
      rw [← hwritten, Function.comp_apply, hwrite v hv written hwritten.symm]
    rw [hok] at hresults
    rw [canonElems_eq, List.map_map]
    exact ((List.map_injective_iff.mpr fun _ _ => Except.ok.inj) hresults).symm
  rw [hbytes, hprinted, canon, bytesOf_print_array]

/-- When the values of its entries are written as their sorted values, so is the object. -/
theorem writeObject_ok {entries : List (String × Value)} {bytes : List UInt8}
    (h : writeCanonicalJson nonFinite (.object entries) = .ok bytes)
    (hwrite : ∀ entry ∈ entries, ∀ written, writeCanonicalJson nonFinite entry.2 = .ok written →
      written = bytesOf (print (canon entry.2))) :
    bytes = bytesOf (print (canon (.object entries))) := by
  rw [writeCanonicalJson] at h
  obtain ⟨parts, hparts, hbytes⟩ := bracketed_ok h
  have hresults := collectResults_ok.mp hparts
  -- all of them were written
  have hok : writeEntries nonFinite entries = (canonEntries entries).map printedEntry := by
    rw [writeEntries_eq, canonEntries_eq, List.map_map]
    apply List.map_congr_left
    intro entry hentry
    have hmem : writeEntry (bytesOf (printString entry.1),
        writeCanonicalJson nonFinite entry.2) ∈ parts.map .ok := by
      rw [← hresults]
      apply List.mem_map_of_mem
      rw [List.mem_insertionSort, writeEntries_eq]
      exact List.mem_map_of_mem (f := fun e : String × Value =>
        (bytesOf (printString e.1), writeCanonicalJson nonFinite e.2)) hentry
    obtain ⟨part, -, hpart⟩ := List.mem_map.mp hmem
    cases hvalue : writeCanonicalJson nonFinite entry.2 with
    | error e => simp [hvalue, writeEntry, Except.map] at hpart
    | ok written => rw [Function.comp_apply, hwrite entry hentry written hvalue, printedEntry]
  rw [hok, insertionSort_printedEntry, List.map_map] at hresults
  have hprinted : parts = ((canonEntries entries).insertionSort Before).map fun entry =>
      bytesOf (printString entry.1 ++ ":" ++ print entry.2) := by
    have hmap : (((canonEntries entries).insertionSort Before).map fun entry =>
        bytesOf (printString entry.1 ++ ":" ++ print entry.2)).map .ok =
          parts.map (Except.ok (ε := PinnedRegistryHashError)) := by
      rw [← hresults, List.map_map]
      apply List.map_congr_left
      intro entry hentry
      rw [Function.comp_apply, Function.comp_apply, writeEntry_printedEntry]
    exact ((List.map_injective_iff.mpr fun _ _ => Except.ok.inj) hmap).symm
  rw [hbytes, hprinted, canon, bytesOf_print_object]

mutual

/-- What is written is the printing of the sorted value. -/
theorem writeCanonicalJson_ok (v : Value) (bytes : List UInt8)
    (h : writeCanonicalJson nonFinite v = .ok bytes) : bytes = bytesOf (print (canon v)) := by
  cases v with
  | null => exact (Except.ok.inj h).symm
  | bool b => exact (Except.ok.inj h).symm
  | number text =>
    rw [writeCanonicalJson] at h
    split at h
    · cases h
    · exact (Except.ok.inj h).symm
  | string s => exact (Except.ok.inj h).symm
  | array elems => exact writeArray_ok h (writeElems_ok elems)
  | object entries => exact writeObject_ok h (writeEntries_ok entries)

theorem writeElems_ok (elems : List Value) : ∀ v ∈ elems, ∀ bytes,
    writeCanonicalJson nonFinite v = .ok bytes → bytes = bytesOf (print (canon v)) := by
  cases elems with
  | nil => simp
  | cons v elems =>
    intro w hw bytes h
    cases List.mem_cons.mp hw with
    | inl heq =>
      rw [heq] at h ⊢
      exact writeCanonicalJson_ok v bytes h
    | inr hmem => exact writeElems_ok elems w hmem bytes h

theorem writeEntries_ok (entries : List (String × Value)) : ∀ entry ∈ entries, ∀ bytes,
    writeCanonicalJson nonFinite entry.2 = .ok bytes →
      bytes = bytesOf (print (canon entry.2)) := by
  cases entries with
  | nil => simp
  | cons entry entries =>
    obtain ⟨name, v⟩ := entry
    intro other hother bytes h
    cases List.mem_cons.mp hother with
    | inl heq =>
      rw [heq] at h ⊢
      exact writeCanonicalJson_ok v bytes h
    | inr hmem => exact writeEntries_ok entries other hmem bytes h

end

end Write

end Remo
