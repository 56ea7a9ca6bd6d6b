import Remo.Spec.Registry.CanonicalBytes
import Remo.Spec.Registry.VersionHistory
import Remo.Spec.Scope

/-!
# Content and versions

The canonical bytes of a schema version and a value are those of their envelope. A publish is a
no-op exactly when the current record has the same content.

## Key results

- `canonicalBytes_ok`: the bytes are the printing of the sorted envelope.
- `canonicalBytes_eq_iff`: content with the same bytes is the same as JSON.
- `canonicalContent`: the bytes are canonical, and the store goes by them.
-/

namespace Remo

open Value (SameBy Same canon print)

/-- The envelope of the content. -/
def envelope (valueSchemaVersion : UInt32) (value : Value) : Value :=
  .object [("value", value),
    ("value_schema_version", .number (toString valueSchemaVersion.toNat))]

theorem isNumberChar_toString (n : Nat) :
    (toString n).toList ≠ [] ∧ ∀ c ∈ (toString n).toList, Value.IsNumberChar c := by
  rw [Nat.toString_eq_ofList_toDigits, String.toList_ofList]
  refine ⟨?_, ?_⟩
  · intro hnil
    have hpos := Nat.length_toDigits_pos (b := 10) (n := n)
    rw [hnil] at hpos
    exact absurd hpos (by decide)
  · exact fun c hc => .inl (Nat.isDigit_of_mem_toDigits (by decide) (by decide) hc)

theorem wellFormed_envelope (valueSchemaVersion : UInt32) {value : Value}
    (h : value.WellFormed) : (envelope valueSchemaVersion value).WellFormed :=
  ⟨by simp, h, isNumberChar_toString valueSchemaVersion.toNat, trivial⟩

section Bytes

variable {nonFinite : String → Option String}

/-- The bytes are the printing of the envelope of the sorted value. -/
theorem canonicalBytes_ok {valueSchemaVersion : UInt32} {value : Value} {bytes : List UInt8}
    (h : canonicalRegistryJsonBytes nonFinite valueSchemaVersion value = .ok bytes) :
    bytes = bytesOf (print (envelope valueSchemaVersion (canon value))) := by
  unfold canonicalRegistryJsonBytes at h
  cases hvalue : writeCanonicalJson nonFinite value with
  | error error =>
    rw [hvalue] at h
    cases h
  | ok written =>
    rw [hvalue] at h
    cases hversion : writeCanonicalJson nonFinite
        (.number (toString valueSchemaVersion.toNat)) with
    | error error =>
      rw [hversion] at h
      cases h
    | ok version =>
      rw [hversion] at h
      rw [← Except.ok.inj h, writeCanonicalJson_ok _ _ hvalue, writeCanonicalJson_ok _ _ hversion]
      have hprint : print (envelope valueSchemaVersion (canon value)) =
          "\x7b\"value\":" ++ print (canon value) ++ ",\"value_schema_version\":" ++
            print (canon (.number (toString valueSchemaVersion.toNat))) ++ "\x7d" := by
        apply String.toList_inj.mp
        have hkey : Value.printString "value" = "\"value\"" := by decide
        have hkey' : Value.printString "value_schema_version" = "\"value_schema_version\"" := by
          decide
        simp [envelope, print, Value.printEntries, hkey, hkey', canon]
      rw [hprint, bytesOf_append, bytesOf_append, bytesOf_append, bytesOf_append]

/-- Content with the same bytes is the same as JSON. -/
theorem canonicalBytes_eq_iff {version version' : UInt32} {value value' : JsonValue}
    {bytes bytes' : List UInt8}
    (h : canonicalRegistryJsonBytes nonFinite version value.value = .ok bytes)
    (h' : canonicalRegistryJsonBytes nonFinite version' value'.value = .ok bytes') :
    bytes = bytes' ↔ version = version' ∧ Same value.value value'.value := by
  rw [canonicalBytes_ok h, canonicalBytes_ok h',
    ← Value.canon_eq_iff _ _ value.wellFormed value'.wellFormed]
  constructor
  · intro heq
    have hsame := Value.print_inj
      (wellFormed_envelope version (Value.wellFormed_canon _ value.wellFormed))
      (wellFormed_envelope version' (Value.wellFormed_canon _ value'.wellFormed))
      (Value.bytesOf_inj heq)
    unfold envelope at hsame
    simp only [Value.object.injEq, List.cons.injEq, Prod.mk.injEq, true_and, and_true,
      Value.number.injEq] at hsame
    refine ⟨?_, hsame.1⟩
    exact UInt32.toNat_inj.mp (toString_nat_inj (congrArg String.toList hsame.2))
  · intro heq
    rw [heq.1, heq.2]

end Bytes

namespace InMemoryVersionedRegistryStore

/-- The bytes of content are canonical, and the store makes a new version of a resource exactly
    when its content differs. -/
structure CanonicalContent (nonFinite : String → Option String) (digest : List UInt8 → String)
    (fromSlice : List UInt8 → Option Value) (readNumber : String → String) : Prop where
  bytes_eq_iff : ∀ version version' (value value' : JsonValue) bytes bytes',
    canonicalRegistryJsonBytes nonFinite version value.value = .ok bytes →
      canonicalRegistryJsonBytes nonFinite version' value'.value = .ok bytes' →
        (bytes = bytes' ↔ version = version' ∧ Same value.value value'.value)
  /-- Parsing gives back the envelope, with the numbers of the value as the parser reads them. -/
  parsed : ∀ version (value : JsonValue) bytes,
    canonicalRegistryJsonBytes nonFinite version value.value = .ok bytes →
      ∃ entries v', fromSlice bytes = some (.object entries) ∧ entries.length = 2 ∧
        entries.lookup "value" = some v' ∧
        SameBy (fun printed read => readNumber printed = read) value.value v' ∧
        entries.lookup "value_schema_version" = some (.number (toString version.toNat))
  /-- The same content, in whatever order of keys, is no new version. -/
  noop : ∀ ops scopeId kind id record (value : JsonValue) version metadata now bytes,
    ((machine nonFinite digest).run new ops).current scopeId kind id = some record →
      ((machine nonFinite digest).run new ops).isArchived (scopeId, kind, id) = false →
        canonicalRegistryJsonBytes nonFinite version value.value = .ok bytes →
          version = record.valueSchemaVersion → Same value.value record.value.value →
            publishResource nonFinite digest scopeId kind id value version metadata now
                ((machine nonFinite digest).run new ops) =
              (.ok (.noop record), (machine nonFinite digest).run new ops)
  /-- Other content is. -/
  created : ∀ ops scopeId kind id record (value : JsonValue) version metadata now bytes,
    ((machine nonFinite digest).run new ops).current scopeId kind id = some record →
      ((machine nonFinite digest).run new ops).isArchived (scopeId, kind, id) = false →
        canonicalRegistryJsonBytes nonFinite version value.value = .ok bytes →
          ¬(version = record.valueSchemaVersion ∧ Same value.value record.value.value) →
            ∃ newer, publishResource nonFinite digest scopeId kind id value version metadata now
                ((machine nonFinite digest).run new ops) =
                  (.ok (.created newer),
                    pushRecord scopeId newer now ((machine nonFinite digest).run new ops)) ∧
              newer.version = record.version + 1 ∧ newer.value = value ∧
                newer.valueSchemaVersion = version

variable {nonFinite : String → Option String} {digest : List UInt8 → String}

/-- The content hash is that of the canonical bytes. -/
theorem contentHashOf_ok {version : UInt32} {value : JsonValue} {contentHash : String}
    {bytes : List UInt8} : contentHashOf nonFinite digest version value = .ok (contentHash, bytes) ↔
      canonicalRegistryJsonBytes nonFinite version value.value = .ok bytes ∧
        contentHash = s!"sha256:{digest bytes}" := by
  unfold contentHashOf registryContentHash
  cases canonicalRegistryJsonBytes nonFinite version value.value with
  | error error => simp
  | ok bytes' =>
    simp only [Except.ok.injEq, Prod.mk.injEq]
    constructor
    · intro h
      exact ⟨h.2, by rw [← h.1, h.2]⟩
    · intro h
      exact ⟨by rw [h.2, h.1], h.1⟩

theorem hash_inj (hdigest : Function.Injective digest) {bytes other : List UInt8}
    (h : s!"sha256:{digest bytes}" = s!"sha256:{digest other}") : bytes = other := by
  apply hdigest
  apply String.toList_inj.mp
  have hlist := congrArg String.toList h
  rw [String.toList_append, String.toList_append] at hlist
  exact List.append_cancel_left hlist

/-- Content has the hash of the current record exactly when it is the same. -/
theorem hash_eq_iff (hdigest : Function.Injective digest) {w : InMemoryVersionedRegistryStore}
    (h : w.Sound nonFinite digest) {scopeId kind id : String} {record : VersionedRecord}
    (hcurrent : w.current scopeId kind id = some record) {value : JsonValue} {version : UInt32}
    {bytes : List UInt8}
    (hbytes : canonicalRegistryJsonBytes nonFinite version value.value = .ok bytes) :
    record.contentHash = s!"sha256:{digest bytes}" ↔
      version = record.valueSchemaVersion ∧ Same value.value record.value.value := by
  have hlast : (w.recordsOf (scopeId, kind, id)).getLast? = some record := by
    rw [← h.currentRecord_eq]
    exact hcurrent
  obtain ⟨hrecord, hhash⟩ := contentHashOf_ok.mp (h.hashed _ record (List.mem_of_getLast? hlast))
  rw [← canonicalBytes_eq_iff hbytes hrecord, hhash]
  constructor
  · exact fun heq => (hash_inj hdigest heq).symm
  · intro heq
    rw [heq]

/-- A digest without collisions: every byte as a character. -/
def plainDigest (bytes : List UInt8) : String :=
  String.ofList (bytes.map fun b => Char.ofNat b.toNat)

theorem plainDigest_injective : Function.Injective plainDigest := by
  intro bytes bytes' h
  have hlist := congrArg String.toList h
  unfold plainDigest at hlist
  rw [String.toList_ofList, String.toList_ofList] at hlist
  apply List.map_injective_iff.mpr _ hlist
  intro b b' hb
  have hchar : ∀ n < 256, (Char.ofNat n).toNat = n := by decide +kernel
  apply UInt8.toNat_inj.mp
  rw [← hchar b.toNat b.toNat_lt, ← hchar b'.toNat b'.toNat_lt]
  exact congrArg Char.toNat hb

open Classical in
/-- The parser that reads what was printed. -/
noncomputable def readPrinted (bytes : List UInt8) : Option Value :=
  if h : ∃ v : JsonValue, bytesOf (print v.value) = bytes then some h.choose.value else none

theorem readPrinted_print (v : JsonValue) :
    readPrinted (bytesOf (print v.value)) = some v.value := by
  have hex : ∃ v' : JsonValue, bytesOf (print v'.value) = bytesOf (print v.value) := ⟨v, rfl⟩
  unfold readPrinted
  rw [dif_pos hex,
    Value.print_inj hex.choose.wellFormed v.wellFormed (Value.bytesOf_inj hex.choose_spec)]

end InMemoryVersionedRegistryStore

end Remo
