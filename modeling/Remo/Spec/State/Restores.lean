import Remo.Native.State.Persistence

/-!
# Restores that fail

The entries come in any order and a restore fails at the first one it cannot read. A restore
that builds its map apart leaves the store alone then. The restore into the store's own map
leaves the entries before the failure behind.

## Key results

- `importEntries_unchanged_iff`: when imports leave a map as it is
- `restoresKeep_iff`: when all restores keep the store on a failure
-/

namespace Remo.PersistentStore

variable {keys : StateKeys}

/-! ## The condition -/

/-- The restore cannot read the entry. -/
def Rejects (keysByName : AssocMap String (KeyRegistration keys))
    (unknownPolicy : UnknownKeyPolicy) (reads : KeyScope → Bool) (entry : String × Value) : Prop :=
  (keysByName.get? entry.1 = none ∧ unknownPolicy = .error) ∨
    ∃ reg, keysByName.get? entry.1 = some reg ∧ reads reg.scope = true ∧
      ∃ e, reg.decode entry.2 = .error e

/-- The entry, if the restore reads it, has the value that its key has in the map. -/
def Present (keysByName : AssocMap String (KeyRegistration keys)) (reads : KeyScope → Bool)
    (map : StateMap keys) (entry : String × Value) : Prop :=
  ∀ reg, keysByName.get? entry.1 = some reg → reads reg.scope = true →
    ∀ value, reg.decode entry.2 = .ok value → map reg.K = some value

/-- The thread-scoped entries in front of the first one that cannot be read have the values
    that are there already. -/
def PresentBeforeFailure (s : PersistentStore keys) (persisted : PersistedState)
    (unknownPolicy : UnknownKeyPolicy) : Prop :=
  ∀ before failing after, persisted.extensions.entries = before ++ failing :: after →
    (∀ entry ∈ before, ¬ Rejects s.keysByName unknownPolicy (fun scope => scope == .thread) entry) →
      Rejects s.keysByName unknownPolicy (fun scope => scope == .thread) failing →
        ∀ entry ∈ before,
          Present s.keysByName (fun scope => scope == .thread) s.inner.ext entry

/-- A restore that fails leaves the values and the revision of the store as they were. -/
structure RestoresKeep (persisted : PersistedState) (unknownPolicy : UnknownKeyPolicy)
    (s : PersistentStore keys) : Prop where
  whole : (restorePersisted persisted unknownPolicy).KeepsOnError s
  threadScoped : (restoreThreadScoped persisted unknownPolicy).KeepsOnError s
  seed : (applySeed persisted unknownPolicy).KeepsOnError s

/-! ## One entry -/

variable {keysByName : AssocMap String (KeyRegistration keys)} {unknownPolicy : UnknownKeyPolicy}
variable {reads : KeyScope → Bool} {entry : String × Value} {map : StateMap keys}

theorem importEntry_of_rejects (h : Rejects keysByName unknownPolicy reads entry)
    (map : StateMap keys) :
    ∃ e, importEntry keysByName unknownPolicy reads entry map = (.error e, map) := by
  cases h with
  | inl h =>
    obtain ⟨hnone, hpolicy⟩ := h
    exact ⟨_, by simp only [importEntry, hnone, hpolicy]; rfl⟩
  | inr h =>
    obtain ⟨reg, hreg, hreads, e, hdecode⟩ := h
    exact ⟨reg.decodeError e, by
      simp only [importEntry, hreg, hreads, if_true, KeyRegistration.importValue, hdecode]⟩

/-- An entry the restore can read is skipped, or its value is inserted. -/
theorem importEntry_of_not_rejects (h : ¬ Rejects keysByName unknownPolicy reads entry)
    (map : StateMap keys) :
    (importEntry keysByName unknownPolicy reads entry map = (.ok (), map) ∧
        ∀ reg, keysByName.get? entry.1 = some reg → reads reg.scope = false) ∨
      ∃ reg value, keysByName.get? entry.1 = some reg ∧ reads reg.scope = true ∧
        reg.decode entry.2 = .ok value ∧
          importEntry keysByName unknownPolicy reads entry map =
            (.ok (), map.insert reg.K value) := by
  cases hget : keysByName.get? entry.1 with
  | none =>
    cases unknownPolicy with
    | error => exact absurd (Or.inl ⟨hget, rfl⟩) h
    | skip =>
      apply Or.inl
      constructor
      · simp only [importEntry, hget]
      · intro reg hreg
        cases hreg
  | some reg =>
    cases hreads : reads reg.scope with
    | false =>
      apply Or.inl
      constructor
      · simp only [importEntry, hget, hreads, Bool.false_eq_true, if_false]
      · intro reg' hreg'
        rw [← Option.some.inj hreg']
        exact hreads
    | true =>
      cases hdecode : reg.decode entry.2 with
      | error e => exact absurd (Or.inr ⟨reg, hget, hreads, e, hdecode⟩) h
      | ok value =>
        refine Or.inr ⟨reg, value, rfl, hreads, hdecode, ?_⟩
        simp only [importEntry, hget, hreads, if_true, KeyRegistration.importValue, hdecode]

theorem rejects_of_error {e : RestoreError}
    (h : (importEntry keysByName unknownPolicy reads entry map).1 = .error e) :
    Rejects keysByName unknownPolicy reads entry := by
  by_contra hnot
  cases importEntry_of_not_rejects hnot map with
  | inl hskip =>
    rw [hskip.1] at h
    cases h
  | inr hinsert =>
    obtain ⟨reg, value, -, -, -, hinsert⟩ := hinsert
    rw [hinsert] at h
    cases h

/-! ## Entries in turn -/

/-- The values that the entries leave, all of which can be read. -/
def imported (keysByName : AssocMap String (KeyRegistration keys))
    (unknownPolicy : UnknownKeyPolicy) (reads : KeyScope → Bool)
    (entries : List (String × Value)) (map : StateMap keys) : StateMap keys :=
  (Method.forEach (importEntry keysByName unknownPolicy reads) entries map).2

theorem imported_cons {map' : StateMap keys} {entries : List (String × Value)}
    (h : importEntry keysByName unknownPolicy reads entry map = (.ok (), map')) :
    imported keysByName unknownPolicy reads (entry :: entries) map =
      imported keysByName unknownPolicy reads entries map' := by
  unfold imported
  simp only [Method.forEach, Method.bind, h]
  cases Method.forEach (importEntry keysByName unknownPolicy reads) entries map' with
  | mk r s => cases r <;> rfl

/-- Entries that are imported in turn can all be read. -/
theorem not_rejects_of_forEach {entries : List (String × Value)} {bs : List Unit}
    {map' : StateMap keys}
    (h : Method.forEach (importEntry keysByName unknownPolicy reads) entries map = (.ok bs, map')) :
    ∀ entry ∈ entries, ¬ Rejects keysByName unknownPolicy reads entry := by
  induction entries generalizing map map' bs with
  | nil =>
    intro entry hentry
    cases hentry
  | cons first entries ih =>
    obtain ⟨_, map₁, hfirst, hrest⟩ := Method.bind_eq_ok h
    obtain ⟨bs', map₂, hloop, -⟩ := Method.bind_eq_ok hrest
    intro entry hentry hrejects
    cases List.mem_cons.mp hentry with
    | inl heq =>
      rw [heq] at hrejects
      obtain ⟨e, herror⟩ := importEntry_of_rejects hrejects map
      rw [herror] at hfirst
      cases hfirst
    | inr hmem => exact ih hloop entry hmem hrejects

/-- A loop that meets an entry it cannot read leaves what the entries in front of it leave. -/
theorem importEntries_of_rejects {before : List (String × Value)}
    (hbefore : ∀ entry ∈ before, ¬ Rejects keysByName unknownPolicy reads entry)
    (h : Rejects keysByName unknownPolicy reads entry) (after : List (String × Value))
    (map : StateMap keys) :
    ∃ e, importEntries keysByName unknownPolicy reads (before ++ entry :: after) map =
      (.error e, imported keysByName unknownPolicy reads before map) := by
  induction before generalizing map with
  | nil =>
    obtain ⟨e, herror⟩ := importEntry_of_rejects h map
    exact ⟨e, by
      simp only [importEntries, Method.map, List.nil_append, Method.forEach, Method.bind, herror]
      rfl⟩
  | cons first before ih =>
    have hrest := fun e he => hbefore e (List.mem_cons_of_mem _ he)
    have hstep : ∃ map', importEntry keysByName unknownPolicy reads first map = (.ok (), map') := by
      cases importEntry_of_not_rejects (hbefore first List.mem_cons_self) map with
      | inl hskip => exact ⟨_, hskip.1⟩
      | inr hinsert =>
        obtain ⟨reg, value, -, -, -, hinsert⟩ := hinsert
        exact ⟨_, hinsert⟩
    obtain ⟨map', hstep⟩ := hstep
    obtain ⟨e, hloop⟩ := ih hrest map'
    refine ⟨e, ?_⟩
    rw [imported_cons hstep, ← hloop]
    unfold importEntries Method.map
    simp only [List.cons_append, Method.forEach, Method.bind, hstep]
    cases Method.forEach (importEntry keysByName unknownPolicy reads) (before ++ entry :: after)
      map' with
    | mk r s => cases r <;> rfl

/-- Entries of other names do not touch the key. -/
theorem imported_of_not_mem
    (hnamed : ∀ name reg, keysByName.get? name = some reg → reg.key = name)
    {reg : KeyRegistration keys} {entries : List (String × Value)}
    (h : reg.key ∉ entries.map Prod.fst) (map : StateMap keys) :
    imported keysByName unknownPolicy reads entries map reg.K = map reg.K := by
  apply Method.forEach_invariant (fun map' : StateMap keys => map' reg.K = map reg.K)
  · intro other hother map' hmap'
    by_cases hrejects : Rejects keysByName unknownPolicy reads other
    · obtain ⟨e, heq⟩ := importEntry_of_rejects hrejects map'
      rw [heq]
      exact hmap'
    · cases importEntry_of_not_rejects hrejects map' with
      | inl hskip =>
        rw [hskip.1]
        exact hmap'
      | inr hinsert =>
        obtain ⟨reg', value, hreg', -, -, hinsert⟩ := hinsert
        rw [hinsert]
        have hne : reg.K ≠ reg'.K := by
          intro heq
          apply h
          have hkey : reg.key = other.1 := by
            rw [← hnamed other.1 reg' hreg']
            exact congrArg keys.key heq
          rw [hkey]
          exact List.mem_map_of_mem hother
        show (map'.insert reg'.K value) reg.K = map reg.K
        rw [StateMap.insert_of_ne map' value hne, hmap']
  · rfl

/-- Entries that can be read leave a map as it is when their values are there already. -/
theorem importEntries_unchanged_iff
    (hnamed : ∀ name reg, keysByName.get? name = some reg → reg.key = name)
    {entries : List (String × Value)} (hnodup : (entries.map Prod.fst).Nodup)
    (hreads : ∀ entry ∈ entries, ¬ Rejects keysByName unknownPolicy reads entry) :
    imported keysByName unknownPolicy reads entries map = map ↔
      ∀ entry ∈ entries, Present keysByName reads map entry := by
  induction entries generalizing map with
  | nil =>
    constructor
    · intro _ entry hentry
      cases hentry
    · intro _
      rfl
  | cons entry entries ih =>
    rw [List.map_cons, List.nodup_cons] at hnodup
    have hrest := fun e he => hreads e (List.mem_cons_of_mem _ he)
    rw [List.forall_mem_cons]
    cases importEntry_of_not_rejects (hreads entry List.mem_cons_self) map with
    | inl hskip =>
      obtain ⟨hstep, hscope⟩ := hskip
      rw [imported_cons hstep, ih hnodup.2 hrest]
      have hpresent : Present keysByName reads map entry := by
        intro reg hreg hread
        rw [hscope reg hreg] at hread
        cases hread
      exact ⟨fun h => ⟨hpresent, h⟩, fun h => h.2⟩
    | inr hinsert =>
      obtain ⟨reg, value, hreg, hread, hdecode, hstep⟩ := hinsert
      rw [imported_cons hstep]
      have hsame : Present keysByName reads map entry → map.insert reg.K value = map := by
        intro h
        exact StateMap.insert_eq_self (h reg hreg hread value hdecode)
      constructor
      · intro h
        -- no later entry has the key, so the value inserted is the one there was
        have hkept : map reg.K = some value := by
          have habsent : reg.key ∉ entries.map Prod.fst := by
            rw [hnamed entry.1 reg hreg]
            exact hnodup.1
          have hframe : imported keysByName unknownPolicy reads entries
              (map.insert reg.K value) reg.K = map.insert reg.K value reg.K :=
            imported_of_not_mem hnamed habsent _
          rw [h, StateMap.insert_self] at hframe
          exact hframe
        have hpresent : Present keysByName reads map entry := by
          intro reg' hreg' _ value' hdecode'
          rw [hreg] at hreg'
          obtain rfl := Option.some.inj hreg'
          rw [hdecode] at hdecode'
          cases hdecode'
          exact hkept
        rw [hsame hpresent] at h
        exact ⟨hpresent, (ih hnodup.2 hrest).mp h⟩
      · intro h
        rw [hsame h.1]
        exact (ih hnodup.2 hrest).mpr h.2

/-! ## The restores -/

theorem keepsOnError_restorePersisted (persisted : PersistedState)
    (unknownPolicy : UnknownKeyPolicy) (s : PersistentStore keys) :
    (restorePersisted persisted unknownPolicy).KeepsOnError s := by
  intro e h
  unfold restorePersisted at h ⊢
  split at h
  · rfl
  · cases h

theorem keepsOnError_applySeed (persisted : PersistedState) (unknownPolicy : UnknownKeyPolicy)
    (s : PersistentStore keys) : (applySeed persisted unknownPolicy).KeepsOnError s := by
  intro e h
  unfold applySeed at h ⊢
  split at h
  · rfl
  · cases h

/-- A store is the same when its map is. -/
theorem withExt_eq_iff (s : PersistentStore keys) (ext : StateMap keys) :
    ({ s with inner := ⟨s.inner.revision, ext⟩ } : PersistentStore keys) = s ↔
      ext = s.inner.ext := by
  constructor
  · intro h
    exact congrArg (fun s : PersistentStore keys => s.inner.ext) h
  · intro h
    rw [h]

theorem keepsOnError_restoreThreadScoped_iff (persisted : PersistedState)
    (unknownPolicy : UnknownKeyPolicy) (s : PersistentStore keys) :
    (restoreThreadScoped persisted unknownPolicy).KeepsOnError s ↔
      PresentBeforeFailure s persisted unknownPolicy := by
  have hkeep : ∀ before failing after, persisted.extensions.entries = before ++ failing :: after →
      (∀ entry ∈ before,
        ¬ Rejects s.keysByName unknownPolicy (fun scope => scope == .thread) entry) →
        (imported s.keysByName unknownPolicy (fun scope => scope == .thread) before s.inner.ext =
            s.inner.ext ↔
          ∀ entry ∈ before,
            Present s.keysByName (fun scope => scope == .thread) s.inner.ext entry) := by
    intro before failing after hentries hbefore
    have hnodup : (persisted.extensions.entries.map Prod.fst).Nodup :=
      persisted.extensions.nodup_keys
    rw [hentries, List.map_append, List.nodup_append] at hnodup
    exact importEntries_unchanged_iff s.named hnodup.1 hbefore
  constructor
  · intro h before failing after hentries hbefore hfailing
    obtain ⟨e, hrun⟩ := importEntries_of_rejects hbefore hfailing after s.inner.ext
    rw [← hentries] at hrun
    have hsame := h e (by simp only [restoreThreadScoped, hrun])
    simp only [restoreThreadScoped, hrun] at hsame
    exact (hkeep before failing after hentries hbefore).mp ((withExt_eq_iff s _).mp hsame)
  · intro h e herror
    have hloop : (Method.forEach (importEntry s.keysByName unknownPolicy
        (fun scope => scope == .thread)) persisted.extensions.entries s.inner.ext).1 = .error e :=
      Method.map_error herror
    obtain ⟨before, failing, after, bs, map, hentries, hrun, hfail, -⟩ :=
      Method.forEach_error_split _ hloop
    have hfailing := rejects_of_error hfail
    have hbefore := not_rejects_of_forEach hrun
    obtain ⟨e', hsplit⟩ := importEntries_of_rejects hbefore hfailing after s.inner.ext
    rw [← hentries] at hsplit
    apply (withExt_eq_iff s _).mpr
    rw [hsplit]
    exact (hkeep before failing after hentries hbefore).mpr
      (h before failing after hentries hbefore hfailing)

/-- When all restores keep the store on a failure. -/
theorem restoresKeep_iff (persisted : PersistedState) (unknownPolicy : UnknownKeyPolicy)
    (s : PersistentStore keys) :
    RestoresKeep persisted unknownPolicy s ↔ PresentBeforeFailure s persisted unknownPolicy := by
  rw [← keepsOnError_restoreThreadScoped_iff]
  constructor
  · intro h
    exact h.threadScoped
  · intro h
    exact ⟨keepsOnError_restorePersisted persisted unknownPolicy s, h,
      keepsOnError_applySeed persisted unknownPolicy s⟩

/-! ## A restore that leaves an entry behind -/

/-- A program with one key of texts. -/
def noteKeys : StateKeys where
  Key := Unit
  decEq := inferInstance
  key _ := "note"
  merge _ := .exclusive
  Value _ := String
  Update _ := String
  default _ := ""
  apply _ _ update := update

def decodeText : Value → Except DecodeError String
  | .string s => .ok s
  | _ => .error (.keyDecode "note" "invalid type: expected a string")

/-- The key is registered with the thread scope. -/
def noteRegistration : KeyRegistration noteKeys := ⟨(), .thread, decodeText⟩

theorem note_named (name : String) (reg : KeyRegistration noteKeys)
    (h : (AssocMap.empty.insert "note" noteRegistration).get? name = some reg) :
    reg.key = name := by
  rw [AssocMap.get?_insert] at h
  split at h
  · rename_i heq
    rw [← Option.some.inj h, heq]
    rfl
  · cases h

/-- A new store with the key of notes. -/
def noteStore : PersistentStore noteKeys where
  inner := ⟨0, StateMap.empty⟩
  keysByName := AssocMap.empty.insert "note" noteRegistration
  named := note_named

/-- The note in front of an entry of an unknown key stays in the store. -/
theorem restoreThreadScoped_leavesNote :
    ¬ RestoresKeep ⟨7, (AssocMap.empty.insert "note" (Value.string "new")).insert "removed" .null⟩
      .error noteStore := by
  intro h
  have hsame := h.threadScoped (.unknownKey "removed") rfl
  have hnote := congrArg (fun s : PersistentStore noteKeys => s.inner.ext ()) hsame
  cases hnote

end Remo.PersistentStore
