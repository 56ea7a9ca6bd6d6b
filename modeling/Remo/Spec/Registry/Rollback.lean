import Remo.Spec.Registry.VersionHistory

/-!
# Rolling back a publication

A rollback publishes the content of an earlier snapshot again, under a new snapshot.

## Key results

- `rollbackPublication_error`: a rollback that fails changes nothing.
- `restored_of_stored`: a rollback of stored and named resources restores their content.
- `restoresContent_iff`: these are the snapshots that can be restored.
-/

namespace Remo

namespace InMemoryVersionedRegistryStore

variable {nonFinite : String → Option String} {digest : List UInt8 → String}

/-- What a manifest says about the content of a resource. -/
def PinnedRegistryEntry.content (entry : PinnedRegistryEntry) : String × String × String :=
  (entry.kind, entry.id, entry.contentHash)

/-- The store after a rollback to a snapshot, and what was published by it. -/
structure Restored (w : InMemoryVersionedRegistryStore) (scopeId : String) (snapshotVersion : Nat)
    (publicationId : String) (publication : RegistryPublication)
    (w' : InMemoryVersionedRegistryStore) : Prop where
  published : publication.publicationId = publicationId
  /-- The latest manifest has the contents of the manifest of the snapshot. -/
  manifest : ∃ old latest, w.pinnedManifestForPublication scopeId snapshotVersion =
      .ok (some old) ∧ w'.latestPinnedManifest scopeId = .ok (some latest) ∧
    latest.publicationId = some publicationId ∧
    (latest.entries.map PinnedRegistryEntry.content).Perm
      (old.entries.map PinnedRegistryEntry.content) ∧
    /- The current version of a resource has its content, and is the one that was current when that
       had it. -/
    ∀ entry ∈ old.entries, ∃ record, w'.current scopeId entry.kind entry.id = some record ∧
      record.contentHash = entry.contentHash ∧
      ∀ before, w.current scopeId entry.kind entry.id = some before →
        before.contentHash = entry.contentHash → record = before
  versions : ∀ key, w.recordsOf key <+: w'.recordsOf key
  publications : ∀ scope, w.publicationsOf scope <+: w'.publicationsOf scope

/-- A rollback to the snapshot restores its content, and one that fails changes nothing. -/
structure RestoresContent (nonFinite : String → Option String) (digest : List UInt8 → String)
    (w : InMemoryVersionedRegistryStore) (scopeId : String) (snapshotVersion : Nat)
    (publicationId : String) (createdBy : Option String) (metadata : Value) (now : UInt64) :
    Prop where
  succeeds : ∃ publication w', rollbackPublication nonFinite digest scopeId snapshotVersion
      publicationId createdBy metadata now w = (.ok publication, w') ∧
    Restored w scopeId snapshotVersion publicationId publication w'
  fails : ∀ ops scopeId snapshotVersion publicationId createdBy metadata now error,
    (rollbackPublication nonFinite digest scopeId snapshotVersion publicationId createdBy metadata
      now ((machine nonFinite digest).run new ops)).1 = .error error →
        (rollbackPublication nonFinite digest scopeId snapshotVersion publicationId createdBy
          metadata now ((machine nonFinite digest).run new ops)).2 =
            (machine nonFinite digest).run new ops

/-! ## A rollback that fails -/

/-- A rollback that fails changes nothing. -/
theorem rollbackPublication_error {scopeId publicationId : String} {snapshotVersion : Nat}
    {createdBy : Option String} {metadata : Value} {now : UInt64}
    {w : InMemoryVersionedRegistryStore} {error : VersionedRegistryError}
    (h : (rollbackPublication nonFinite digest scopeId snapshotVersion publicationId createdBy
      metadata now w).1 = .error error) :
    (rollbackPublication nonFinite digest scopeId snapshotVersion publicationId createdBy metadata
      now w).2 = w := by
  unfold rollbackPublication at h ⊢
  split
  · rfl
  · rename_i hblank
    rw [if_neg hblank] at h
    split
    · rfl
    · rename_i source hsource
      rw [hsource] at h
      split
      · rfl
      · rename_i resources hresources
        dsimp only at h
        rw [hresources] at h
        cases publishResources_cases nonFinite digest scopeId publicationId resources
          source.sourceConfigRevisions createdBy metadata now w with
        | inl hfailed =>
          obtain ⟨error', heq⟩ := hfailed
          rw [heq]
        | inr hok =>
          obtain ⟨all, -, -, -, -, heq⟩ := hok
          dsimp only at h
          rw [heq] at h
          cases h

/-! ## What the snapshot was -/

/-- The record of a stored version. -/
theorem get_spec {w : InMemoryVersionedRegistryStore} {scopeId kind id : String} {version : Nat}
    {record : VersionedRecord} (h : w.get scopeId kind id version = some record) :
    record ∈ w.recordsOf (scopeId, kind, id) ∧ record.version = version := by
  refine ⟨List.mem_of_find?_eq_some h, ?_⟩
  have hversion := List.find?_some h
  simpa using hversion

/-- The content that an entry of a publication names. -/
def contentOf (self : InMemoryVersionedRegistryStore) (scopeId : String) (entry : VersionRef) :
    Option String :=
  (self.get scopeId entry.kind entry.id entry.version).map VersionedRecord.contentHash

/-- The resources of a rollback are those of the entries, with the content they had. -/
theorem rollbackResources_ok {w : InMemoryVersionedRegistryStore}
    (h : w.Sound nonFinite digest) {scopeId : String} {source : RegistryPublication}
    {entries : List VersionRef}
    (hstored : ∀ entry ∈ entries, (w.get scopeId entry.kind entry.id entry.version).isSome) :
    ∃ resources all, w.rollbackResources scopeId source entries = .ok resources ∧
      prepare nonFinite digest resources = .ok all ∧
      List.Forall₂ (fun (entry : VersionRef) (prepared : RegistryResourcePublish × String ×
        List UInt8) => prepared.1.kind = entry.kind ∧ prepared.1.id = entry.id ∧
          w.contentOf scopeId entry = some prepared.2.1) entries all := by
  induction entries with
  | nil => exact ⟨[], [], rfl, rfl, .nil⟩
  | cons entry entries ih =>
    obtain ⟨record, hrecord⟩ := Option.isSome_iff_exists.mp (hstored entry List.mem_cons_self)
    obtain ⟨resources, all, hresources, hprepare, hall⟩ :=
      ih fun e he => hstored e (List.mem_cons_of_mem _ he)
    have hhash := h.hashed _ record (get_spec hrecord).1
    unfold rollbackResources
    rw [hrecord]
    dsimp only
    rw [hresources]
    refine ⟨_, (rollbackSource source entry record, record.contentHash,
      record.canonicalJsonBytes) :: all, rfl, ?_, .cons ?_ hall⟩
    · have hsource : contentHashOf nonFinite digest
          (rollbackSource source entry record).valueSchemaVersion
          (rollbackSource source entry record).value =
            .ok (record.contentHash, record.canonicalJsonBytes) := hhash
      show prepare nonFinite digest (rollbackSource source entry record :: resources) = _
      unfold prepare
      rw [hsource, hprepare]
      rfl
    · exact ⟨rfl, rfl, by rw [contentOf, hrecord]; rfl⟩

/-- When the resources of a rollback can be read, all versions are stored. -/
theorem stored_of_rollbackResources {w : InMemoryVersionedRegistryStore} {scopeId : String}
    {source : RegistryPublication} {entries : List VersionRef}
    {resources : List RegistryResourcePublish}
    (h : w.rollbackResources scopeId source entries = .ok resources) :
    resources.map (fun resource => (resource.kind, resource.id)) =
        entries.map (fun entry => (entry.kind, entry.id)) ∧
      ∀ entry ∈ entries, (w.get scopeId entry.kind entry.id entry.version).isSome := by
  induction entries generalizing resources with
  | nil =>
    cases h
    simp
  | cons entry entries ih =>
    unfold rollbackResources at h
    cases hrecord : w.get scopeId entry.kind entry.id entry.version with
    | none =>
      rw [hrecord] at h
      cases h
    | some record =>
      rw [hrecord] at h
      dsimp only at h
      cases hrest : w.rollbackResources scopeId source entries with
      | error error =>
        rw [hrest] at h
        cases h
      | ok rest =>
        rw [hrest] at h
        cases h
        obtain ⟨hmap, hstored⟩ := ih hrest
        refine ⟨by rw [List.map_cons, List.map_cons, hmap]; rfl, ?_⟩
        intro e he
        cases List.mem_cons.mp he with
        | inl heq => rw [heq, hrecord]; rfl
        | inr hmem => exact hstored e hmem

/-- The pinned entries of stored versions. -/
theorem pinnedEntries_ok {w : InMemoryVersionedRegistryStore} {scopeId : String}
    {entries : List VersionRef}
    (hstored : ∀ entry ∈ entries, (w.get scopeId entry.kind entry.id entry.version).isSome) :
    ∃ pinned, w.pinnedEntries scopeId entries = .ok pinned ∧
      List.Forall₂ (fun (entry : VersionRef) (p : PinnedRegistryEntry) => p.kind = entry.kind ∧
        p.id = entry.id ∧ w.contentOf scopeId entry = some p.contentHash) entries pinned := by
  induction entries with
  | nil => exact ⟨[], rfl, .nil⟩
  | cons entry entries ih =>
    obtain ⟨record, hrecord⟩ := Option.isSome_iff_exists.mp (hstored entry List.mem_cons_self)
    obtain ⟨pinned, hpinned, hall⟩ := ih fun e he => hstored e (List.mem_cons_of_mem _ he)
    unfold pinnedEntries
    rw [hrecord]
    dsimp only
    rw [hpinned]
    refine ⟨_, rfl, .cons ⟨rfl, rfl, ?_⟩ hall⟩
    rw [contentOf, hrecord]
    rfl

/-- The contents of the pinned entries are those of the entries. -/
theorem contents_pinned {w : InMemoryVersionedRegistryStore} {scopeId : String}
    {entries : List VersionRef} {pinned : List PinnedRegistryEntry}
    (h : List.Forall₂ (fun (entry : VersionRef) (p : PinnedRegistryEntry) => p.kind = entry.kind ∧
      p.id = entry.id ∧ w.contentOf scopeId entry = some p.contentHash) entries pinned) :
    pinned.map PinnedRegistryEntry.content = entries.map fun entry =>
      (entry.kind, entry.id, (w.contentOf scopeId entry).getD "") := by
  induction h with
  | nil => rfl
  | cons hentry _ ih =>
    rw [List.map_cons, List.map_cons, ih, PinnedRegistryEntry.content, hentry.1, hentry.2.1,
      hentry.2.2]
    rfl

/-! ## A rollback that succeeds -/

/-- Resources that can be published are. -/
theorem publishResources_ok {scopeId publicationId : String}
    {resources : List RegistryResourcePublish} (revisions : List ConfigRevisionRef)
    (createdBy : Option String) (metadata : Value) (now : UInt64)
    {w : InMemoryVersionedRegistryStore}
    {all : List (RegistryResourcePublish × String × List UInt8)}
    (hvalid : validateResourcePublicationRequest publicationId resources = .ok ())
    (hprepare : prepare nonFinite digest resources = .ok all)
    (hfresh : w.hasPublication scopeId publicationId = false)
    (harchived : ∀ prepared ∈ all, w.isArchived (keyOf scopeId prepared) = false) :
    publishResourcesAndCreatePublication nonFinite digest scopeId publicationId resources
        revisions createdBy metadata now w =
      (.ok ((publishAll scopeId now all w).2.pushPublication scopeId publicationId
          (publishAll scopeId now all w).1 revisions createdBy metadata now).1,
        ((publishAll scopeId now all w).2.pushPublication scopeId publicationId
          (publishAll scopeId now all w).1 revisions createdBy metadata now).2) := by
  have hnone : all.find? (fun p => w.isArchived (scopeId, p.1.kind, p.1.id)) = none := by
    rw [List.find?_eq_none]
    intro prepared hprepared
    rw [Bool.not_eq_true]
    exact harchived prepared hprepared
  unfold publishResourcesAndCreatePublication
  rw [hvalid]
  dsimp only
  rw [hprepare]
  dsimp only
  rw [hfresh, if_neg (by simp), hnone]

/-- The published entries have the content of the resources. -/
theorem contentOf_published {w w₁ w' : InMemoryVersionedRegistryStore}
    (h₁ : w₁.Sound nonFinite digest) (hversions : w'.versions = w₁.versions) {scopeId : String}
    {prepared : RegistryResourcePublish × String × List UInt8} {entry : VersionRef}
    (h : PublishedAs w w₁ scopeId prepared entry) :
    w'.contentOf scopeId entry = some prepared.2.1 := by
  obtain ⟨record, hlast, hversion, hhash, -⟩ := h.current
  unfold contentOf get recordsOf
  rw [hversions, h.kind, h.id, ← hversion]
  have hfind := find?_getLast? (h₁.ascending (keyOf scopeId prepared)) hlast
  have hget : ((w₁.versions.get? (scopeId, prepared.1.kind, prepared.1.id)).getD []).find?
      (fun r => r.version == record.version) = some record := hfind
  rw [hget, Option.map_some, hhash]

/-- The contents of the published entries are those of the resources. -/
theorem contents_published {w w₁ w' : InMemoryVersionedRegistryStore}
    (h₁ : w₁.Sound nonFinite digest) (hversions : w'.versions = w₁.versions) {scopeId : String}
    {all : List (RegistryResourcePublish × String × List UInt8)} {entries : List VersionRef}
    (h : List.Forall₂ (PublishedAs w w₁ scopeId) all entries) :
    entries.map (fun entry => (entry.kind, entry.id, (w'.contentOf scopeId entry).getD "")) =
      all.map fun prepared => (prepared.1.kind, prepared.1.id, prepared.2.1) := by
  induction h with
  | nil => rfl
  | cons hentry _ ih =>
    rw [List.map_cons, List.map_cons, ih, contentOf_published h₁ hversions hentry, hentry.kind,
      hentry.id]
    rfl

/-- The contents of the resources are those of the entries they come from. -/
theorem contents_resources {w : InMemoryVersionedRegistryStore} {scopeId : String}
    {entries : List VersionRef} {all : List (RegistryResourcePublish × String × List UInt8)}
    (h : List.Forall₂ (fun (entry : VersionRef) (prepared : RegistryResourcePublish × String ×
      List UInt8) => prepared.1.kind = entry.kind ∧ prepared.1.id = entry.id ∧
        w.contentOf scopeId entry = some prepared.2.1) entries all) :
    all.map (fun prepared => (prepared.1.kind, prepared.1.id, prepared.2.1)) =
      entries.map fun entry => (entry.kind, entry.id, (w.contentOf scopeId entry).getD "") := by
  induction h with
  | nil => rfl
  | cons hentry _ ih =>
    rw [List.map_cons, List.map_cons, ih, hentry.1, hentry.2.1, hentry.2.2]
    rfl

/-- The latest publication is the one that was pushed. -/
theorem latest_pushPublication {w w' : InMemoryVersionedRegistryStore}
    (h : w.Sound nonFinite digest) {scopeId : String} {publication : RegistryPublication}
    (hsnapshot : publication.snapshotVersion = w.nextSnapshot scopeId)
    (hpublications : w'.publicationsOf scopeId = w.publicationsOf scopeId ++ [publication]) :
    w'.latestPinnedManifest scopeId = (w'.pinnedEntries scopeId publication.entries).map
      fun entries => some ⟨some publication.publicationId, some publication.snapshotVersion,
        entries⟩ := by
  have hlatest : w'.latestPublication scopeId = some publication := by
    unfold latestPublication
    rw [hpublications]
    simp
  have hget : w'.getPublication scopeId publication.snapshotVersion = some publication := by
    unfold getPublication
    have hnone : (w.publicationsOf scopeId).find? (fun p =>
        p.snapshotVersion == publication.snapshotVersion) = none := by
      rw [List.find?_eq_none]
      intro p hp
      have hlt := h.lt_nextSnapshot hp
      simp only [beq_iff_eq]
      omega
    rw [hpublications, List.find?_append, hnone]
    simp
  unfold latestPinnedManifest
  rw [hlatest]
  dsimp only
  unfold pinnedManifestForPublication
  rw [hget]

/-- A rollback of stored and named resources restores their content. -/
theorem restored_of_stored {w : InMemoryVersionedRegistryStore} (h : w.Sound nonFinite digest)
    {scopeId publicationId : String} {snapshotVersion : Nat} {source : RegistryPublication}
    (hsource : w.getPublication scopeId snapshotVersion = some source)
    (harchived : ∀ entry ∈ source.entries,
      w.isArchived (scopeId, entry.kind, entry.id) = false)
    (hblank : Str.isBlank publicationId = false)
    (hfresh : w.hasPublication scopeId publicationId = false)
    (hstored : ∀ entry ∈ source.entries, Str.isBlank entry.kind = false ∧
      Str.isBlank entry.id = false ∧
      (w.get scopeId entry.kind entry.id entry.version).isSome)
    (createdBy : Option String) (metadata : Value) (now : UInt64) :
    ∃ publication w', rollbackPublication nonFinite digest scopeId snapshotVersion publicationId
        createdBy metadata now w = (.ok publication, w') ∧
      Restored w scopeId snapshotVersion publicationId publication w' := by
  have hget : ∀ entry ∈ source.entries,
      (w.get scopeId entry.kind entry.id entry.version).isSome :=
    fun entry hentry => (hstored entry hentry).2.2
  obtain ⟨hne, hnodup⟩ := h.distinct scopeId source (List.mem_of_find?_eq_some hsource)
  obtain ⟨resources, all, hresources, hprepare, hall⟩ :=
    @rollbackResources_ok _ _ w h scopeId _ source.entries hget
  obtain ⟨hidentities, -⟩ := stored_of_rollbackResources hresources
  obtain ⟨hfst, hprepared⟩ := prepare_ok hprepare
  have hvalid : validateResourcePublicationRequest publicationId resources = .ok () := by
    rw [validateResourcePublicationRequest_ok]
    refine ⟨hblank, ?_, ?_, by rw [hidentities]; exact hnodup⟩
    · intro hnil
      rw [hnil] at hidentities
      exact hne (List.map_eq_nil_iff.mp hidentities.symm)
    · intro resource hresource
      have hmem : (resource.kind, resource.id) ∈
          source.entries.map fun entry => (entry.kind, entry.id) := by
        rw [← hidentities]
        exact List.mem_map_of_mem
          (f := fun resource : RegistryResourcePublish => (resource.kind, resource.id)) hresource
      obtain ⟨entry, hentry, heq⟩ := List.mem_map.mp hmem
      obtain ⟨hkind, hid⟩ := Prod.mk.inj heq
      rw [← hkind, ← hid]
      exact ⟨(hstored entry hentry).1, (hstored entry hentry).2.1⟩
  have hopen : ∀ prepared ∈ all, w.isArchived (keyOf scopeId prepared) = false := by
    intro prepared hmem
    obtain ⟨entry, hentry, hkind, hid, -⟩ := hall.exists_of_mem_right hmem
    unfold keyOf
    rw [hkind, hid]
    exact harchived entry hentry
  have hkeys : (all.map (keyOf scopeId)).Nodup := by
    rw [← hidentities, ← hfst, List.map_map] at hnodup
    apply List.Nodup.of_map Prod.snd
    rw [List.map_map]
    exact hnodup
  have hpublish := publishResources_ok source.sourceConfigRevisions createdBy metadata now hvalid
    hprepare hfresh hopen
  obtain ⟨hsound₁, hgrows, hentries, -⟩ := h.publishAll scopeId now hprepared hkeys rfl
  generalize (publishAll scopeId now all w).1 = entries at hpublish hentries
  generalize (publishAll scopeId now all w).2 = w₁ at hpublish hsound₁ hgrows hentries
  cases hpush : w₁.pushPublication scopeId publicationId entries source.sourceConfigRevisions
    createdBy metadata now with
  | mk publication w' =>
    rw [hpush] at hpublish
    obtain ⟨hid, hsnapshot, hsorted, hresources', hversions, hpending, hpublications⟩ :=
      pushPublication_spec _ _ _ _ _ _ _ _ hpush
    have hrecords : ∀ key, w'.recordsOf key = w₁.recordsOf key := by
      intro key
      unfold recordsOf
      rw [hversions]
    have hcurrent : ∀ kind id, w'.current scopeId kind id =
        (w₁.recordsOf (scopeId, kind, id)).getLast? := by
      intro kind id
      rw [← hsound₁.currentRecord_eq]
      unfold current currentRecord recordsOf
      rw [hversions, hresources']
    have hlatest := latest_pushPublication hsound₁ hsnapshot
      (by rw [hpublications, if_pos rfl])
    have hperm : publication.entries.Perm entries := by
      rw [hsorted]
      exact List.perm_insertionSort _ _
    have hstored' : ∀ entry ∈ publication.entries,
        (w'.get scopeId entry.kind entry.id entry.version).isSome := by
      intro entry hentry
      obtain ⟨prepared, -, hpublished⟩ :=
        hentries.exists_of_mem_right (hperm.mem_iff.mp hentry)
      have hcontent := contentOf_published hsound₁ hversions hpublished
      unfold contentOf at hcontent
      rw [← Option.isSome_map (f := VersionedRecord.contentHash), hcontent]
      rfl
    obtain ⟨latest, hpinned, hlatestAll⟩ := pinnedEntries_ok hstored'
    obtain ⟨old, hold, holdAll⟩ := pinnedEntries_ok hget
    rw [hpinned] at hlatest
    refine ⟨publication, w', ?_, hid,
      ⟨⟨some source.publicationId, some source.snapshotVersion, old⟩,
        ⟨some publication.publicationId, some publication.snapshotVersion, latest⟩,
        ?_, hlatest, ?_, ?_, ?_⟩, ?_, ?_⟩
    · unfold rollbackPublication
      rw [hblank, if_neg (by simp), hsource]
      dsimp only
      rw [hresources]
      exact hpublish
    · unfold pinnedManifestForPublication
      rw [hsource]
      dsimp only
      rw [hold]
      rfl
    · show some publication.publicationId = some publicationId
      rw [hid]
    · show (latest.map PinnedRegistryEntry.content).Perm (old.map PinnedRegistryEntry.content)
      rw [contents_pinned hlatestAll, contents_pinned holdAll, ← contents_resources hall,
        ← contents_published hsound₁ hversions hentries]
      exact hperm.map _
    · intro p hp
      obtain ⟨entry, hentry, hkind, hid', hcontent⟩ := holdAll.exists_of_mem_right hp
      obtain ⟨prepared, hmem, hkind', hid'', hcontent'⟩ := hall.exists_of_mem_left hentry
      obtain ⟨ref, -, hpublished⟩ := hentries.exists_of_mem_left hmem
      obtain ⟨record, hlast, -, hhash, hreuse⟩ := hpublished.current
      have hsame : prepared.2.1 = p.contentHash := by
        rw [hcontent] at hcontent'
        exact (Option.some.inj hcontent').symm
      have hkey : (scopeId, p.kind, p.id) = keyOf scopeId prepared := by
        unfold keyOf
        rw [hkind, hid', hkind', hid'']
      refine ⟨record, ?_, by rw [hhash, hsame], ?_⟩
      · rw [hcurrent, hkey]
        exact hlast
      · intro before hbefore hbeforeHash
        apply hreuse before _ (by rw [hbeforeHash, hsame])
        rw [← hkey, ← h.currentRecord_eq]
        exact hbefore
    · intro key
      rw [hrecords]
      exact hgrows.records key
    · intro scope
      have hsameScope : w₁.publicationsOf scope = w.publicationsOf scope := by
        unfold publicationsOf
        rw [hgrows.publications]
      rw [hpublications]
      split
      · rw [hsameScope]
        exact List.prefix_append _ _
      · exact hsameScope ▸ List.prefix_refl _

/-- The snapshots that can be restored are those whose resources are named and whose versions are
    stored. -/
theorem restoresContent_iff (ops : List VersionedRegistryOp) {scopeId publicationId : String}
    {snapshotVersion : Nat} {source : RegistryPublication}
    (hsource : ((machine nonFinite digest).run new ops).getPublication scopeId snapshotVersion =
      some source)
    (harchived : ∀ entry ∈ source.entries,
      ((machine nonFinite digest).run new ops).isArchived (scopeId, entry.kind, entry.id) = false)
    (hblank : Str.isBlank publicationId = false)
    (hfresh : ((machine nonFinite digest).run new ops).hasPublication scopeId publicationId =
      false) (createdBy : Option String) (metadata : Value) (now : UInt64) :
    RestoresContent nonFinite digest ((machine nonFinite digest).run new ops) scopeId
        snapshotVersion publicationId createdBy metadata now ↔
      ∀ entry ∈ source.entries, Str.isBlank entry.kind = false ∧ Str.isBlank entry.id = false ∧
        (((machine nonFinite digest).run new ops).get scopeId entry.kind entry.id
          entry.version).isSome := by
  have hsound := sound_run nonFinite digest ops
  have hfails : ∀ ops scopeId snapshotVersion publicationId createdBy metadata now error,
      (rollbackPublication nonFinite digest scopeId snapshotVersion publicationId createdBy
        metadata now ((machine nonFinite digest).run new ops)).1 = .error error →
          (rollbackPublication nonFinite digest scopeId snapshotVersion publicationId createdBy
            metadata now ((machine nonFinite digest).run new ops)).2 =
              (machine nonFinite digest).run new ops :=
    fun _ _ _ _ _ _ _ _ => rollbackPublication_error
  generalize (machine nonFinite digest).run new ops = w at hsource harchived hfresh hsound ⊢
  constructor
  · intro hrestores
    obtain ⟨publication, w', hrollback, -⟩ := hrestores.succeeds
    unfold rollbackPublication at hrollback
    rw [hblank, if_neg (by simp), hsource] at hrollback
    dsimp only at hrollback
    cases hresources : w.rollbackResources scopeId source source.entries with
    | error error =>
      rw [hresources] at hrollback
      cases hrollback
    | ok resources =>
      rw [hresources] at hrollback
      dsimp only at hrollback
      obtain ⟨hidentities, hstored⟩ := stored_of_rollbackResources hresources
      cases publishResources_cases nonFinite digest scopeId publicationId resources
        source.sourceConfigRevisions createdBy metadata now w with
      | inl hfailed =>
        obtain ⟨error, heq⟩ := hfailed
        rw [heq] at hrollback
        cases hrollback
      | inr hok =>
        obtain ⟨all, hvalid, -⟩ := hok
        obtain ⟨-, -, hnamed, -⟩ := validateResourcePublicationRequest_ok.mp hvalid
        intro entry hentry
        have hmem : (entry.kind, entry.id) ∈
            resources.map fun resource => (resource.kind, resource.id) := by
          rw [hidentities]
          exact List.mem_map_of_mem (f := fun entry : VersionRef => (entry.kind, entry.id)) hentry
        obtain ⟨resource, hresource, heq⟩ := List.mem_map.mp hmem
        obtain ⟨hkind, hid⟩ := Prod.mk.inj heq
        rw [← hkind, ← hid]
        refine ⟨(hnamed resource hresource).1, (hnamed resource hresource).2, ?_⟩
        rw [hkind, hid]
        exact hstored entry hentry
  · intro hstored
    exact ⟨restored_of_stored hsound hsource harchived hblank hfresh hstored createdBy metadata
      now, hfails⟩

/-- A publication of one model. -/
def publishesModel (kind : String) : List VersionedRegistryOp :=
  [.publishResource "default" kind "gpt" ⟨.null, trivial⟩ 1 .null 5,
    .createPublication "default" "p1" [⟨kind, "gpt", 1⟩] [] none .null 6]

theorem restoresContent_iff_model :
    RestoresContent (fun _ => none) (fun _ => "00")
      ((machine (fun _ => none) (fun _ => "00")).run new (publishesModel "model")) "default" 1 "p2"
      none .null 7 :=
  (restoresContent_iff (publishesModel "model") rfl (by decide +kernel) (by decide +kernel)
    (by decide +kernel) none .null 7).mpr (by decide +kernel)

/-- A resource without a kind can be published, but not by a rollback. -/
theorem publishedWithoutKind_notRestored :
    ¬RestoresContent (fun _ => none) (fun _ => "00")
      ((machine (fun _ => none) (fun _ => "00")).run new (publishesModel "")) "default" 1 "p2"
      none .null 7 := by
  intro h
  obtain ⟨publication, w', hrollback, -⟩ := h.succeeds
  have herror : (rollbackPublication (fun _ => none) (fun _ => "00") "default" 1 "p2" none .null 7
      ((machine (fun _ => none) (fun _ => "00")).run new (publishesModel ""))).1.isOk = false := by
    decide +kernel
  rw [hrollback] at herror
  cases herror

end InMemoryVersionedRegistryStore

end Remo
