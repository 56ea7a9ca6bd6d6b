import Remo.Native.Registry.VersionedStore

/-!
# The history of a versioned registry

Every resource has a history of records with ascending versions, the last of which is current, and
every record has the hash of its content. Calls only append to a history, but for the purge, which
never deletes the last record.

## Key results

- `currentRecord_eq`: the current record is the last one.
- `Sound.call`: every call keeps the histories sound.
- `sound_run`: so does a run.
-/

namespace Remo

namespace InMemoryVersionedRegistryStore

variable {nonFinite : String → Option String} {digest : List UInt8 → String}

/-- The histories and the publications of the store, and what its pending writes go by. -/
structure Sound (nonFinite : String → Option String) (digest : List UInt8 → String)
    (w : InMemoryVersionedRegistryStore) : Prop where
  hashed : ∀ key, ∀ record ∈ w.recordsOf key,
    contentHashOf nonFinite digest record.valueSchemaVersion record.value =
      .ok (record.contentHash, record.canonicalJsonBytes)
  named : ∀ key, ∀ record ∈ w.recordsOf key, key.2 = (record.kind, record.id)
  positive : ∀ key, ∀ record ∈ w.recordsOf key, record.version ≠ 0
  ascending : ∀ key, (w.recordsOf key).Pairwise fun a b => a.version < b.version
  currentLast : ∀ key, (w.resources.get? key).bind VersionedResourceState.currentVersion =
    (w.recordsOf key).getLast?.map VersionedRecord.version
  snapshots : ∀ scopeId, (w.publicationsOf scopeId).Pairwise fun a b =>
    a.snapshotVersion < b.snapshotVersion
  distinct : ∀ scopeId, ∀ publication ∈ w.publicationsOf scopeId,
    publication.entries ≠ [] ∧ (publication.entries.map fun entry => (entry.kind, entry.id)).Nodup
  /-- A pending purge deletes no last record. -/
  purges : ∀ scopeId plan, .purge scopeId plan ∈ w.pending → ∀ version ∈ plan, ∃ last,
    (w.recordsOf (scopeId, version.kind, version.id)).getLast? = some last ∧
      version.version < last.version
  rollbacks : ∀ scopeId kind id prior contentHash canonicalJsonBytes metadata,
    .rollback scopeId kind id prior contentHash canonicalJsonBytes metadata ∈ w.pending →
      contentHashOf nonFinite digest prior.valueSchemaVersion prior.value =
        .ok (contentHash, canonicalJsonBytes)

theorem sound_new : new.Sound nonFinite digest where
  hashed := by simp [new, recordsOf]
  named := by simp [new, recordsOf]
  positive := by simp [new, recordsOf]
  ascending := by simp [new, recordsOf]
  currentLast := by simp [new, recordsOf]
  snapshots := by simp [new, publicationsOf]
  distinct := by simp [new, publicationsOf]
  purges := by simp [new]
  rollbacks := by simp [new]

/-- The last of a list with ascending versions is the one with its version. -/
theorem find?_getLast? {records : List VersionedRecord}
    (h : records.Pairwise fun a b => a.version < b.version) {last : VersionedRecord}
    (hlast : records.getLast? = some last) :
    records.find? (fun record => record.version == last.version) = some last := by
  obtain ⟨before, rfl⟩ := List.getLast?_eq_some_iff.mp hlast
  rw [List.pairwise_append] at h
  have hnone : before.find? (fun record => record.version == last.version) = none := by
    rw [List.find?_eq_none]
    intro record hrecord
    have hlt := h.2.2 record hrecord last (List.mem_singleton_self last)
    simp only [beq_iff_eq]
    omega
  rw [List.find?_append, hnone]
  simp

/-- The current record is the last one. -/
theorem Sound.currentRecord_eq {w : InMemoryVersionedRegistryStore}
    (h : w.Sound nonFinite digest) (key : ResourceKey) :
    w.currentRecord key = (w.recordsOf key).getLast? := by
  have hcurrent := h.currentLast key
  unfold currentRecord
  rw [← Option.bind_assoc, hcurrent]
  cases hlast : (w.recordsOf key).getLast? with
  | none => rfl
  | some last =>
    rw [Option.map_some, Option.bind_some]
    exact find?_getLast? (h.ascending key) hlast

/-! ## Pushing a record -/

section PushRecord

variable (scopeId : String) (record : VersionedRecord) (now : UInt64)
  (w : InMemoryVersionedRegistryStore)

theorem recordsOf_pushRecord (key : ResourceKey) :
    (w.pushRecord scopeId record now).recordsOf key =
      if key = (scopeId, record.kind, record.id) then w.recordsOf key ++ [record]
      else w.recordsOf key := by
  show ((w.versions.insert (scopeId, record.kind, record.id)
    (w.recordsOf (scopeId, record.kind, record.id) ++ [record])).get? key).getD [] = _
  rw [AssocMap.get?_insert]
  split
  · rename_i heq
    rw [heq]
    rfl
  · rfl

theorem currentVersion_pushRecord (key : ResourceKey) :
    ((w.pushRecord scopeId record now).resources.get? key).bind
        VersionedResourceState.currentVersion =
      if key = (scopeId, record.kind, record.id) then some record.version
      else (w.resources.get? key).bind VersionedResourceState.currentVersion := by
  unfold pushRecord upsertResourceState
  dsimp only
  rw [AssocMap.get?_insert]
  split
  · cases w.resources.get? (scopeId, record.kind, record.id) <;> rfl
  · rfl

theorem isArchived_pushRecord (key : ResourceKey) :
    (w.pushRecord scopeId record now).isArchived key = w.isArchived key := by
  unfold isArchived pushRecord upsertResourceState
  dsimp only
  rw [AssocMap.get?_insert]
  split
  · rename_i heq
    rw [heq]
    cases w.resources.get? (scopeId, record.kind, record.id) <;> rfl
  · rfl

end PushRecord

/-- A new record has a later version than those before it. -/
theorem Sound.lt_nextVersion {w : InMemoryVersionedRegistryStore} (h : w.Sound nonFinite digest)
    {key : ResourceKey} {record : VersionedRecord} (hrecord : record ∈ w.recordsOf key) :
    record.version < w.nextVersion key := by
  unfold nextVersion
  cases hlast : (w.recordsOf key).getLast? with
  | none =>
    rw [List.getLast?_eq_none_iff] at hlast
    rw [hlast] at hrecord
    cases hrecord
  | some last =>
    obtain ⟨before, hsplit⟩ := List.getLast?_eq_some_iff.mp hlast
    have hascending := h.ascending key
    rw [hsplit] at hrecord hascending
    rw [List.pairwise_append] at hascending
    dsimp only
    cases List.mem_append.mp hrecord with
    | inl hbefore =>
      have hlt := hascending.2.2 record hbefore last (List.mem_singleton_self last)
      omega
    | inr hsame =>
      rw [List.mem_singleton.mp hsame]
      omega

/-- Pushing a record with the next version and the hash of its content. -/
theorem Sound.pushRecord {w : InMemoryVersionedRegistryStore} (h : w.Sound nonFinite digest)
    {scopeId : String} {record : VersionedRecord}
    (hversion : record.version = w.nextVersion (scopeId, record.kind, record.id))
    (hhash : contentHashOf nonFinite digest record.valueSchemaVersion record.value =
      .ok (record.contentHash, record.canonicalJsonBytes)) (now : UInt64) :
    (w.pushRecord scopeId record now).Sound nonFinite digest where
  hashed := by
    intro key r hr
    rw [recordsOf_pushRecord] at hr
    split at hr
    · cases List.mem_append.mp hr with
      | inl hold => exact h.hashed key r hold
      | inr hnew =>
        rw [List.mem_singleton.mp hnew]
        exact hhash
    · exact h.hashed key r hr
  named := by
    intro key r hr
    rw [recordsOf_pushRecord] at hr
    split at hr
    · rename_i heq
      cases List.mem_append.mp hr with
      | inl hold => exact h.named key r hold
      | inr hnew => rw [List.mem_singleton.mp hnew, heq]
    · exact h.named key r hr
  positive := by
    intro key r hr
    rw [recordsOf_pushRecord] at hr
    split at hr
    · cases List.mem_append.mp hr with
      | inl hold => exact h.positive key r hold
      | inr hnew =>
        rw [List.mem_singleton.mp hnew, hversion]
        unfold nextVersion
        split <;> omega
    · exact h.positive key r hr
  ascending := by
    intro key
    rw [recordsOf_pushRecord]
    split
    · rename_i heq
      rw [List.pairwise_append]
      refine ⟨h.ascending key, List.pairwise_singleton _ _, ?_⟩
      intro a ha b hb
      rw [List.mem_singleton.mp hb, hversion, ← heq]
      exact h.lt_nextVersion ha
    · exact h.ascending key
  currentLast := by
    intro key
    rw [currentVersion_pushRecord, recordsOf_pushRecord]
    split
    · simp
    · exact h.currentLast key
  snapshots := h.snapshots
  distinct := h.distinct
  purges := by
    intro scope plan hpending version hmem
    obtain ⟨last, hlast, hlt⟩ := h.purges scope plan hpending version hmem
    rw [recordsOf_pushRecord]
    split
    · rename_i heq
      refine ⟨record, by simp, ?_⟩
      have hnext := h.lt_nextVersion (List.mem_of_getLast? hlast)
      rw [heq, ← hversion] at hnext
      omega
    · exact ⟨last, hlast, hlt⟩
  rollbacks := h.rollbacks

/-! ## Publishing prepared resources -/

/-- The resource is prepared: it is with the hash of its content. -/
def IsPrepared (nonFinite : String → Option String) (digest : List UInt8 → String)
    (prepared : RegistryResourcePublish × String × List UInt8) : Prop :=
  contentHashOf nonFinite digest prepared.1.valueSchemaVersion prepared.1.value = .ok prepared.2

/-- The key of a prepared resource. -/
def keyOf (scopeId : String) (prepared : RegistryResourcePublish × String × List UInt8) :
    ResourceKey :=
  (scopeId, prepared.1.kind, prepared.1.id)

/-- The histories only grow, and nothing else that a reader can see changes. -/
structure Grows (w w' : InMemoryVersionedRegistryStore) : Prop where
  records : ∀ key, w.recordsOf key <+: w'.recordsOf key
  publications : w'.publications = w.publications
  archived : ∀ key, w'.isArchived key = w.isArchived key

theorem Grows.refl (w : InMemoryVersionedRegistryStore) : w.Grows w :=
  ⟨fun _ => List.prefix_rfl, rfl, fun _ => rfl⟩

theorem Grows.trans {w w' w'' : InMemoryVersionedRegistryStore} (h : w.Grows w')
    (h' : w'.Grows w'') : w.Grows w'' :=
  ⟨fun key => (h.records key).trans (h'.records key), h'.publications.trans h.publications,
    fun key => (h'.archived key).trans (h.archived key)⟩

theorem grows_pushRecord (scopeId : String) (record : VersionedRecord) (now : UInt64)
    (w : InMemoryVersionedRegistryStore) : w.Grows (w.pushRecord scopeId record now) where
  records := by
    intro key
    rw [recordsOf_pushRecord]
    split
    · exact List.prefix_append _ _
    · exact List.prefix_rfl
  publications := rfl
  archived := isArchived_pushRecord scopeId record now w

/-- The record is that of a prepared resource, and current. It is the one that was current when
    that has the content. -/
structure PublishedAs (w w' : InMemoryVersionedRegistryStore) (scopeId : String)
    (prepared : RegistryResourcePublish × String × List UInt8) (entry : VersionRef) : Prop where
  kind : entry.kind = prepared.1.kind
  id : entry.id = prepared.1.id
  current : ∃ record, (w'.recordsOf (keyOf scopeId prepared)).getLast? = some record ∧
    record.version = entry.version ∧ record.contentHash = prepared.2.1 ∧
    ∀ before, (w.recordsOf (keyOf scopeId prepared)).getLast? = some before →
      before.contentHash = prepared.2.1 → record = before

theorem Sound.publishPrepared {w : InMemoryVersionedRegistryStore} (h : w.Sound nonFinite digest)
    (scopeId : String) (now : UInt64) {prepared : RegistryResourcePublish × String × List UInt8}
    (hprepared : IsPrepared nonFinite digest prepared) {record : VersionedRecord}
    {w' : InMemoryVersionedRegistryStore}
    (heq : InMemoryVersionedRegistryStore.publishPrepared scopeId now prepared w = (record, w')) :
    w'.Sound nonFinite digest ∧ w.Grows w' ∧
      PublishedAs w w' scopeId prepared ⟨record.kind, record.id, record.version⟩ ∧
      ∀ key, key ≠ keyOf scopeId prepared → w'.recordsOf key = w.recordsOf key := by
  obtain ⟨resource, contentHash, canonicalJsonBytes⟩ := prepared
  unfold InMemoryVersionedRegistryStore.publishPrepared at heq
  dsimp only at heq
  rw [h.currentRecord_eq] at heq
  -- the record is pushed, since the current one does not have the content
  have hpush : ∀ pushed : VersionedRecord, pushed.kind = resource.kind → pushed.id = resource.id →
      pushed.version = w.nextVersion (scopeId, resource.kind, resource.id) →
      pushed.contentHash = contentHash → pushed.canonicalJsonBytes = canonicalJsonBytes →
      pushed.valueSchemaVersion = resource.valueSchemaVersion → pushed.value = resource.value →
      (∀ before, (w.recordsOf (scopeId, resource.kind, resource.id)).getLast? = some before →
        before.contentHash ≠ contentHash) →
      (pushed, w.pushRecord scopeId pushed now) = (record, w') →
      w'.Sound nonFinite digest ∧ w.Grows w' ∧
        PublishedAs w w' scopeId (resource, contentHash, canonicalJsonBytes)
          ⟨record.kind, record.id, record.version⟩ ∧
        ∀ key, key ≠ keyOf scopeId (resource, contentHash, canonicalJsonBytes) →
          w'.recordsOf key = w.recordsOf key := by
    intro pushed hkind hid hversion hhash hbytes hschema hvalue hother hpair
    obtain ⟨hrecord, hw'⟩ := Prod.mk.inj hpair
    rw [← hw', ← hrecord]
    have hlast : (w.pushRecord scopeId pushed now).recordsOf
        (scopeId, resource.kind, resource.id) =
          w.recordsOf (scopeId, resource.kind, resource.id) ++ [pushed] := by
      rw [recordsOf_pushRecord, hkind, hid, if_pos rfl]
    refine ⟨h.pushRecord (by rw [hkind, hid]; exact hversion) ?_ now,
      grows_pushRecord scopeId pushed now w, ⟨hkind, hid, pushed, ?_, rfl, hhash, ?_⟩, ?_⟩
    · rw [hschema, hvalue, hhash, hbytes]
      exact hprepared
    · show ((w.pushRecord scopeId pushed now).recordsOf
        (scopeId, resource.kind, resource.id)).getLast? = _
      rw [hlast]
      simp
    · intro before hbefore hsame
      exact absurd hsame (hother before hbefore)
    · intro key hkey
      rw [recordsOf_pushRecord, if_neg]
      rw [hkind, hid]
      exact hkey
  cases hlast : (w.recordsOf (scopeId, resource.kind, resource.id)).getLast? with
  | none =>
    rw [hlast] at heq hpush
    exact hpush _ rfl rfl rfl rfl rfl rfl rfl (by simp) heq
  | some current =>
    rw [hlast] at heq hpush
    dsimp only at heq
    split at heq
    · rename_i hsame
      obtain ⟨hrecord, hw'⟩ := Prod.mk.inj heq
      rw [← hw', ← hrecord]
      have hnamed := h.named _ current (List.mem_of_getLast? hlast)
      obtain ⟨hkind, hid⟩ := Prod.mk.inj hnamed
      refine ⟨h, Grows.refl w, ⟨hkind.symm, hid.symm, current, hlast, rfl, hsame, ?_⟩,
        fun _ _ => rfl⟩
      intro before hbefore _
      have hbefore' : some current = some before := hlast.symm.trans hbefore
      exact Option.some.inj hbefore'
    · rename_i hdiffer
      refine hpush _ rfl rfl rfl rfl rfl rfl rfl ?_ heq
      intro before hbefore
      rw [← Option.some.inj hbefore]
      exact hdiffer

/-- Resources of different keys are published each as if it was alone. -/
theorem Sound.publishAll {w : InMemoryVersionedRegistryStore} (h : w.Sound nonFinite digest)
    (scopeId : String) (now : UInt64) {all : List (RegistryResourcePublish × String × List UInt8)}
    (hprepared : ∀ prepared ∈ all, IsPrepared nonFinite digest prepared)
    (hnodup : (all.map (keyOf scopeId)).Nodup) {entries : List VersionRef}
    {w' : InMemoryVersionedRegistryStore}
    (heq : InMemoryVersionedRegistryStore.publishAll scopeId now all w = (entries, w')) :
    w'.Sound nonFinite digest ∧ w.Grows w' ∧
      List.Forall₂ (PublishedAs w w' scopeId) all entries ∧
      ∀ key, key ∉ all.map (keyOf scopeId) → w'.recordsOf key = w.recordsOf key := by
  induction all generalizing w w' entries with
  | nil =>
    unfold InMemoryVersionedRegistryStore.publishAll at heq
    obtain ⟨hentries, hw'⟩ := Prod.mk.inj heq
    rw [← hw', ← hentries]
    exact ⟨h, Grows.refl w, .nil, fun _ _ => rfl⟩
  | cons prepared rest ih =>
    unfold InMemoryVersionedRegistryStore.publishAll at heq
    cases hfirst : InMemoryVersionedRegistryStore.publishPrepared scopeId now prepared w with
    | mk record w₁ =>
      cases hrest : InMemoryVersionedRegistryStore.publishAll scopeId now rest w₁ with
      | mk more w₂ =>
        rw [hfirst] at heq
        dsimp only at heq
        rw [hrest] at heq
        obtain ⟨hentries, hw'⟩ := Prod.mk.inj heq
        rw [← hw', ← hentries]
        rw [List.map_cons, List.nodup_cons] at hnodup
        obtain ⟨hsound₁, hgrows₁, hpublished, hkept₁⟩ :=
          h.publishPrepared scopeId now (hprepared prepared List.mem_cons_self) hfirst
        obtain ⟨hsound₂, hgrows₂, hall, hkept₂⟩ := ih hsound₁
          (fun p hp => hprepared p (List.mem_cons_of_mem _ hp)) hnodup.2 hrest
        refine ⟨hsound₂, hgrows₁.trans hgrows₂, .cons ?_ ?_, ?_⟩
        · -- the others leave the first alone
          obtain ⟨current, hlast, hversion, hhash, hreuse⟩ := hpublished.current
          refine ⟨hpublished.kind, hpublished.id, current, ?_, hversion, hhash, hreuse⟩
          rw [hkept₂ _ hnodup.1]
          exact hlast
        · -- and the first leaves the others alone
          have hne : ∀ p ∈ rest, keyOf scopeId p ≠ keyOf scopeId prepared := by
            intro p hp hsame
            exact hnodup.1 (hsame ▸ List.mem_map_of_mem hp)
          apply ((List.forall₂_and_left _ _).mpr ⟨hne, hall⟩).imp
          intro p entry hboth
          obtain ⟨hne, hentry⟩ := hboth
          obtain ⟨current, hlast, hversion, hhash, hreuse⟩ := hentry.current
          refine ⟨hentry.kind, hentry.id, current, hlast, hversion, hhash, ?_⟩
          intro before hbefore hsame
          exact hreuse before (by rw [hkept₁ _ hne]; exact hbefore) hsame
        · intro key hkey
          rw [List.map_cons, List.mem_cons, not_or] at hkey
          rw [hkept₂ key hkey.2, hkept₁ key hkey.1]

/-! ## Publications -/

section PushPublication

variable (scopeId publicationId : String) (entries : List VersionRef)
  (revisions : List ConfigRevisionRef) (createdBy : Option String) (metadata : Value)
  (now : UInt64) (w : InMemoryVersionedRegistryStore)

/-- The snapshot version of the next publication of a scope. -/
def nextSnapshot (self : InMemoryVersionedRegistryStore) (scopeId : String) : Nat :=
  match (self.publicationsOf scopeId).getLast? with
  | none => 1
  | some publication => publication.snapshotVersion + 1

/-- What a new publication is, and where it goes. -/
theorem pushPublication_spec {publication : RegistryPublication}
    {w' : InMemoryVersionedRegistryStore}
    (h : w.pushPublication scopeId publicationId entries revisions createdBy metadata now =
      (publication, w')) :
    publication.publicationId = publicationId ∧
      publication.snapshotVersion = w.nextSnapshot scopeId ∧
      publication.entries = sortPublicationEntries entries ∧
      w'.resources = w.resources ∧ w'.versions = w.versions ∧ w'.pending = w.pending ∧
      ∀ scope, w'.publicationsOf scope =
        if scope = scopeId then w.publicationsOf scope ++ [publication]
        else w.publicationsOf scope := by
  unfold pushPublication at h
  obtain ⟨hpublication, hw'⟩ := Prod.mk.inj h
  rw [← hw']
  refine ⟨by rw [← hpublication], by rw [← hpublication]; rfl, by rw [← hpublication], rfl, rfl,
    rfl, ?_⟩
  intro scope
  unfold publicationsOf
  dsimp only
  rw [AssocMap.get?_insert]
  split
  · rename_i heq
    rw [heq, ← hpublication]
    rfl
  · rfl

end PushPublication

theorem Sound.lt_nextSnapshot {w : InMemoryVersionedRegistryStore} (h : w.Sound nonFinite digest)
    {scopeId : String} {publication : RegistryPublication}
    (hmem : publication ∈ w.publicationsOf scopeId) :
    publication.snapshotVersion < w.nextSnapshot scopeId := by
  unfold nextSnapshot
  cases hlast : (w.publicationsOf scopeId).getLast? with
  | none =>
    rw [List.getLast?_eq_none_iff] at hlast
    rw [hlast] at hmem
    cases hmem
  | some last =>
    obtain ⟨before, hsplit⟩ := List.getLast?_eq_some_iff.mp hlast
    have hascending := h.snapshots scopeId
    rw [hsplit] at hmem hascending
    rw [List.pairwise_append] at hascending
    dsimp only
    cases List.mem_append.mp hmem with
    | inl hbefore =>
      have hlt := hascending.2.2 publication hbefore last (List.mem_singleton_self last)
      omega
    | inr hsame =>
      rw [List.mem_singleton.mp hsame]
      omega

/-- A publication with entries for different resources. -/
theorem Sound.pushPublication {w : InMemoryVersionedRegistryStore} (h : w.Sound nonFinite digest)
    {scopeId publicationId : String} {entries : List VersionRef}
    {revisions : List ConfigRevisionRef} {createdBy : Option String} {metadata : Value}
    {now : UInt64} (hne : entries ≠ [])
    (hnodup : (entries.map fun entry => (entry.kind, entry.id)).Nodup)
    {publication : RegistryPublication} {w' : InMemoryVersionedRegistryStore}
    (heq : InMemoryVersionedRegistryStore.pushPublication scopeId publicationId entries revisions
      createdBy metadata now w = (publication, w')) : w'.Sound nonFinite digest := by
  obtain ⟨-, hsnapshot, hentries, hresources, hversions, hpending, hpublications⟩ :=
    pushPublication_spec scopeId publicationId entries revisions createdBy metadata now w heq
  have hrecords : ∀ key, w'.recordsOf key = w.recordsOf key := by
    intro key
    unfold recordsOf
    rw [hversions]
  have hperm : publication.entries.Perm entries := by
    rw [hentries]
    exact List.perm_insertionSort _ _
  constructor
  case hashed =>
    intro key
    rw [hrecords]
    exact h.hashed key
  case named =>
    intro key
    rw [hrecords]
    exact h.named key
  case positive =>
    intro key
    rw [hrecords]
    exact h.positive key
  case ascending =>
    intro key
    rw [hrecords]
    exact h.ascending key
  case currentLast =>
    intro key
    rw [hresources, hrecords]
    exact h.currentLast key
  case snapshots =>
    intro scope
    rw [hpublications]
    split
    · rename_i hscope
      rw [List.pairwise_append]
      refine ⟨h.snapshots scope, List.pairwise_singleton _ _, ?_⟩
      intro a ha b hb
      rw [List.mem_singleton.mp hb, hsnapshot, ← hscope]
      exact h.lt_nextSnapshot ha
    · exact h.snapshots scope
  case distinct =>
    intro scope p hp
    rw [hpublications] at hp
    split at hp
    · cases List.mem_append.mp hp with
      | inl hold => exact h.distinct scope p hold
      | inr hnew =>
        rw [List.mem_singleton.mp hnew]
        refine ⟨?_, (hperm.map _).nodup_iff.mpr hnodup⟩
        intro hnil
        rw [hnil] at hperm
        exact hne hperm.symm.eq_nil
    · exact h.distinct scope p hp
  case purges =>
    intro scope plan hplan version hversion
    rw [hpending] at hplan
    rw [hrecords]
    exact h.purges scope plan hplan version hversion
  case rollbacks =>
    intro scope kind id prior contentHash bytes metadata hrollback
    rw [hpending] at hrollback
    exact h.rollbacks scope kind id prior contentHash bytes metadata hrollback

/-- A request is valid when its elements are and name different resources. -/
theorem rejectRepeated_ok {α : Type} {identity : α → String × String} {what : String}
    {reject : α → Except VersionedRegistryError Unit} {seen : List (String × String)}
    {as : List α} : rejectRepeated identity what reject seen as = .ok () ↔
      (∀ a ∈ as, reject a = .ok ()) ∧ (as.map identity).Nodup ∧
        ∀ a ∈ as, identity a ∉ seen := by
  induction as generalizing seen with
  | nil => simp [rejectRepeated]
  | cons a as ih =>
    unfold rejectRepeated
    cases hreject : reject a with
    | error error => simp [hreject]
    | ok u =>
      dsimp only
      by_cases hseen : identity a ∈ seen
      · simp [hseen]
      · rw [if_neg hseen, ih, List.map_cons, List.nodup_cons]
        constructor
        · intro h
          obtain ⟨hvalid, hnodup, hnew⟩ := h
          refine ⟨by simpa [hreject] using hvalid, ⟨?_, hnodup⟩, ?_⟩
          · intro hmem
            obtain ⟨b, hb, heq⟩ := List.mem_map.mp hmem
            apply hnew b hb
            rw [heq]
            exact List.mem_cons_self
          · intro b hb
            cases List.mem_cons.mp hb with
            | inl heq => rw [heq]; exact hseen
            | inr hmem => exact fun hs => hnew b hmem (List.mem_cons_of_mem _ hs)
        · intro h
          obtain ⟨hvalid, ⟨hnot, hnodup⟩, hnew⟩ := h
          refine ⟨fun b hb => hvalid b (List.mem_cons_of_mem _ hb), hnodup, ?_⟩
          intro b hb hmem
          cases List.mem_cons.mp hmem with
          | inl heq => exact hnot (heq ▸ List.mem_map_of_mem hb)
          | inr hs => exact hnew b (List.mem_cons_of_mem _ hb) hs

theorem validateResourcePublicationRequest_ok {publicationId : String}
    {resources : List RegistryResourcePublish} :
    validateResourcePublicationRequest publicationId resources = .ok () ↔
      Str.isBlank publicationId = false ∧ resources ≠ [] ∧
        (∀ resource ∈ resources, Str.isBlank resource.kind = false ∧
          Str.isBlank resource.id = false) ∧
        (resources.map fun resource => (resource.kind, resource.id)).Nodup := by
  unfold validateResourcePublicationRequest
  by_cases hblank : Str.isBlank publicationId = true
  · simp [hblank]
  · by_cases hnil : resources = []
    · simp [hblank, hnil]
    · have hempty : resources.isEmpty = false := by simpa using hnil
      rw [if_neg hblank, if_neg (by simp [hempty]), rejectRepeated_ok]
      have hfalse : Str.isBlank publicationId = false := by simpa using hblank
      have hvalid : ∀ resource : RegistryResourcePublish,
          (if Str.isBlank resource.kind ∨ Str.isBlank resource.id then
            .error (.invalidRequest "publication resource kind and id cannot be empty")
          else .ok () : Except VersionedRegistryError Unit) = .ok () ↔
            Str.isBlank resource.kind = false ∧ Str.isBlank resource.id = false := by
        intro resource
        cases Str.isBlank resource.kind <;> cases Str.isBlank resource.id <;> simp
      simp only [hvalid, hfalse, ne_eq, hnil, not_false_eq_true, true_and, List.not_mem_nil,
        implies_true, and_true]

theorem validatePublicationRequest_ok {publicationId : String} {entries : List VersionRef}
    (h : validatePublicationRequest publicationId entries = .ok ()) :
    entries ≠ [] ∧ (entries.map fun entry => (entry.kind, entry.id)).Nodup := by
  unfold validatePublicationRequest at h
  split at h
  · cases h
  · split at h
    · cases h
    · rename_i hempty
      refine ⟨?_, (rejectRepeated_ok.mp h).2.1⟩
      intro hnil
      rw [hnil] at hempty
      exact hempty rfl

/-- The hashes of the resources were computed. -/
theorem prepare_ok {resources : List RegistryResourcePublish}
    {all : List (RegistryResourcePublish × String × List UInt8)}
    (h : prepare nonFinite digest resources = .ok all) :
    all.map Prod.fst = resources ∧ ∀ prepared ∈ all, IsPrepared nonFinite digest prepared := by
  induction resources generalizing all with
  | nil =>
    cases h
    simp
  | cons resource resources ih =>
    unfold prepare at h
    cases hhash : contentHashOf nonFinite digest resource.valueSchemaVersion resource.value with
    | error error =>
      rw [hhash] at h
      cases h
    | ok hash =>
      rw [hhash] at h
      cases hrest : prepare nonFinite digest resources with
      | error error =>
        rw [hrest] at h
        cases h
      | ok rest =>
        rw [hrest] at h
        cases h
        obtain ⟨hfst, hprepared⟩ := ih hrest
        refine ⟨by rw [List.map_cons, hfst], ?_⟩
        intro prepared hmem
        cases List.mem_cons.mp hmem with
        | inl heq =>
          rw [heq]
          exact hhash
        | inr hmem => exact hprepared prepared hmem

/-! ## Calls -/

/-- Publishing resources fails and changes nothing, or publishes all of them. -/
theorem publishResources_cases (nonFinite : String → Option String) (digest : List UInt8 → String)
    (scopeId publicationId : String) (resources : List RegistryResourcePublish)
    (revisions : List ConfigRevisionRef) (createdBy : Option String) (metadata : Value)
    (now : UInt64) (w : InMemoryVersionedRegistryStore) :
    (∃ error, publishResourcesAndCreatePublication nonFinite digest scopeId publicationId
        resources revisions createdBy metadata now w = (.error error, w)) ∨
      ∃ all, validateResourcePublicationRequest publicationId resources = .ok () ∧
        prepare nonFinite digest resources = .ok all ∧
        w.hasPublication scopeId publicationId = false ∧
        (∀ prepared ∈ all, w.isArchived (keyOf scopeId prepared) = false) ∧
        publishResourcesAndCreatePublication nonFinite digest scopeId publicationId resources
            revisions createdBy metadata now w =
          (.ok ((publishAll scopeId now all w).2.pushPublication scopeId publicationId
              (publishAll scopeId now all w).1 revisions createdBy metadata now).1,
            ((publishAll scopeId now all w).2.pushPublication scopeId publicationId
              (publishAll scopeId now all w).1 revisions createdBy metadata now).2) := by
  unfold publishResourcesAndCreatePublication
  cases hvalid : validateResourcePublicationRequest publicationId resources with
  | error error => exact .inl ⟨error, rfl⟩
  | ok u =>
    dsimp only
    cases hprepare : prepare nonFinite digest resources with
    | error error => exact .inl ⟨error, rfl⟩
    | ok all =>
      dsimp only
      cases hhas : w.hasPublication scopeId publicationId with
      | true => exact .inl ⟨_, rfl⟩
      | false =>
        rw [if_neg (by simp)]
        cases hfind : all.find? fun p => w.isArchived (scopeId, p.1.kind, p.1.id) with
        | some p => exact .inl ⟨_, rfl⟩
        | none =>
          refine .inr ⟨all, rfl, rfl, rfl, ?_, rfl⟩
          intro prepared hprepared
          have hnot := List.find?_eq_none.mp hfind prepared hprepared
          rw [← Bool.not_eq_true]
          exact hnot

/-- The entries name the resources. -/
theorem identities_published {w w' : InMemoryVersionedRegistryStore} {scopeId : String}
    {all : List (RegistryResourcePublish × String × List UInt8)} {entries : List VersionRef}
    (h : List.Forall₂ (PublishedAs w w' scopeId) all entries) :
    entries.map (fun entry => (entry.kind, entry.id)) =
      all.map fun prepared => (prepared.1.kind, prepared.1.id) := by
  induction h with
  | nil => rfl
  | cons hentry _ ih => rw [List.map_cons, List.map_cons, ih, hentry.kind, hentry.id]

theorem Sound.publishResources {w : InMemoryVersionedRegistryStore}
    (h : w.Sound nonFinite digest) (scopeId publicationId : String)
    (resources : List RegistryResourcePublish) (revisions : List ConfigRevisionRef)
    (createdBy : Option String) (metadata : Value) (now : UInt64) :
    (publishResourcesAndCreatePublication nonFinite digest scopeId publicationId resources
      revisions createdBy metadata now w).2.Sound nonFinite digest := by
  cases publishResources_cases nonFinite digest scopeId publicationId resources revisions
    createdBy metadata now w with
  | inl hfailed =>
    obtain ⟨error, heq⟩ := hfailed
    rw [heq]
    exact h
  | inr hok =>
    obtain ⟨all, hvalid, hprepare, -, -, heq⟩ := hok
    rw [heq]
    obtain ⟨hfst, hprepared⟩ := prepare_ok hprepare
    obtain ⟨-, hne, -, hnodup⟩ := validateResourcePublicationRequest_ok.mp hvalid
    have hkeys : (all.map (keyOf scopeId)).Nodup := by
      rw [← hfst, List.map_map] at hnodup
      apply List.Nodup.of_map Prod.snd
      rw [List.map_map]
      exact hnodup
    obtain ⟨hsound, -, hentries, -⟩ := h.publishAll scopeId now hprepared hkeys rfl
    apply hsound.pushPublication _ _ rfl
    · intro hnil
      rw [hnil] at hentries
      cases hentries
      exact hne hfst.symm
    · rw [identities_published hentries]
      rw [← hfst, List.map_map] at hnodup
      exact hnodup

theorem Sound.publishResource {w : InMemoryVersionedRegistryStore}
    (h : w.Sound nonFinite digest) (scopeId kind id : String) (value : JsonValue)
    (valueSchemaVersion : UInt32) (metadata : Value) (now : UInt64) :
    (publishResource nonFinite digest scopeId kind id value valueSchemaVersion metadata now
      w).2.Sound nonFinite digest := by
  unfold InMemoryVersionedRegistryStore.publishResource
  cases hhash : contentHashOf nonFinite digest valueSchemaVersion value with
  | error error => exact h
  | ok hash =>
    obtain ⟨contentHash, canonicalJsonBytes⟩ := hash
    dsimp only
    split
    · exact h
    · split
      · exact h.pushRecord rfl hhash now
      · split
        · exact h
        · exact h.pushRecord rfl hhash now

/-- Writing a resource state with the same current version. -/
theorem Sound.insertState {w : InMemoryVersionedRegistryStore} (h : w.Sound nonFinite digest)
    {key : ResourceKey} {before after : VersionedResourceState}
    (hget : w.resources.get? key = some before)
    (hsame : after.currentVersion = before.currentVersion) :
    Sound nonFinite digest { w with resources := w.resources.insert key after } := by
  refine ⟨h.hashed, h.named, h.positive, h.ascending, ?_, h.snapshots, h.distinct, h.purges,
    h.rollbacks⟩
  intro key'
  show ((w.resources.insert key after).get? key').bind _ =
    (w.recordsOf key').getLast?.map VersionedRecord.version
  rw [← h.currentLast key', AssocMap.get?_insert]
  split
  · rename_i heq
    rw [heq, hget, Option.bind_some, Option.bind_some, hsame]
  · rfl

theorem Sound.archiveResource {w : InMemoryVersionedRegistryStore}
    (h : w.Sound nonFinite digest) (scopeId kind id : String) (now : UInt64) :
    (archiveResource scopeId kind id now w).2.Sound nonFinite digest := by
  unfold InMemoryVersionedRegistryStore.archiveResource
  cases hget : w.resources.get? (scopeId, kind, id) with
  | none => exact h
  | some state =>
    dsimp only
    split
    · exact h.insertState hget rfl
    · exact h

theorem Sound.unarchiveResource {w : InMemoryVersionedRegistryStore}
    (h : w.Sound nonFinite digest) (scopeId kind id : String) (now : UInt64) :
    (unarchiveResource scopeId kind id now w).2.Sound nonFinite digest := by
  unfold InMemoryVersionedRegistryStore.unarchiveResource
  cases hget : w.resources.get? (scopeId, kind, id) with
  | none => exact h
  | some state =>
    dsimp only
    split
    · exact h.insertState hget rfl
    · exact h

theorem Sound.createPublication {w : InMemoryVersionedRegistryStore}
    (h : w.Sound nonFinite digest) (scopeId publicationId : String) (entries : List VersionRef)
    (revisions : List ConfigRevisionRef) (createdBy : Option String) (metadata : Value)
    (now : UInt64) :
    (createPublication scopeId publicationId entries revisions createdBy metadata now
      w).2.Sound nonFinite digest := by
  unfold InMemoryVersionedRegistryStore.createPublication
  cases hvalid : validatePublicationRequest publicationId entries with
  | error error => exact h
  | ok u =>
    dsimp only
    obtain ⟨hne, hnodup⟩ := validatePublicationRequest_ok hvalid
    split
    · exact h
    · split
      · exact h
      · exact h.pushPublication hne hnodup rfl

theorem Sound.readRollback {w : InMemoryVersionedRegistryStore}
    (h : w.Sound nonFinite digest) (scopeId kind id : String) (toVersion : Nat)
    (metadata : Value) :
    (readRollback nonFinite digest scopeId kind id toVersion metadata w).2.Sound
      nonFinite digest := by
  unfold InMemoryVersionedRegistryStore.readRollback
  split
  · exact h
  · rename_i prior hprior
    split
    · exact h
    · split
      · exact h
      · rename_i contentHash canonicalJsonBytes hhash
        refine ⟨h.hashed, h.named, h.positive, h.ascending, h.currentLast, h.snapshots,
          h.distinct, ?_, ?_⟩
        · intro scope plan hplan
          cases List.mem_append.mp hplan with
          | inl hold => exact h.purges scope plan hold
          | inr hnew => cases List.mem_singleton.mp hnew
        · intro scope k i p c b m hrollback
          cases List.mem_append.mp hrollback with
          | inl hold => exact h.rollbacks scope k i p c b m hold
          | inr hnew =>
            cases List.mem_singleton.mp hnew
            exact hhash

/-! ## The purge -/

theorem eligibleRecords_spec {policy : RegistryRetentionPolicy} {nowMs : UInt64}
    {isProtected : VersionedRecord → Bool} {currentVersion : Option Nat} {kept : Nat}
    {records : List VersionedRecord} {record : VersionedRecord}
    (h : record ∈ eligibleRecords policy nowMs isProtected currentVersion kept records) :
    record ∈ records ∧ currentVersion ≠ some record.version ∧ isProtected record = false := by
  induction records generalizing kept with
  | nil => cases h
  | cons r records ih =>
    unfold eligibleRecords at h
    split at h
    · obtain ⟨hmem, hrest⟩ := ih h
      exact ⟨List.mem_cons_of_mem _ hmem, hrest⟩
    · rename_i hkeep
      split at h
      · obtain ⟨hmem, hrest⟩ := ih h
        exact ⟨List.mem_cons_of_mem _ hmem, hrest⟩
      · cases List.mem_cons.mp h with
        | inl heq =>
          rw [heq]
          refine ⟨List.mem_cons_self, ?_, ?_⟩
          · exact fun hcurrent => hkeep (.inl hcurrent.symm)
          · rw [← Bool.not_eq_true]
            exact fun hprotected => hkeep (.inr (.inl hprotected))
        | inr hmem =>
          obtain ⟨hmem, hrest⟩ := ih hmem
          exact ⟨List.mem_cons_of_mem _ hmem, hrest⟩

/-- A planned version is that of a record that is not the last, and not protected. -/
theorem Sound.purgePlan_spec {w : InMemoryVersionedRegistryStore} (h : w.Sound nonFinite digest)
    {scopeId : String} {nowMs : UInt64} {policy : RegistryRetentionPolicy} {version : VersionRef}
    (hplan : version ∈ w.purgePlan scopeId nowMs policy) : ∃ last,
      (w.recordsOf (scopeId, version.kind, version.id)).getLast? = some last ∧
        version.version < last.version := by
  unfold purgePlan at hplan
  rw [List.mem_insertionSort, List.mem_flatMap] at hplan
  obtain ⟨resource, hresource, hversion⟩ := hplan
  obtain ⟨⟨scope, kind, id⟩, records⟩ := resource
  split at hversion
  · cases hversion
  · rename_i hscope
    have hscope' : scope = scopeId := Decidable.not_not.mp hscope
    obtain ⟨record, hrecord, heq⟩ := List.mem_map.mp hversion
    obtain ⟨hmem, hcurrent, -⟩ := eligibleRecords_spec hrecord
    rw [List.mem_insertionSort] at hmem
    have hrecords : w.recordsOf (scope, kind, id) = records := by
      unfold recordsOf
      rw [AssocMap.get?_eq_some.mpr hresource]
      rfl
    dsimp only at hmem hcurrent
    rw [h.currentLast, hrecords] at hcurrent
    rw [← heq, ← hscope']
    dsimp only
    rw [hrecords]
    cases hlast : records.getLast? with
    | none =>
      rw [List.getLast?_eq_none_iff] at hlast
      rw [hlast] at hmem
      cases hmem
    | some last =>
      refine ⟨last, rfl, ?_⟩
      rw [hlast] at hcurrent
      obtain ⟨before, hsplit⟩ := List.getLast?_eq_some_iff.mp hlast
      have hascending := h.ascending (scope, kind, id)
      rw [hrecords, hsplit, List.pairwise_append] at hascending
      rw [hsplit] at hmem
      cases List.mem_append.mp hmem with
      | inl hbefore => exact hascending.2.2 record hbefore last (List.mem_singleton_self last)
      | inr hsame =>
        rw [List.mem_singleton.mp hsame] at hcurrent
        exact absurd rfl hcurrent

theorem Sound.planPurge {w : InMemoryVersionedRegistryStore} (h : w.Sound nonFinite digest)
    (scopeId : String) (nowMs : UInt64) (policy : RegistryRetentionPolicy) (dryRun : Bool) :
    (planPurge scopeId nowMs policy dryRun w).2.Sound nonFinite digest := by
  unfold InMemoryVersionedRegistryStore.planPurge
  dsimp only
  split
  · refine ⟨h.hashed, h.named, h.positive, h.ascending, h.currentLast, h.snapshots, h.distinct,
      ?_, ?_⟩
    · intro scope plan hplan version hversion
      cases List.mem_append.mp hplan with
      | inl hold => exact h.purges scope plan hold version hversion
      | inr hnew =>
        cases List.mem_singleton.mp hnew
        exact h.purgePlan_spec hversion
    · intro scope kind id prior contentHash bytes metadata hrollback
      cases List.mem_append.mp hrollback with
      | inl hold => exact h.rollbacks scope kind id prior contentHash bytes metadata hold
      | inr hnew => cases List.mem_singleton.mp hnew
  · exact h

/-- Deleting a version before the last one. -/
theorem Sound.deleteVersion {w : InMemoryVersionedRegistryStore} (h : w.Sound nonFinite digest)
    {key : ResourceKey} {version : Nat} {last : VersionedRecord}
    (hlast : (w.recordsOf key).getLast? = some last) (hlt : version < last.version) :
    Sound nonFinite digest { w with
      versions := w.versions.modify key fun records =>
        records.filter fun record => record.version != version } ∧
      ∀ key', (({ w with
        versions := w.versions.modify key fun records =>
          records.filter fun record => record.version != version } :
            InMemoryVersionedRegistryStore).recordsOf key').getLast? =
          (w.recordsOf key').getLast? := by
  generalize hw' : ({ w with
    versions := w.versions.modify key fun records =>
      records.filter fun record => record.version != version } :
        InMemoryVersionedRegistryStore) = w'
  have hrecords : ∀ key', w'.recordsOf key' =
      if key' = key then (w.recordsOf key).filter fun record => record.version != version
      else w.recordsOf key' := by
    intro key'
    rw [← hw']
    unfold recordsOf
    dsimp only
    by_cases hkey : key' = key
    · rw [if_pos hkey, hkey, AssocMap.get?_modify_self]
      cases w.versions.get? key <;> rfl
    · rw [if_neg hkey, AssocMap.get?_modify_of_ne _ _ hkey]
  have hsub : ∀ key', (w'.recordsOf key').Sublist (w.recordsOf key') := by
    intro key'
    rw [hrecords]
    split
    · rename_i hkey
      rw [hkey]
      exact List.filter_sublist
    · exact List.Sublist.refl _
  have hkept : ∀ key', (w'.recordsOf key').getLast? = (w.recordsOf key').getLast? := by
    intro key'
    rw [hrecords]
    split
    · rename_i hkey
      obtain ⟨before, hsplit⟩ := List.getLast?_eq_some_iff.mp hlast
      have hne : last.version ≠ version := by omega
      rw [hkey, hsplit, List.filter_append]
      simp [hne]
    · rfl
  have hsame : w'.resources = w.resources ∧ w'.publications = w.publications ∧
      w'.pending = w.pending := by
    rw [← hw']
    exact ⟨rfl, rfl, rfl⟩
  refine ⟨?_, hkept⟩
  constructor
  case hashed => exact fun key' record hrecord => h.hashed key' record ((hsub key').subset hrecord)
  case named => exact fun key' record hrecord => h.named key' record ((hsub key').subset hrecord)
  case positive =>
    exact fun key' record hrecord => h.positive key' record ((hsub key').subset hrecord)
  case ascending => exact fun key' => (h.ascending key').sublist (hsub key')
  case currentLast =>
    intro key'
    rw [hsame.1, hkept]
    exact h.currentLast key'
  case snapshots =>
    intro scope
    unfold publicationsOf
    rw [hsame.2.1]
    exact h.snapshots scope
  case distinct =>
    intro scope
    unfold publicationsOf
    rw [hsame.2.1]
    exact h.distinct scope
  case purges =>
    intro scope plan hplan v hv
    rw [hsame.2.2] at hplan
    rw [hkept]
    exact h.purges scope plan hplan v hv
  case rollbacks =>
    intro scope kind id prior contentHash bytes metadata hrollback
    rw [hsame.2.2] at hrollback
    exact h.rollbacks scope kind id prior contentHash bytes metadata hrollback

theorem Sound.deletePlanned {w : InMemoryVersionedRegistryStore} (h : w.Sound nonFinite digest)
    {scopeId : String} {plan : List VersionRef}
    (hplan : ∀ version ∈ plan, ∃ last,
      (w.recordsOf (scopeId, version.kind, version.id)).getLast? = some last ∧
        version.version < last.version) :
    (deletePlanned scopeId plan w).Sound nonFinite digest := by
  induction plan generalizing w with
  | nil => exact h
  | cons version plan ih =>
    obtain ⟨last, hlast, hlt⟩ := hplan version List.mem_cons_self
    obtain ⟨hsound, hkept⟩ := h.deleteVersion hlast hlt
    apply ih hsound
    intro v hv
    rw [hkept]
    exact hplan v (List.mem_cons_of_mem _ hv)

/-- A pending write that is performed is no longer pending. -/
theorem Sound.eraseIdx {w : InMemoryVersionedRegistryStore} (h : w.Sound nonFinite digest)
    (i : Nat) : Sound nonFinite digest { w with pending := w.pending.eraseIdx i } where
  hashed := h.hashed
  named := h.named
  positive := h.positive
  ascending := h.ascending
  currentLast := h.currentLast
  snapshots := h.snapshots
  distinct := h.distinct
  purges := fun scope plan hplan => h.purges scope plan (List.mem_of_mem_eraseIdx hplan)
  rollbacks := fun scope kind id prior contentHash bytes metadata hrollback =>
    h.rollbacks scope kind id prior contentHash bytes metadata (List.mem_of_mem_eraseIdx hrollback)

/-- Every call keeps the histories sound. -/
theorem Sound.call {w : InMemoryVersionedRegistryStore} (h : w.Sound nonFinite digest)
    (op : VersionedRegistryOp) : (call nonFinite digest w op).Sound nonFinite digest := by
  cases op with
  | publishResource scopeId kind id value valueSchemaVersion metadata now =>
    exact h.publishResource scopeId kind id value valueSchemaVersion metadata now
  | rollbackResource scopeId kind id toVersion metadata =>
    exact h.readRollback scopeId kind id toVersion metadata
  | archiveResource scopeId kind id now => exact h.archiveResource scopeId kind id now
  | unarchiveResource scopeId kind id now => exact h.unarchiveResource scopeId kind id now
  | publishResourcesAndCreatePublication scopeId publicationId resources revisions createdBy
      metadata now =>
    exact h.publishResources scopeId publicationId resources revisions createdBy metadata now
  | createPublication scopeId publicationId entries revisions createdBy metadata now =>
    exact h.createPublication scopeId publicationId entries revisions createdBy metadata now
  | purgeEligibleVersions scopeId nowMs policy dryRun =>
    exact h.planPurge scopeId nowMs policy dryRun
  | write i now =>
    unfold InMemoryVersionedRegistryStore.call
    dsimp only
    cases hpending : w.pending[i]? with
    | none => exact h
    | some pending =>
      have hmem := List.mem_of_getElem? hpending
      dsimp only
      cases pending with
      | rollback scopeId kind id prior contentHash canonicalJsonBytes metadata =>
        have hhash := h.rollbacks _ _ _ _ _ _ _ hmem
        unfold performWrite
        dsimp only
        split
        · exact h.eraseIdx i
        · exact (h.eraseIdx i).pushRecord rfl hhash now
      | purge scopeId plan => exact (h.eraseIdx i).deletePlanned (h.purges scopeId plan hmem)

theorem Sound.run {w : InMemoryVersionedRegistryStore} (h : w.Sound nonFinite digest)
    (ops : List VersionedRegistryOp) :
    ((machine nonFinite digest).run w ops).Sound nonFinite digest := by
  induction ops generalizing w with
  | nil => exact h
  | cons op ops ih => exact ih (h.call op)

/-- The histories of every reachable store are sound. -/
theorem sound_run (nonFinite : String → Option String) (digest : List UInt8 → String)
    (ops : List VersionedRegistryOp) :
    ((machine nonFinite digest).run new ops).Sound nonFinite digest :=
  sound_new.run ops

end InMemoryVersionedRegistryStore

end Remo
