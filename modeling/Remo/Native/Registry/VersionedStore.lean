import Remo.ForStd.AssocMap
import Remo.ForStd.Machine
import Remo.ForStd.Method
import Remo.Native.Registry.Canonical

/-!
# The in-memory versioned registry

Published versions of resources, and publications that name one version of each of their
resources. A call holds the lock of the store once, but for those that read first and write under
a lock of their own: these leave a pending write.
-/

namespace Remo

/-- A concrete published version reference. -/
structure VersionRef where
  kind : String
  id : String
  version : Nat
deriving Repr, DecidableEq

/-- One immutable published version. -/
structure VersionedRecord where
  kind : String
  id : String
  version : Nat
  contentHash : String
  valueSchemaVersion : UInt32
  value : JsonValue
  canonicalJsonBytes : List UInt8
  createdAtMs : UInt64
  metadata : Value

/-- Result of publishing a resource version. -/
inductive PublishOutcome where
  | created (record : VersionedRecord)
  | noop (record : VersionedRecord)

/-- One resource value to publish inside an atomic registry publication. -/
structure RegistryResourcePublish where
  kind : String
  id : String
  value : JsonValue
  valueSchemaVersion : UInt32
  metadata : Value

/-- Mutable state for one published resource identity. -/
structure VersionedResourceState where
  scopeId : String
  kind : String
  id : String
  currentVersion : Option Nat
  archivedAtMs : Option UInt64
  createdAtMs : UInt64
  updatedAtMs : UInt64
  metadata : Value

structure ConfigRevisionRef where
  configNamespace : String
  id : String
  revision : UInt64
deriving Repr, DecidableEq

/-- Atomic published graph snapshot. -/
structure RegistryPublication where
  publicationId : String
  scopeId : String
  snapshotVersion : Nat
  entries : List VersionRef
  sourceConfigRevisions : List ConfigRevisionRef
  createdBy : Option String
  createdAtMs : UInt64
  metadata : Value

/-- One published version pinned by a run. -/
structure PinnedRegistryEntry where
  kind : String
  id : String
  version : Nat
  contentHash : String
deriving Repr, DecidableEq

structure PinnedRegistryManifest where
  publicationId : Option String
  registrySnapshotVersion : Option Nat
  entries : List PinnedRegistryEntry
deriving Repr, DecidableEq

inductive VersionedRegistryError where
  | notFound (message : String)
  | archived (kind id : String)
  | alreadyExists (message : String)
  | invalidRequest (message : String)
  | serialization (message : String)
  | backend (message : String)
deriving Repr, DecidableEq

/-- `From<PinnedRegistryHashError>` -/
def VersionedRegistryError.ofHash : PinnedRegistryHashError → VersionedRegistryError
  | .serialization message => .serialization message
  | .invalidRequest message => .invalidRequest message

structure RegistryRetentionPolicy where
  keepLastVersions : Option UInt64
  keepYoungerThanMs : Option UInt64
  protectedVersions : List VersionRef
deriving Repr, DecidableEq

/-- A resource in a scope: the scope, the kind and the id. -/
abbrev ResourceKey := String × String × String

/-- What a call has read and still has to write. -/
inductive PendingWrite where
  | rollback (scopeId kind id : String) (prior : VersionedRecord) (contentHash : String)
      (canonicalJsonBytes : List UInt8) (metadata : Value)
  | purge (scopeId : String) (plan : List VersionRef)

/-- The store. The publications of a scope are in ascending order of their snapshot versions. -/
structure InMemoryVersionedRegistryStore where
  resources : AssocMap ResourceKey VersionedResourceState
  versions : AssocMap ResourceKey (List VersionedRecord)
  publications : AssocMap String (List RegistryPublication)
  pending : List PendingWrite

def resourceName (kind id : String) : String := s!"{kind}/{id}"

def versionName (kind id : String) (version : Nat) : String := s!"{kind}/{id}@{version}"

/-- Publication entries are sorted by kind and then by id. -/
def VersionRef.Before (a b : VersionRef) : Prop := a.kind < b.kind ∨ a.kind = b.kind ∧ a.id ≤ b.id

instance : DecidableRel VersionRef.Before := fun a b =>
  inferInstanceAs (Decidable (a.kind < b.kind ∨ a.kind = b.kind ∧ a.id ≤ b.id))

def sortPublicationEntries (entries : List VersionRef) : List VersionRef :=
  entries.insertionSort VersionRef.Before

def valueKindName : Value → String
  | .null => "null"
  | .bool _ => "bool"
  | .number _ => "number"
  | .string _ => "string"
  | .array _ => "array"
  | .object _ => "object"

/-- Put a value under a new key of an object. The entries of a map are sorted. -/
def insertSorted (name : String) (v : Value) (entries : List (String × Value)) :
    List (String × Value) :=
  entries.takeWhile (fun entry => decide (entry.1 < name)) ++
    (name, v) :: entries.dropWhile fun entry => decide (entry.1 < name)

/-- Rollback metadata always says what it restores. -/
def buildRollbackMetadata (metadata : Value) (toVersion : Nat) :
    Except VersionedRegistryError Value :=
  let inject (entries : List (String × Value)) : Except VersionedRegistryError Value :=
    match entries.lookup "restored_from" with
    | none => .ok (.object (insertSorted "restored_from" (.number (toString toVersion)) entries))
    | some (.number text) =>
      if text = toString toVersion then .ok (.object entries)
      else .error (.invalidRequest
        s!"rollback metadata.restored_from must be {toVersion}, got {text}")
    | some existing => .error (.invalidRequest
        s!"rollback metadata.restored_from must be {toVersion}, got {existing.print}")
  match metadata with
  | .null => inject []
  | .object entries => inject entries
  | other => .error (.invalidRequest
      s!"rollback metadata must be a JSON object or null, got {valueKindName other}")

namespace InMemoryVersionedRegistryStore

def new : InMemoryVersionedRegistryStore :=
  ⟨AssocMap.empty, AssocMap.empty, AssocMap.empty, []⟩

/-! ## Reads -/

def recordsOf (self : InMemoryVersionedRegistryStore) (key : ResourceKey) :
    List VersionedRecord :=
  (self.versions.get? key).getD []

def publicationsOf (self : InMemoryVersionedRegistryStore) (scopeId : String) :
    List RegistryPublication :=
  (self.publications.get? scopeId).getD []

def currentRecord (self : InMemoryVersionedRegistryStore) (key : ResourceKey) :
    Option VersionedRecord :=
  (self.resources.get? key).bind fun state => state.currentVersion.bind fun version =>
    (self.recordsOf key).find? fun record => record.version == version

def current (self : InMemoryVersionedRegistryStore) (scopeId kind id : String) :
    Option VersionedRecord :=
  self.currentRecord (scopeId, kind, id)

def get (self : InMemoryVersionedRegistryStore) (scopeId kind id : String) (version : Nat) :
    Option VersionedRecord :=
  (self.recordsOf (scopeId, kind, id)).find? fun record => record.version == version

def latestPublication (self : InMemoryVersionedRegistryStore) (scopeId : String) :
    Option RegistryPublication :=
  (self.publicationsOf scopeId).getLast?

def getPublication (self : InMemoryVersionedRegistryStore) (scopeId : String)
    (snapshotVersion : Nat) : Option RegistryPublication :=
  (self.publicationsOf scopeId).find? fun publication =>
    publication.snapshotVersion == snapshotVersion

/-- The resource has been archived. -/
def isArchived (self : InMemoryVersionedRegistryStore) (key : ResourceKey) : Bool :=
  ((self.resources.get? key).bind VersionedResourceState.archivedAtMs).isSome

/-! ## Publishing -/

/-- The version after the last of the resource. -/
def nextVersion (self : InMemoryVersionedRegistryStore) (key : ResourceKey) : Nat :=
  match (self.recordsOf key).getLast? with
  | none => 1
  | some record => record.version + 1

def upsertResourceState (scopeId kind id : String) (version : Nat) (now : UInt64)
    (metadata : Value) (self : InMemoryVersionedRegistryStore) : InMemoryVersionedRegistryStore :=
  let state : VersionedResourceState :=
    match self.resources.get? (scopeId, kind, id) with
    | some state => { state with currentVersion := some version, updatedAtMs := now, metadata }
    | none =>
      { scopeId, kind, id, currentVersion := some version, archivedAtMs := none
        createdAtMs := now, updatedAtMs := now, metadata }
  { self with resources := self.resources.insert (scopeId, kind, id) state }

/-- Push the record and make it the current one. -/
def pushRecord (scopeId : String) (record : VersionedRecord) (now : UInt64)
    (self : InMemoryVersionedRegistryStore) : InMemoryVersionedRegistryStore :=
  let key := (scopeId, record.kind, record.id)
  upsertResourceState scopeId record.kind record.id record.version now record.metadata
    { self with versions := self.versions.insert key (self.recordsOf key ++ [record]) }

section Hash

-- The display of a number as a float, when it is not finite.
variable (nonFinite : String → Option String)

-- The hexadecimal digits of a SHA-256 digest.
variable (digest : List UInt8 → String)

def contentHashOf (valueSchemaVersion : UInt32) (value : JsonValue) :
    Except VersionedRegistryError (String × List UInt8) :=
  match registryContentHash nonFinite digest valueSchemaVersion value.value with
  | .error error => .error (.ofHash error)
  | .ok hash => .ok hash

def publishResource (scopeId kind id : String) (value : JsonValue) (valueSchemaVersion : UInt32)
    (metadata : Value) (now : UInt64) :
    Method VersionedRegistryError InMemoryVersionedRegistryStore PublishOutcome := fun self =>
  match contentHashOf nonFinite digest valueSchemaVersion value with
  | .error error => (.error error, self)
  | .ok (contentHash, canonicalJsonBytes) =>
    if self.isArchived (scopeId, kind, id) then (.error (.archived kind id), self)
    else
      let record : VersionedRecord :=
        { kind, id, version := self.nextVersion (scopeId, kind, id), contentHash
          valueSchemaVersion, value, canonicalJsonBytes, createdAtMs := now, metadata }
      match self.currentRecord (scopeId, kind, id) with
      | none => (.ok (.created record), self.pushRecord scopeId record now)
      | some current =>
        if current.contentHash = contentHash then (.ok (.noop current), self)
        else (.ok (.created record), self.pushRecord scopeId record now)

/-- The part of `rollback_resource` that reads the prior version. -/
def readRollback (scopeId kind id : String) (toVersion : Nat) (metadata : Value) :
    Method VersionedRegistryError InMemoryVersionedRegistryStore Unit := fun self =>
  match self.get scopeId kind id toVersion with
  | none => (.error (.notFound (versionName kind id toVersion)), self)
  | some prior =>
    match buildRollbackMetadata metadata toVersion with
    | .error error => (.error error, self)
    | .ok metadata =>
      match contentHashOf nonFinite digest prior.valueSchemaVersion prior.value with
      | .error error => (.error error, self)
      | .ok (contentHash, canonicalJsonBytes) =>
        (.ok (), { self with pending := self.pending ++
          [.rollback scopeId kind id prior contentHash canonicalJsonBytes metadata] })

/-! ## Publications -/

/-- The checks of a loop that rejects the second entry of a resource. -/
def rejectRepeated {α : Type} (identity : α → String × String) (what : String)
    (reject : α → Except VersionedRegistryError Unit) (seen : List (String × String)) :
    List α → Except VersionedRegistryError Unit
  | [] => .ok ()
  | a :: as =>
    match reject a with
    | .error error => .error error
    | .ok () =>
      if identity a ∈ seen then
        .error (.invalidRequest
          s!"duplicate publication {what} {resourceName (identity a).1 (identity a).2}")
      else rejectRepeated identity what reject (identity a :: seen) as

def validatePublicationRequest (publicationId : String) (entries : List VersionRef) :
    Except VersionedRegistryError Unit :=
  if Str.isBlank publicationId then .error (.invalidRequest "publication_id cannot be empty")
  else if entries.isEmpty then .error (.invalidRequest "publication entries cannot be empty")
  else
    rejectRepeated (fun entry => (entry.kind, entry.id)) "entry" (fun entry =>
      if entry.version = 0 then
        .error (.invalidRequest s!"{resourceName entry.kind entry.id} version cannot be 0")
      else .ok ()) [] entries

def validateResourcePublicationRequest (publicationId : String)
    (resources : List RegistryResourcePublish) : Except VersionedRegistryError Unit :=
  if Str.isBlank publicationId then .error (.invalidRequest "publication_id cannot be empty")
  else if resources.isEmpty then .error (.invalidRequest "publication resources cannot be empty")
  else
    rejectRepeated (fun resource => (resource.kind, resource.id)) "resource" (fun resource =>
      if Str.isBlank resource.kind ∨ Str.isBlank resource.id then
        .error (.invalidRequest "publication resource kind and id cannot be empty")
      else .ok ()) [] resources

def validatePublicationEntries (self : InMemoryVersionedRegistryStore) (scopeId : String) :
    List VersionRef → Except VersionedRegistryError Unit
  | [] => .ok ()
  | entry :: entries =>
    match self.resources.get? (scopeId, entry.kind, entry.id) with
    | none => .error (.notFound (resourceName entry.kind entry.id))
    | some state =>
      if state.archivedAtMs.isSome then .error (.archived entry.kind entry.id)
      else if (self.get scopeId entry.kind entry.id entry.version).isNone then
        .error (.notFound (versionName entry.kind entry.id entry.version))
      else self.validatePublicationEntries scopeId entries

/-- A publication of the scope has the id. -/
def hasPublication (self : InMemoryVersionedRegistryStore) (scopeId publicationId : String) :
    Bool :=
  (self.publicationsOf scopeId).any fun publication => publication.publicationId == publicationId

/-- Put a publication behind those of its scope. -/
def pushPublication (scopeId publicationId : String) (entries : List VersionRef)
    (sourceConfigRevisions : List ConfigRevisionRef) (createdBy : Option String)
    (metadata : Value) (now : UInt64) (self : InMemoryVersionedRegistryStore) :
    RegistryPublication × InMemoryVersionedRegistryStore :=
  let snapshotVersion :=
    match (self.publicationsOf scopeId).getLast? with
    | none => 1
    | some publication => publication.snapshotVersion + 1
  let publication : RegistryPublication :=
    { publicationId, scopeId, snapshotVersion, entries := sortPublicationEntries entries
      sourceConfigRevisions, createdBy, createdAtMs := now, metadata }
  (publication, { self with
    publications := self.publications.insert scopeId
      (self.publicationsOf scopeId ++ [publication]) })

def createPublication (scopeId publicationId : String) (entries : List VersionRef)
    (sourceConfigRevisions : List ConfigRevisionRef) (createdBy : Option String)
    (metadata : Value) (now : UInt64) :
    Method VersionedRegistryError InMemoryVersionedRegistryStore RegistryPublication := fun self =>
  match validatePublicationRequest publicationId entries with
  | .error error => (.error error, self)
  | .ok () =>
    if self.hasPublication scopeId publicationId then
      (.error (.alreadyExists s!"publication/{publicationId}"), self)
    else
      match self.validatePublicationEntries scopeId entries with
      | .error error => (.error error, self)
      | .ok () =>
        let (publication, self) := self.pushPublication scopeId publicationId entries
          sourceConfigRevisions createdBy metadata now
        (.ok publication, self)

/-- The resources with their content hashes. -/
def prepare : List RegistryResourcePublish →
    Except VersionedRegistryError (List (RegistryResourcePublish × String × List UInt8))
  | [] => .ok []
  | resource :: resources =>
    match contentHashOf nonFinite digest resource.valueSchemaVersion resource.value with
    | .error error => .error error
    | .ok (contentHash, canonicalJsonBytes) =>
      (prepare resources).map ((resource, contentHash, canonicalJsonBytes) :: ·)

end Hash

/-- Publish a prepared resource, unless its current record has the content. -/
def publishPrepared (scopeId : String) (now : UInt64)
    (prepared : RegistryResourcePublish × String × List UInt8)
    (self : InMemoryVersionedRegistryStore) : VersionedRecord × InMemoryVersionedRegistryStore :=
  let (resource, contentHash, canonicalJsonBytes) := prepared
  let key := (scopeId, resource.kind, resource.id)
  let record : VersionedRecord :=
    { kind := resource.kind, id := resource.id, version := self.nextVersion key, contentHash
      valueSchemaVersion := resource.valueSchemaVersion, value := resource.value
      canonicalJsonBytes, createdAtMs := now, metadata := resource.metadata }
  match self.currentRecord key with
  | none => (record, self.pushRecord scopeId record now)
  | some current =>
    if current.contentHash = contentHash then (current, self)
    else (record, self.pushRecord scopeId record now)

/-- Publish the resources one after the other. -/
def publishAll (scopeId : String) (now : UInt64) :
    List (RegistryResourcePublish × String × List UInt8) → InMemoryVersionedRegistryStore →
      List VersionRef × InMemoryVersionedRegistryStore
  | [], self => ([], self)
  | prepared :: rest, self =>
    let (record, self) := publishPrepared scopeId now prepared self
    let (entries, self) := publishAll scopeId now rest self
    (⟨record.kind, record.id, record.version⟩ :: entries, self)

section Hash

variable (nonFinite : String → Option String) (digest : List UInt8 → String)

def publishResourcesAndCreatePublication (scopeId publicationId : String)
    (resources : List RegistryResourcePublish) (sourceConfigRevisions : List ConfigRevisionRef)
    (createdBy : Option String) (metadata : Value) (now : UInt64) :
    Method VersionedRegistryError InMemoryVersionedRegistryStore RegistryPublication := fun self =>
  match validateResourcePublicationRequest publicationId resources with
  | .error error => (.error error, self)
  | .ok () =>
    match prepare nonFinite digest resources with
    | .error error => (.error error, self)
    | .ok prepared =>
      if self.hasPublication scopeId publicationId then
        (.error (.alreadyExists s!"publication/{publicationId}"), self)
      else
        match prepared.find? fun p => self.isArchived (scopeId, p.1.kind, p.1.id) with
        | some p => (.error (.archived p.1.kind p.1.id), self)
        | none =>
          let (entries, self) := publishAll scopeId now prepared self
          let (publication, self) := self.pushPublication scopeId publicationId entries
            sourceConfigRevisions createdBy metadata now
          (.ok publication, self)

/-- A resource of a publication as it was, to be published again. -/
def rollbackSource (source : RegistryPublication) (entry : VersionRef) (record : VersionedRecord) :
    RegistryResourcePublish where
  kind := entry.kind
  id := entry.id
  value := record.value
  valueSchemaVersion := record.valueSchemaVersion
  metadata := .object [
    ("rollback_source_content_hash", .string record.contentHash),
    ("rollback_source_publication_id", .string source.publicationId),
    ("rollback_source_snapshot_version", .number (toString source.snapshotVersion)),
    ("rollback_source_version", .number (toString entry.version))]

def rollbackResources (self : InMemoryVersionedRegistryStore) (scopeId : String)
    (source : RegistryPublication) : List VersionRef →
      Except VersionedRegistryError (List RegistryResourcePublish)
  | [] => .ok []
  | entry :: entries =>
    match self.get scopeId entry.kind entry.id entry.version with
    | none => .error (.notFound (versionName entry.kind entry.id entry.version))
    | some record =>
      (self.rollbackResources scopeId source entries).map (rollbackSource source entry record :: ·)

def rollbackPublication (scopeId : String) (sourceSnapshotVersion : Nat) (publicationId : String)
    (createdBy : Option String) (metadata : Value) (now : UInt64) :
    Method VersionedRegistryError InMemoryVersionedRegistryStore RegistryPublication := fun self =>
  if Str.isBlank publicationId then
    (.error (.invalidRequest "publication_id cannot be empty"), self)
  else
    match self.getPublication scopeId sourceSnapshotVersion with
    | none => (.error (.notFound s!"publication/{scopeId}@{sourceSnapshotVersion}"), self)
    | some source =>
      match self.rollbackResources scopeId source source.entries with
      | .error error => (.error error, self)
      | .ok resources =>
        publishResourcesAndCreatePublication nonFinite digest scopeId publicationId resources
          source.sourceConfigRevisions createdBy metadata now self

end Hash

/-! ## Manifests -/

def pinnedEntries (self : InMemoryVersionedRegistryStore) (scopeId : String) :
    List VersionRef → Except VersionedRegistryError (List PinnedRegistryEntry)
  | [] => .ok []
  | entry :: entries =>
    match self.get scopeId entry.kind entry.id entry.version with
    | none => .error (.notFound (versionName entry.kind entry.id entry.version))
    | some record =>
      (self.pinnedEntries scopeId entries).map
        (⟨entry.kind, entry.id, entry.version, record.contentHash⟩ :: ·)

def pinnedManifestForPublication (self : InMemoryVersionedRegistryStore) (scopeId : String)
    (snapshotVersion : Nat) : Except VersionedRegistryError (Option PinnedRegistryManifest) :=
  match self.getPublication scopeId snapshotVersion with
  | none => .ok none
  | some publication =>
    (self.pinnedEntries scopeId publication.entries).map fun entries =>
      some ⟨some publication.publicationId, some publication.snapshotVersion, entries⟩

def latestPinnedManifest (self : InMemoryVersionedRegistryStore) (scopeId : String) :
    Except VersionedRegistryError (Option PinnedRegistryManifest) :=
  match self.latestPublication scopeId with
  | none => .ok none
  | some publication => self.pinnedManifestForPublication scopeId publication.snapshotVersion

/-! ## Archiving -/

def archiveResource (scopeId kind id : String) (now : UInt64) :
    Method VersionedRegistryError InMemoryVersionedRegistryStore Unit := fun self =>
  match self.resources.get? (scopeId, kind, id) with
  | none => (.error (.notFound (resourceName kind id)), self)
  | some state =>
    if state.archivedAtMs.isNone then
      let state := { state with archivedAtMs := some now, updatedAtMs := now }
      (.ok (), { self with resources := self.resources.insert (scopeId, kind, id) state })
    else (.ok (), self)

def unarchiveResource (scopeId kind id : String) (now : UInt64) :
    Method VersionedRegistryError InMemoryVersionedRegistryStore Unit := fun self =>
  match self.resources.get? (scopeId, kind, id) with
  | none => (.error (.notFound (resourceName kind id)), self)
  | some state =>
    if state.archivedAtMs.isSome then
      let state := { state with archivedAtMs := none, updatedAtMs := now }
      (.ok (), { self with resources := self.resources.insert (scopeId, kind, id) state })
    else (.ok (), self)

/-! ## Retention -/

/-- The versions of a resource that a purge may delete, newest first. `kept` counts the historical
    versions that were kept for the floor of the policy. -/
def eligibleRecords (policy : RegistryRetentionPolicy) (nowMs : UInt64)
    (isProtected : VersionedRecord → Bool) (currentVersion : Option Nat) (kept : Nat) :
    List VersionedRecord → List VersionedRecord
  | [] => []
  | record :: records =>
    if some record.version = currentVersion ∨ isProtected record ∨
        (∃ window ∈ policy.keepYoungerThanMs,
          nowMs.toNat - record.createdAtMs.toNat < window.toNat) then
      eligibleRecords policy nowMs isProtected currentVersion kept records
    else if kept < (policy.keepLastVersions.map UInt64.toNat).getD 0 then
      eligibleRecords policy nowMs isProtected currentVersion (kept + 1) records
    else record :: eligibleRecords policy nowMs isProtected currentVersion kept records

/-- The version is named by the policy or by a publication of the scope. -/
def isProtectedVersion (self : InMemoryVersionedRegistryStore) (scopeId : String)
    (policy : RegistryRetentionPolicy) (version : VersionRef) : Bool :=
  policy.protectedVersions.contains version ||
    (self.publicationsOf scopeId).any fun publication => publication.entries.contains version

/-- Purge plans are sorted by kind, id and version. -/
def PlanBefore (a b : VersionRef) : Prop :=
  a.kind < b.kind ∨ a.kind = b.kind ∧ (a.id < b.id ∨ a.id = b.id ∧ a.version ≤ b.version)

instance : DecidableRel PlanBefore := fun a b =>
  inferInstanceAs (Decidable (a.kind < b.kind ∨
    a.kind = b.kind ∧ (a.id < b.id ∨ a.id = b.id ∧ a.version ≤ b.version)))

/-- What the purge finds under the read lock. -/
def purgePlan (self : InMemoryVersionedRegistryStore) (scopeId : String) (nowMs : UInt64)
    (policy : RegistryRetentionPolicy) : List VersionRef :=
  (self.versions.entries.flatMap fun resource =>
    if resource.1.1 ≠ scopeId then []
    else
      (eligibleRecords policy nowMs
        (fun record => self.isProtectedVersion scopeId policy
          ⟨resource.1.2.1, resource.1.2.2, record.version⟩)
        ((self.resources.get? resource.1).bind VersionedResourceState.currentVersion) 0
        (resource.2.insertionSort fun a b => b.version ≤ a.version)).map fun record =>
          ⟨resource.1.2.1, resource.1.2.2, record.version⟩).insertionSort PlanBefore

/-- The part of `purge_eligible_versions` that plans. -/
def planPurge (scopeId : String) (nowMs : UInt64) (policy : RegistryRetentionPolicy)
    (dryRun : Bool) :
    Method VersionedRegistryError InMemoryVersionedRegistryStore (List VersionRef) := fun self =>
  let plan := self.purgePlan scopeId nowMs policy
  if dryRun = false ∧ plan ≠ [] then
    (.ok plan, { self with pending := self.pending ++ [.purge scopeId plan] })
  else (.ok plan, self)

/-- Delete the planned versions. -/
def deletePlanned (scopeId : String) : List VersionRef → InMemoryVersionedRegistryStore →
    InMemoryVersionedRegistryStore
  | [], self => self
  | version :: plan, self =>
    deletePlanned scopeId plan { self with
      versions := self.versions.modify (scopeId, version.kind, version.id) fun records =>
        records.filter fun record => record.version != version.version }

/-- The part of a call under its write lock. -/
def performWrite (now : UInt64) :
    PendingWrite → Method VersionedRegistryError InMemoryVersionedRegistryStore Unit
  | .rollback scopeId kind id prior contentHash canonicalJsonBytes metadata => fun self =>
    if self.isArchived (scopeId, kind, id) then (.error (.archived kind id), self)
    else
      let record : VersionedRecord :=
        { kind, id, version := self.nextVersion (scopeId, kind, id), contentHash
          valueSchemaVersion := prior.valueSchemaVersion, value := prior.value
          canonicalJsonBytes, createdAtMs := now, metadata }
      (.ok (), self.pushRecord scopeId record now)
  | .purge scopeId plan => fun self => (.ok (), deletePlanned scopeId plan self)

end InMemoryVersionedRegistryStore

/-- A call on the store, or the write of the pending one with the given number. -/
inductive VersionedRegistryOp where
  | publishResource (scopeId kind id : String) (value : JsonValue) (valueSchemaVersion : UInt32)
      (metadata : Value) (now : UInt64)
  | rollbackResource (scopeId kind id : String) (toVersion : Nat) (metadata : Value)
  | archiveResource (scopeId kind id : String) (now : UInt64)
  | unarchiveResource (scopeId kind id : String) (now : UInt64)
  | publishResourcesAndCreatePublication (scopeId publicationId : String)
      (resources : List RegistryResourcePublish) (sourceConfigRevisions : List ConfigRevisionRef)
      (createdBy : Option String) (metadata : Value) (now : UInt64)
  | createPublication (scopeId publicationId : String) (entries : List VersionRef)
      (sourceConfigRevisions : List ConfigRevisionRef) (createdBy : Option String)
      (metadata : Value) (now : UInt64)
  | purgeEligibleVersions (scopeId : String) (nowMs : UInt64) (policy : RegistryRetentionPolicy)
      (dryRun : Bool)
  | write (call : Nat) (now : UInt64)

namespace InMemoryVersionedRegistryStore

section Hash

variable (nonFinite : String → Option String) (digest : List UInt8 → String)

/-- A call leaves its store; what it returns is not looked at. -/
def call (self : InMemoryVersionedRegistryStore) :
    VersionedRegistryOp → InMemoryVersionedRegistryStore
  | .publishResource scopeId kind id value valueSchemaVersion metadata now =>
    (publishResource nonFinite digest scopeId kind id value valueSchemaVersion metadata now self).2
  | .rollbackResource scopeId kind id toVersion metadata =>
    (readRollback nonFinite digest scopeId kind id toVersion metadata self).2
  | .archiveResource scopeId kind id now => (archiveResource scopeId kind id now self).2
  | .unarchiveResource scopeId kind id now => (unarchiveResource scopeId kind id now self).2
  | .publishResourcesAndCreatePublication scopeId publicationId resources sourceConfigRevisions
      createdBy metadata now =>
    (publishResourcesAndCreatePublication nonFinite digest scopeId publicationId resources
      sourceConfigRevisions createdBy metadata now self).2
  | .createPublication scopeId publicationId entries sourceConfigRevisions createdBy metadata
      now =>
    (createPublication scopeId publicationId entries sourceConfigRevisions createdBy metadata now
      self).2
  | .purgeEligibleVersions scopeId nowMs policy dryRun =>
    (planPurge scopeId nowMs policy dryRun self).2
  | .write call now =>
    match self.pending[call]? with
    | none => self
    | some write => (performWrite now write { self with pending := self.pending.eraseIdx call }).2

def machine : Machine InMemoryVersionedRegistryStore VersionedRegistryOp Unit where
  step self op := ((), call nonFinite digest self op)

end Hash

end InMemoryVersionedRegistryStore

end Remo
