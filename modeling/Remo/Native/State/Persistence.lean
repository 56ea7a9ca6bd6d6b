import Remo.ForStd.Method
import Remo.Native.State.Store

/-!
# Restoring state

A persisted state holds the values of keys as JSON. A restore looks every entry up among the
registered keys, decodes it and inserts the value. The three restores differ in the map they
insert into and in the entries they read.
-/

namespace Remo

variable {keys : StateKeys}

/-- What to do with an entry whose key is not registered. -/
inductive UnknownKeyPolicy where
  | error
  | skip
deriving Repr, DecidableEq

/-- The errors of a restore. -/
inductive RestoreError where
  | unknownKey (key : String)
  | keyDecode (key message : String)
deriving Repr, DecidableEq

/-- How `StateKey::decode` fails. An error of another kind is kept as its text. -/
inductive DecodeError where
  | keyDecode (key message : String)
  | other (text : String)
deriving Repr, DecidableEq

structure KeyRegistration (keys : StateKeys) where
  K : keys.Key
  scope : KeyScope
  decode : Value → Except DecodeError (keys.Value K)

namespace KeyRegistration

def key (reg : KeyRegistration keys) : String := keys.key reg.K

/-- A decoder's error as the restore reports it. -/
def decodeError (reg : KeyRegistration keys) : DecodeError → RestoreError
  | .keyDecode key message => .keyDecode key message
  | .other text => .keyDecode reg.key text

/-- Decode the value and insert it. -/
def importValue (reg : KeyRegistration keys) (json : Value) :
    Method RestoreError (StateMap keys) Unit := fun map =>
  match reg.decode json with
  | .error e => (.error (reg.decodeError e), map)
  | .ok value => (.ok (), map.insert reg.K value)

end KeyRegistration

/-- Persisted values, in the order the map yields them. -/
structure PersistedState where
  revision : Nat
  extensions : AssocMap String Value

/-- A store with the registrations of its keys. A key is registered under its own name. -/
structure PersistentStore (keys : StateKeys) where
  inner : Snapshot keys
  keysByName : AssocMap String (KeyRegistration keys)
  named : ∀ name reg, keysByName.get? name = some reg → reg.key = name

namespace PersistentStore

/-- Import the entry of a known key if the restore reads its scope. -/
def importEntry (keysByName : AssocMap String (KeyRegistration keys))
    (unknownPolicy : UnknownKeyPolicy) (reads : KeyScope → Bool) (entry : String × Value) :
    Method RestoreError (StateMap keys) Unit := fun map =>
  match keysByName.get? entry.1 with
  | none =>
    match unknownPolicy with
    | .error => (.error (.unknownKey entry.1), map)
    | .skip => (.ok (), map)
  | some reg => if reads reg.scope then reg.importValue entry.2 map else (.ok (), map)

/-- Import the entries in turn; the first failure ends the loop. -/
def importEntries (keysByName : AssocMap String (KeyRegistration keys))
    (unknownPolicy : UnknownKeyPolicy) (reads : KeyScope → Bool)
    (entries : List (String × Value)) : Method RestoreError (StateMap keys) Unit :=
  .map (fun _ => ()) (.forEach (importEntry keysByName unknownPolicy reads) entries)

/-- Replace the state by the persisted one, built apart. -/
def restorePersisted (persisted : PersistedState) (unknownPolicy : UnknownKeyPolicy) :
    Method RestoreError (PersistentStore keys) Unit := fun s =>
  match importEntries s.keysByName unknownPolicy (fun _ => true) persisted.extensions.entries
    StateMap.empty with
  | (.error e, _) => (.error e, s)
  | (.ok _, nextExt) => (.ok (), { s with inner := ⟨persisted.revision, nextExt⟩ })

/-- Restore only `Thread`-scoped keys, in the store's own map. -/
def restoreThreadScoped (persisted : PersistedState) (unknownPolicy : UnknownKeyPolicy) :
    Method RestoreError (PersistentStore keys) Unit := fun s =>
  let imported := importEntries s.keysByName unknownPolicy (fun scope => scope == .thread)
    persisted.extensions.entries s.inner.ext
  (imported.1, { s with inner := ⟨s.inner.revision, imported.2⟩ })

/-- Merge the persisted values into a copy of the state, which then takes its place. -/
def applySeed (persisted : PersistedState) (unknownPolicy : UnknownKeyPolicy) :
    Method RestoreError (PersistentStore keys) Unit := fun s =>
  match importEntries s.keysByName unknownPolicy (fun _ => true) persisted.extensions.entries
    s.inner.ext with
  | (.error e, _) => (.error e, s)
  | (.ok _, nextExt) => (.ok (), { s with inner := ⟨s.inner.revision, nextExt⟩ })

end PersistentStore

end Remo
