import VersionedKeys.Crypter
import VersionedKeys.KeySet

/-!
# Layered key sets

A key set with encrypted data is read through a layer that decrypts it, with
the keys of another set or under a password.  A layer around a plain key set
changes nothing.
-/

namespace VersionedKeys

/-- A password that is asked for when it is first needed, and remembered. -/
structure PasswordLock where
  /-- The answer to each time of asking. -/
  prompt : Nat → String
  /-- How often it has been asked for. -/
  prompts : Nat := 0
  remembered : Option String := none

/-- The password, asked for unless it is known. -/
def PasswordLock.unlock (lock : PasswordLock) : String × PasswordLock :=
  match lock.remembered with
  | some password => (password, lock)
  | none =>
      let password := lock.prompt lock.prompts
      (password, { lock with prompts := lock.prompts + 1, remembered := some password })

/-- A key set, and the layers it is read through. -/
inductive KeySource where
  | stored (keySet : KeySet)
  /-- Data is encrypted with the keys of another key set. -/
  | wrapped (inner : KeySource) (crypter : Crypter)
  /-- Data is encrypted under a password. -/
  | locked (inner : KeySource) (lock : PasswordLock)

namespace KeySource

/-- The metadata of a key set, which is plain when seen through a layer. -/
def metadata : KeySource → Metadata
  | stored keySet => keySet.metadata
  | wrapped inner _ => { inner.metadata with encrypted := false }
  | locked inner _ => { inner.metadata with encrypted := false }

/-- The decrypted data of a version.  The password is asked for only after the
data has been found and has the form of a store. -/
def keyData : KeySource → (number : UInt32) → Except Error Bytes × KeySource
  | stored keySet, number => (keySet.keyData number, stored keySet)
  | wrapped inner crypter, number =>
      match inner.keyData number with
      | (.error error, inner) => (.error error, wrapped inner crypter)
      | (.ok data, inner) =>
          let plain :=
            if inner.metadata.encrypted then Decrypts.decrypt crypter data else .ok data
          (plain, wrapped inner crypter)
  | locked inner lock, number =>
      match inner.keyData number with
      | (.error error, inner) => (.error error, locked inner lock)
      | (.ok data, inner) =>
          if inner.metadata.encrypted then
            match PasswordStore.ofBytes data with
            | .error error => (.error error, locked inner lock)
            | .ok store =>
                let (password, lock) := lock.unlock
                (store.decrypt password, locked inner lock)
          else (.ok data, locked inner lock)

/-- Read the keys of versions, in the order given, up to the first that fails. -/
def readKeys (keyType : KeyType) :
    List KeyVersion → KeySource → Except Error (List (KeyVersion × Key)) × KeySource
  | [], source => (.ok [], source)
  | version :: versions, source =>
      match source.keyData version.number with
      | (.error error, source) => (.error error, source)
      | (.ok data, source) =>
          match Key.read keyType data with
          | .error error => (.error (error.handle (.unreadableVersion version.number)), source)
          | .ok key =>
              let (keys, source) := readKeys keyType versions source
              (keys.map ((version, key) :: ·), source)

/-- Check that a key set is valid, for one of the purposes, and not encrypted. -/
def checkUse (metadata : Metadata) (purposes : List KeyPurpose) : Except Error Unit := do
  metadata.validate
  if !purposes.contains metadata.purpose then
    .error (.keySet (.otherPurpose metadata.name metadata.purpose))
  if metadata.encrypted then .error (.keySet (.stillEncrypted metadata.name))

/-- The keys of a key set that is for one of the purposes. -/
def loadRing (source : KeySource) (purposes : List KeyPurpose) :
    Except Error KeyRing × KeySource :=
  let metadata := source.metadata
  match checkUse metadata purposes with
  | .error error => (.error error, source)
  | .ok () =>
      let (keys, source) := readKeys metadata.keyType metadata.sortedVersions source
      (keys.map fun keys => ⟨metadata.name, metadata.purpose, keys, false⟩, source)

end KeySource

def Encrypter.load (source : KeySource) : Except Error Encrypter × KeySource :=
  (source.loadRing [.encrypt, .decryptAndEncrypt]).map (·.map .mk) id

def Crypter.load (source : KeySource) (allowInactive : Bool) : Except Error Crypter × KeySource :=
  (source.loadRing [.decryptAndEncrypt]).map (·.map fun ring => ⟨{ ring with allowInactive }⟩) id

end VersionedKeys
