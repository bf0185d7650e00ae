import VersionedKeys.Key.Generation
import VersionedKeys.Metadata.Validation
import VersionedKeys.PasswordStore

/-!
# Key sets

A key set is metadata and the stored data of its versions.  Every change gives
its outcome and the key set afterwards, which after a failure is the one
before.  A version that becomes primary takes the place of the one that was,
which becomes active.
-/

namespace VersionedKeys

/-- A key set held in memory. -/
structure KeySet where
  metadata : Metadata
  /-- The data of versions.  Of two entries for a number the first counts. -/
  data : List (UInt32 × Bytes)
  deriving DecidableEq, Repr

namespace KeySet

def dataFor? (data : List (UInt32 × Bytes)) (number : UInt32) : Option Bytes :=
  (data.find? fun entry => entry.1 == number).map (·.2)

def keyData (keySet : KeySet) (number : UInt32) : Except Error Bytes :=
  match dataFor? keySet.data number with
  | some data => .ok data
  | none => .error (.keySet (.unknownVersion number))

def create (name : String) (purpose : KeyPurpose) (keyType : KeyType) : Except Error KeySet := do
  let metadata : Metadata := { name, purpose, keyType }
  metadata.validate
  .ok ⟨metadata, []⟩

/-- A key set from its parts.  Of two entries for a number the later counts. -/
def ofParts (metadata : Metadata) (data : List (UInt32 × Bytes)) : Except Error KeySet := do
  metadata.validate
  let data := data.reverse
  match metadata.versions.find? fun version => (dataFor? data version.number).isNone with
  | some version => .error (.keySet (.missingData version.number))
  | none => .ok ⟨metadata, data⟩

def demotePrimary (versions : List KeyVersion) : List KeyVersion :=
  versions.map fun version =>
    if version.status = .primary then { version with status := .active } else version

/-- The versions as they are when another one gets a status. -/
def makeRoom (status : KeyStatus) (versions : List KeyVersion) : List KeyVersion :=
  if status = .primary then demotePrimary versions else versions

/-- Add data as a new version, and say which number it got. -/
def addData (keySet : KeySet) (status : KeyStatus) (data : Bytes) :
    Except Error UInt32 × KeySet :=
  match keySet.metadata.nextNumber with
  | .error error => (.error error, keySet)
  | .ok number =>
      let versions := makeRoom status keySet.metadata.versions ++ [⟨number, status, false⟩]
      (.ok number, ⟨{ keySet.metadata with versions }, (number, data) :: keySet.data⟩)

def checkType (keySet : KeySet) (key : Key) : Except Error Unit :=
  if key.keyType = keySet.metadata.keyType then .ok ()
  else .error (.keySet (.foreignKey key.keyType keySet.metadata.keyType))

def checkPlain (keySet : KeySet) (key : Key) : Except Error Unit := do
  keySet.checkType key
  if keySet.metadata.encrypted then .error (.keySet .plainKeyInEncryptedSet)

def checkEncrypted (keySet : KeySet) (key : Key) : Except Error Unit := do
  keySet.checkType key
  if !keySet.metadata.encrypted then .error (.keySet .encryptedKeyInPlainSet)

def addKey (keySet : KeySet) (status : KeyStatus) (key : Key) : Except Error UInt32 × KeySet :=
  match keySet.checkPlain key with
  | .error error => (.error error, keySet)
  | .ok () => keySet.addData status key.toBytes

/-- Add a new key of a size, or of the default size if it is zero. -/
def generateKey (keySet : KeySet) (status : KeyStatus) (size : Nat) (random : Random) :
    (Except Error UInt32 × KeySet) × Random :=
  match Key.generate keySet.metadata.keyType size random with
  | (.error error, random) => ((.error error, keySet), random)
  | (.ok key, random) => (keySet.addKey status key, random)

/-- Add a key as a new version whose data is encrypted in a given way. -/
def addEncryptedKey (keySet : KeySet) (status : KeyStatus) (key : Key)
    (encrypt : Bytes → Random → Except Error Bytes × Random) (random : Random) :
    (Except Error UInt32 × KeySet) × Random :=
  match keySet.checkEncrypted key with
  | .error error => ((.error error, keySet), random)
  | .ok () =>
      match encrypt key.toBytes random with
      | (.error error, random) => ((.error error, keySet), random)
      | (.ok data, random) => (keySet.addData status data, random)

def encryptUnderPassword (password : String) (iterations : UInt32) (data : Bytes)
    (random : Random) : Except Error Bytes × Random :=
  (PasswordStore.encrypt data password iterations random).map (·.map PasswordStore.toBytes) id

def addPasswordKey (keySet : KeySet) (status : KeyStatus) (key : Key) (password : String)
    (iterations : UInt32) (random : Random) : (Except Error UInt32 × KeySet) × Random :=
  keySet.addEncryptedKey status key (encryptUnderPassword password iterations) random

def setStatus (keySet : KeySet) (number : UInt32) (status : KeyStatus) :
    Except Error Unit × KeySet :=
  match keySet.metadata.version? number with
  | none => (.error (.keySet (.unknownVersion number)), keySet)
  | some _ =>
      let versions := (makeRoom status keySet.metadata.versions).map fun version =>
        if version.number = number then { version with status } else version
      (.ok (), { keySet with metadata := { keySet.metadata with versions } })

/-- Remove an inactive version and its data. -/
def remove (keySet : KeySet) (number : UInt32) : Except Error Unit × KeySet :=
  match keySet.metadata.version? number with
  | none => (.error (.keySet (.unknownVersion number)), keySet)
  | some version =>
      if version.status = .inactive then
        let versions := keySet.metadata.versions.filter fun version => version.number != number
        let data := keySet.data.filter fun entry => entry.1 != number
        (.ok (), ⟨{ keySet.metadata with versions }, data⟩)
      else (.error (.keySet (.versionInUse number version.status)), keySet)

/-- Say whether the data of versions is encrypted, while there are none. -/
def setEncrypted (keySet : KeySet) (encrypted : Bool) : Except Error Unit × KeySet :=
  if keySet.metadata.versions.isEmpty then
    (.ok (), { keySet with metadata := { keySet.metadata with encrypted } })
  else (.error (.keySet .encryptionFixed), keySet)

end KeySet

end VersionedKeys
