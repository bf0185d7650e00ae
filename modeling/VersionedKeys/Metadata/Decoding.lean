import VersionedKeys.Metadata.Validation
import VersionedKeys.Metadata.Values

/-!
# Decoding metadata

The fields of metadata may stand in any order, and among others, which are
ignored.  Each must be there exactly once.
-/

namespace VersionedKeys

open Cbor (Reader)

namespace Metadata

/-- Read the value of a field that has not been there before. -/
def readField {Value : Type} (name : String) (present : Option Value)
    (read : Reader → Except Fault (Value × Reader)) (reader : Reader) :
    Except Fault (Option Value × Reader) :=
  if present.isSome then .error (.duplicateField name)
  else (read reader).map fun (value, next) => (some value, next)

def require {Value : Type} (name : String) : Option Value → Except Fault Value
  | some value => .ok value
  | none => .error (.missingField name)

/-- Read a map, entry by entry, into the fields that are found. -/
def readMap {Fields : Type}
    (field : Fields → (key : Bytes) → Reader → Except Fault (Fields × Reader))
    (fields : Fields) (reader : Reader) : Except Fault (Fields × Reader) := do
  let (_, header, next) ← untagged reader
  match header with
  | .map length =>
      let entry (seen : Bool) (fields : Fields) (reader : Reader) := do
        let (key, next) ← readLabel seen reader
        field fields key next
      entries entry length fields next
  | _ => .error (.unexpected header "map")

end Metadata

open Metadata

namespace KeyVersion

/-- The fields of a version that have been found. -/
structure Found where
  number : Option UInt32 := none
  status : Option KeyStatus := none
  exportable : Option Bool := none

/-- Read the value of a field.  A value that is ignored stands below the two
maps and the array around it. -/
def Found.field (found : Found) (key : Bytes) (reader : Reader) :
    Except Fault (Found × Reader) :=
  if key = Utf8.encode "versionNumber" then
    (readField "versionNumber" found.number readNumber reader).map fun (number, next) =>
      ({ found with number }, next)
  else if key = Utf8.encode "status" then
    (readField "status" found.status readChoice reader).map fun (status, next) =>
      ({ found with status }, next)
  else if key = Utf8.encode "exportable" then
    (readField "exportable" found.exportable readBool reader).map fun (exportable, next) =>
      ({ found with exportable }, next)
  else (skipItem (nestingLimit - 3) reader).map fun next => (found, next)

/-- The version whose fields have been found. -/
def Found.version (found : Found) : Except Fault KeyVersion := do
  let number ← require "versionNumber" found.number
  let status ← require "status" found.status
  let exportable ← require "exportable" found.exportable
  .ok ⟨number, status, exportable⟩

def read (reader : Reader) : Except Fault (KeyVersion × Reader) := do
  let (found, next) ← readMap Found.field {} reader
  let version ← found.version
  .ok (version, next)

end KeyVersion

namespace Metadata

/-- Read the array of versions.  An empty byte string stands for no versions. -/
def readVersions (reader : Reader) : Except Fault (List KeyVersion × Reader) := do
  let (front, header, next) ← untagged reader
  match header with
  | .array length =>
      let item (_ : Bool) (versions : List KeyVersion) (reader : Reader) := do
        let (version, next) ← KeyVersion.read reader
        return (version :: versions, next)
      let (versions, next) ← entries item length [] next
      .ok (versions.reverse, next)
  | .bytes _ =>
      match ← ofCbor front.bytes with
      | ([], next) => .ok ([], next)
      | (first :: _, _) => .error (.byteAsVersion first)
  | _ => .error (.unexpected header "array")

/-- The fields of metadata that have been found. -/
structure Found where
  name : Option String := none
  purpose : Option KeyPurpose := none
  keyType : Option KeyType := none
  encrypted : Option Bool := none
  versions : Option (List KeyVersion) := none

/-- Read the value of a field.  A value that is ignored stands below one map. -/
def Found.field (found : Found) (key : Bytes) (reader : Reader) :
    Except Fault (Found × Reader) :=
  if key = Utf8.encode "name" then
    (readField "name" found.name readText reader).map fun (name, next) =>
      ({ found with name }, next)
  else if key = Utf8.encode "purpose" then
    (readField "purpose" found.purpose readChoice reader).map fun (purpose, next) =>
      ({ found with purpose }, next)
  else if key = Utf8.encode "type" then
    (readField "type" found.keyType readChoice reader).map fun (keyType, next) =>
      ({ found with keyType }, next)
  else if key = Utf8.encode "encrypted" then
    (readField "encrypted" found.encrypted readBool reader).map fun (encrypted, next) =>
      ({ found with encrypted }, next)
  else if key = Utf8.encode "versions" then
    (readField "versions" found.versions readVersions reader).map fun (versions, next) =>
      ({ found with versions }, next)
  else (skipItem (nestingLimit - 1) reader).map fun next => (found, next)

/-- The metadata whose fields have been found. -/
def Found.metadata (found : Found) : Except Fault Metadata := do
  let name ← require "name" found.name
  let purpose ← require "purpose" found.purpose
  let keyType ← require "type" found.keyType
  let encrypted ← require "encrypted" found.encrypted
  let versions ← require "versions" found.versions
  .ok ⟨name, purpose, keyType, encrypted, versions⟩

/-- Decode metadata, valid or not.  Bytes after it are ignored. -/
def decode (bytes : Bytes) : Except Fault Metadata := do
  let (found, _) ← readMap Found.field {} (.ofBytes bytes)
  found.metadata

/-- The valid metadata that is encoded at the front of a byte string. -/
def ofBytes (bytes : Bytes) : Except Error Metadata := do
  let metadata ← (decode bytes).mapError fun fault => .keySet (.undecodableMetadata fault)
  metadata.validate
  .ok metadata

end Metadata

end VersionedKeys
