import VersionedKeys.KeyType

/-!
# Key set metadata

The metadata of a key set lists its versions.  Candidate keys are tried in the
canonical order of their versions: primary, active, inactive, and the newer
before the older.
-/

namespace VersionedKeys

/-- Where a version is in its life. -/
inductive KeyStatus where
  /-- Used for everything new, and for what was made before. -/
  | primary
  /-- Used for what was made before. -/
  | active
  /-- Used only where inactive keys are allowed. -/
  | inactive
  deriving DecidableEq, Repr

instance : Tagged KeyStatus where
  all := [.primary, .active, .inactive]
  tag
    | .primary => "PRIMARY"
    | .active => "ACTIVE"
    | .inactive => "INACTIVE"
  noun := "key status"

/-- The place of a status in the canonical order. -/
def KeyStatus.rank : KeyStatus → Nat
  | primary => 0
  | active => 1
  | inactive => 2

/-- One version of a key set. -/
structure KeyVersion where
  number : UInt32
  status : KeyStatus
  exportable : Bool := false
  deriving DecidableEq, Repr

/-- Compare in the order in which candidate keys are tried. -/
def KeyVersion.canonicalCompare (left right : KeyVersion) : Ordering :=
  (compare left.status.rank right.status.rank).then (compare right.number left.number)

/-- Everything about a key set but the keys. -/
structure Metadata where
  name : String
  purpose : KeyPurpose
  keyType : KeyType
  /-- Whether the data of the versions is itself encrypted. -/
  encrypted : Bool := false
  versions : List KeyVersion := []
  deriving DecidableEq, Repr

namespace Metadata

def primary? (metadata : Metadata) : Option KeyVersion :=
  metadata.versions.find? fun version => version.status == .primary

def version? (metadata : Metadata) (number : UInt32) : Option KeyVersion :=
  metadata.versions.find? fun version => version.number == number

def sortedVersions (metadata : Metadata) : List KeyVersion :=
  metadata.versions.mergeSort fun left right => left.canonicalCompare right != .gt

/-- The largest version number, or zero. -/
def lastNumber (metadata : Metadata) : Nat :=
  metadata.versions.foldl (fun last version => max last version.number.toNat) 0

end Metadata

end VersionedKeys
