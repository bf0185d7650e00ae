import VersionedKeys.Key.Material
import VersionedKeys.Metadata.Basic

/-!
# Key rings

A key ring holds the keys of a key set, read and ready for use, in the
canonical order of their versions.
-/

namespace VersionedKeys

/-- The keys of a key set. -/
structure KeyRing where
  name : String
  purpose : KeyPurpose
  /-- The versions in canonical order, each with its key. -/
  keys : List (KeyVersion × Key)
  /-- Whether inactive keys are candidates too. -/
  allowInactive : Bool := false

namespace KeyRing

/-- The key for everything new. -/
def primary (ring : KeyRing) : Except Error Key :=
  match ring.keys.find? fun entry => entry.1.status == .primary with
  | some (_, key) => .ok key
  | none => .error .missingPrimary

/-- Whether a version may be used for what was made before. -/
def isUsable (ring : KeyRing) (version : KeyVersion) : Bool :=
  ring.allowInactive || version.status != .inactive

/-- The usable keys with a hash, in the order in which they are tried. -/
def candidates (ring : KeyRing) (hash : KeyHash) : List Key :=
  ((ring.keys.filter fun entry => ring.isUsable entry.1).map (·.2)).filter (·.hash == hash)

end KeyRing

end VersionedKeys
