import VersionedKeys.Error

/-!
# Valid metadata

The type of the keys suits the purpose, at most one version is primary, and
version numbers start at one and differ.  Only valid metadata is used.
-/

namespace VersionedKeys.Metadata

/-- Check that version numbers start at one, differ from each other and are not
among those seen before. -/
def checkNumbers : (seen : List UInt32) → List KeyVersion → Except Error Unit
  | _, [] => .ok ()
  | seen, version :: versions =>
      if version.number = 0 then .error (.keySet .versionZero)
      else if seen.contains version.number then
        .error (.keySet (.duplicateVersion version.number))
      else checkNumbers (version.number :: seen) versions

/-- Check the rules every key set follows. -/
def validate (metadata : Metadata) : Except Error Unit :=
  if !metadata.keyType.supports metadata.purpose then
    .error (.keySet (.unsuitedPurpose metadata.keyType metadata.purpose))
  else if 1 < metadata.versions.countP (fun version => version.status == .primary) then
    .error (.keySet .severalPrimaries)
  else checkNumbers [] metadata.versions

/-- The number of the next version: one more than the largest. -/
def nextNumber (metadata : Metadata) : Except Error UInt32 :=
  let next := metadata.lastNumber + 1
  if next < UInt32.size then .ok (UInt32.ofNat next) else .error (.keySet .versionsExhausted)

end VersionedKeys.Metadata
