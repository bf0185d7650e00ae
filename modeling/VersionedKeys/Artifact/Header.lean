import VersionedKeys.KeyHash

/-!
# Artifacts

Everything that is encrypted or signed begins with a version byte and the hash
of the key that made it.
-/

namespace VersionedKeys.Artifact

/-- The byte every artifact begins with. -/
def formatVersion : UInt8 := 0

def headerSize : Nat := 5

def header (hash : KeyHash) : Bytes := formatVersion :: hash.toBytes

/-- The key hash of an artifact, and what follows its header. -/
def parse : Bytes → Except Error (KeyHash × Bytes)
  | version :: a :: b :: c :: d :: body =>
      if version = formatVersion then .ok (⟨⟨a, b, c, d⟩⟩, body) else .error .invalidCryptoData
  | _ => .error .invalidCryptoData

/-- The key hash of an artifact, if it begins with a header. -/
def keyHash? (artifact : Bytes) : Option KeyHash :=
  match parse artifact with
  | .ok (hash, _) => some hash
  | .error _ => none

/-- How many bytes are taken from a source, or given to a stream, at a time. -/
def chunkSize : Nat := 4096

end VersionedKeys.Artifact
