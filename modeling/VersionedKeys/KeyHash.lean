import VersionedKeys.Aes.Block
import VersionedKeys.Digest.Sha1
import VersionedKeys.Error

/-!
# Key hashes

Everything a key makes begins with a short hash of the key, by which the key is
found again.
-/

namespace VersionedKeys

/-- Four bytes that identify a key. -/
structure KeyHash where
  word : Word
  deriving DecidableEq, Repr

namespace KeyHash

def toBytes (hash : KeyHash) : Bytes := hash.word.toBytes

def ofBytes : Bytes → Except Error KeyHash
  | [a, b, c, d] => .ok ⟨⟨a, b, c, d⟩⟩
  | _ => .error .invalidCryptoData

/-- The first four bytes of a digest. -/
def truncate : Bytes → KeyHash
  | a :: b :: c :: d :: _ => ⟨⟨a, b, c, d⟩⟩
  | _ => ⟨⟨0, 0, 0, 0⟩⟩

def ofMaterial (material : Bytes) : KeyHash :=
  truncate (Digest.sha1.digest material)

/-- Parts of a key, each after its length in four bytes. -/
def lengthPrefixed (parts : List Bytes) : Bytes :=
  parts.flatMap fun part => Bytes.ofNat 4 part.length ++ part

def text (hash : KeyHash) : String := Bytes.toHex hash.toBytes

end KeyHash

end VersionedKeys
