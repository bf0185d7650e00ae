import VersionedKeys.Dsa.Generation
import VersionedKeys.Key.Reading
import VersionedKeys.Rsa.Generation

/-!
# Generation of keys

A new key is made from random bytes.  A public key is not made but taken from a
private one.
-/

namespace VersionedKeys

namespace Material

def generate (keyType : KeyType) (size : Nat) (random : Random) : Except Error Material × Random :=
  match keyType with
  | .aes =>
      let (cipherKey, random) := random.draw (size / 8)
      let (macKey, random) := random.draw 32
      (.aes <$> AesHmacKey.ofParts cipherKey macKey, random)
  | .hmacSha1 =>
      let (key, random) := random.draw 32
      (.ok (.hmacSha1 key), random)
  | .aesAead =>
      let (key, random) := random.draw (size / 8)
      (.aesAead <$> Aes.Key.ofBytes key, random)
  | .rsaPrivate =>
      let (key?, random) := Rsa.generate? size 64 random
      ((key?.map .rsaPrivate).elim (.error (.key (.generationFailed "RSA"))) .ok, random)
  | .dsaPrivate =>
      let (key?, random) := Dsa.generate? random
      ((key?.map .dsaPrivate).elim (.error (.key (.generationFailed "DSA"))) .ok, random)
  | .rsaPublic | .dsaPublic => (.error (.key .publicKeyGenerated), random)

end Material

namespace Key

/-- A new key of a type and size; the size zero stands for the default. -/
def generate (keyType : KeyType) (size : Nat) (random : Random) : Except Error Key × Random :=
  let size := if size = 0 then keyType.defaultSize else size
  if keyType.isAcceptableSize size then
    let (material, random) := Material.generate keyType size random
    (material.bind Key.ofMaterial, random)
  else (.error (.key (.invalidSize size keyType)), random)

end Key

end VersionedKeys
