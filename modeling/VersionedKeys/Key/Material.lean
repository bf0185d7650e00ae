import VersionedKeys.Aes.Cipher
import VersionedKeys.Cbor.Item
import VersionedKeys.KeyHash

/-!
# Keys

A key is key material of a size that its type allows.  It is identified by the
hash of its public numbers, or of all of it if it has none.
-/

namespace VersionedKeys

/-- An AES key and the HMAC key that authenticates what it encrypts. -/
structure AesHmacKey where
  aes : Aes.Key
  mac : Bytes
  /-- The HMAC key has 32 bytes. -/
  length_mac : mac.length = 32
  deriving DecidableEq

/-- The material of a key, by its type. -/
inductive Material where
  | aes (key : AesHmacKey)
  | hmacSha1 (key : Bytes)
  | aesAead (key : Aes.Key)
  | rsaPrivate (key : Rsa.PrivateKey)
  | rsaPublic (key : Rsa.PublicKey)
  | dsaPrivate (key : Dsa.PrivateKey)
  | dsaPublic (key : Dsa.PublicKey)
  deriving DecidableEq

/-- The numbers that identify an RSA key. -/
def Rsa.PublicKey.parts (key : Rsa.PublicKey) : List Bytes :=
  [Bytes.ofNatMinimal key.modulus, Bytes.ofNatMinimal key.exponent]

/-- The numbers that identify a DSA key. -/
def Dsa.PublicKey.parts (key : Dsa.PublicKey) : List Bytes :=
  [Bytes.ofNatMinimal key.prime, Bytes.ofNatMinimal key.order,
    Bytes.ofNatMinimal key.generator, Bytes.ofNatMinimal key.value]

namespace Material

def keyType : Material → KeyType
  | aes _ => .aes
  | hmacSha1 _ => .hmacSha1
  | aesAead _ => .aesAead
  | rsaPrivate _ => .rsaPrivate
  | rsaPublic _ => .rsaPublic
  | dsaPrivate _ => .dsaPrivate
  | dsaPublic _ => .dsaPublic

def size : Material → Nat
  | aes key => key.aes.bytes.length * 8
  | hmacSha1 key => key.length * 8
  | aesAead key => key.bytes.length * 8
  | rsaPrivate key => key.publicKey.length * 8
  | rsaPublic key => key.length * 8
  | dsaPrivate key => Bytes.bitLength key.publicKey.prime
  | dsaPublic key => Bytes.bitLength key.prime

/-- The bytes a key is identified by.  Of an AES key and its HMAC key only the
first has its length before it. -/
def identity : Material → Bytes
  | aes key => Bytes.ofNat 4 key.aes.bytes.length ++ key.aes.bytes ++ key.mac
  | hmacSha1 key => key
  | aesAead key => KeyHash.lengthPrefixed [key.bytes]
  | rsaPrivate key => KeyHash.lengthPrefixed key.publicKey.parts
  | rsaPublic key => KeyHash.lengthPrefixed key.parts
  | dsaPrivate key => KeyHash.lengthPrefixed key.publicKey.parts
  | dsaPublic key => KeyHash.lengthPrefixed key.parts

/-- The parts that a key is stored as. -/
def parts : Material → List Bytes
  | aes key => [key.aes.bytes, key.mac]
  | hmacSha1 key => [key]
  | aesAead key => [key.bytes]
  | rsaPrivate key =>
      key.publicKey.parts ++
        [Bytes.ofNatMinimal key.secret, Bytes.ofNatMinimal key.first,
          Bytes.ofNatMinimal key.second]
  | rsaPublic key => key.parts
  | dsaPrivate key => key.publicKey.parts ++ [Bytes.ofNatMinimal key.secret]
  | dsaPublic key => key.parts

end Material

/-- A key. -/
structure Key where
  material : Material
  /-- Its type allows its size. -/
  acceptable : material.keyType.isAcceptableSize material.size = true
  deriving DecidableEq

namespace Key

def keyType (key : Key) : KeyType := key.material.keyType

def size (key : Key) : Nat := key.material.size

/-- The identifier at the front of everything a key makes. -/
def hash (key : Key) : KeyHash := .ofMaterial key.material.identity

def toBytes (key : Key) : Bytes := Cbor.writeByteStrings key.material.parts

/-- The key of some material, if its size is allowed. -/
def ofMaterial (material : Material) : Except Error Key :=
  if acceptable : material.keyType.isAcceptableSize material.size = true then
    .ok ⟨material, acceptable⟩
  else .error (.key (.invalidSize material.size material.keyType))

/-- The public half of a private key. -/
def public? : Key → Option Key
  | ⟨.rsaPrivate key, acceptable⟩ => some ⟨.rsaPublic key.publicKey, acceptable⟩
  | ⟨.dsaPrivate key, acceptable⟩ => some ⟨.dsaPublic key.publicKey, acceptable⟩
  | _ => none

end Key

end VersionedKeys
