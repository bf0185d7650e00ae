import VersionedKeys.Tagged

/-!
# Key types and purposes

Each key type has a list of sizes, a length of the tags or signatures it
makes, and the purposes a set of its keys can have.
-/

namespace VersionedKeys

/-- What a key set may be used for. -/
inductive KeyPurpose where
  | encrypt
  | decryptAndEncrypt
  | signAndVerify
  | verify
  deriving DecidableEq, Repr

instance : Tagged KeyPurpose where
  all := [.encrypt, .decryptAndEncrypt, .signAndVerify, .verify]
  tag
    | .encrypt => "ENCRYPT"
    | .decryptAndEncrypt => "DECRYPT_AND_ENCRYPT"
    | .signAndVerify => "SIGN_AND_VERIFY"
    | .verify => "VERIFY"
  noun := "key purpose"

/-- The kinds of keys. -/
inductive KeyType where
  /-- AES in CBC mode, authenticated by an HMAC key that belongs to it. -/
  | aes
  | hmacSha1
  | dsaPrivate
  | dsaPublic
  | rsaPrivate
  | rsaPublic
  /-- AES in Galois/counter mode. -/
  | aesAead
  deriving DecidableEq, Repr

instance : Tagged KeyType where
  all := [.aes, .hmacSha1, .dsaPrivate, .dsaPublic, .rsaPrivate, .rsaPublic, .aesAead]
  tag
    | .aes => "AES"
    | .hmacSha1 => "HMAC_SHA1"
    | .dsaPrivate => "DSA_PRIV"
    | .dsaPublic => "DSA_PUB"
    | .rsaPrivate => "RSA_PRIV"
    | .rsaPublic => "RSA_PUB"
    | .aesAead => "AES_AEAD"
  noun := "key type"

/-- How many bytes the tags or signatures of a key type have. -/
inductive OutputSize where
  | fixed (bytes : Nat)
  /-- As many as the modulus of the key. -/
  | keySize
  deriving DecidableEq, Repr

namespace KeyType

/-- The sizes of keys of a type, in bits, the default first. -/
def sizes : KeyType → List Nat
  | aes => [128, 192, 256]
  | hmacSha1 => [256]
  | dsaPrivate => [1024]
  | dsaPublic => [1024]
  | rsaPrivate => [2048, 4096, 1024]
  | rsaPublic => [2048, 4096, 1024]
  | aesAead => [256, 192, 128]

def defaultSize (keyType : KeyType) : Nat :=
  keyType.sizes.headD 0

def isAcceptableSize (keyType : KeyType) (size : Nat) : Bool :=
  keyType.sizes.contains size

/-- The length of tags or signatures.  A DSA signature may be shorter. -/
def output : KeyType → OutputSize
  | aes => .fixed 20
  | hmacSha1 => .fixed 20
  | dsaPrivate => .fixed 48
  | dsaPublic => .fixed 48
  | rsaPrivate => .keySize
  | rsaPublic => .keySize
  | aesAead => .fixed 16

/-- The length in bytes of tags or signatures of a key of the given size. -/
def outputSize (keyType : KeyType) (size : Nat) : Nat :=
  match keyType.output with
  | .fixed bytes => bytes
  | .keySize => size / 8

def purposes : KeyType → List KeyPurpose
  | aes => [.decryptAndEncrypt]
  | hmacSha1 => [.signAndVerify]
  | dsaPrivate => [.signAndVerify]
  | dsaPublic => [.verify]
  | rsaPrivate => [.decryptAndEncrypt, .signAndVerify]
  | rsaPublic => [.encrypt, .verify]
  | aesAead => [.decryptAndEncrypt]

def supports (keyType : KeyType) (purpose : KeyPurpose) : Bool :=
  keyType.purposes.contains purpose

end KeyType

end VersionedKeys
