import VersionedKeys.Digest.Sha1
import VersionedKeys.Rsa.Key

/-!
# RSA signatures

A signature is the private operation on the digest behind a fixed padding.  It
is verified by comparing the result of the public operation with that padding.
-/

namespace VersionedKeys.Rsa

/-- What stands before a digest of SHA-1 and names the hash function. -/
def digestInfo : Bytes :=
  [0x30, 0x21, 0x30, 0x09, 0x06, 0x05, 0x2B, 0x0E, 0x03, 0x02, 0x1A, 0x05, 0x00, 0x04, 0x14]

/-- The padded form of a digest, as long as the modulus, if it fits. -/
def padDigest? (length : Nat) (digest : Bytes) : Option Bytes :=
  let info := digestInfo ++ digest
  if length < info.length + 11 then none
  else some ([0, 1] ++ List.replicate (length - info.length - 3) 0xFF ++ 0 :: info)

def sign? (key : PrivateKey) (digest : Bytes) : Option Bytes := do
  let padded ← padDigest? key.publicKey.length digest
  let signature ← key.root? padded.toNat
  some (Bytes.ofNat key.publicKey.length signature)

def verify (key : PublicKey) (digest signature : Bytes) : Bool :=
  signature.length == key.length && signature.toNat < key.modulus &&
    padDigest? key.length digest == some (Bytes.ofNat key.length (key.apply signature.toNat))

end VersionedKeys.Rsa
