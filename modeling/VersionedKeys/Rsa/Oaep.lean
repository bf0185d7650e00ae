import VersionedKeys.Digest.Sha1
import VersionedKeys.Rsa.Key

/-!
# Optimal asymmetric encryption padding

A message is put behind the digest of the empty label, zeros and a one.  Those
bytes and a random seed mask each other, and the result is one number below the
modulus.
-/

namespace VersionedKeys.Rsa.Oaep

open Digest

/-- The bytes of a block that are not message. -/
def overhead : Nat := 2 * sha1Size + 2

/-- The longest message for a modulus of a length in bytes. -/
def capacity (length : Nat) : Nat := length - overhead

/-- A mask of a length from a seed. -/
def mask (seed : Bytes) (length : Nat) : Bytes :=
  let blocks := (List.range ((length + sha1Size - 1) / sha1Size)).flatMap fun counter =>
    sha1.digest (seed ++ Bytes.ofNat 4 counter)
  blocks.take length

def labelDigest : Bytes := sha1.digest []

/-- The block of a message, as long as the modulus. -/
def encode (length : Nat) (seed message : Bytes) : Bytes :=
  let zeros := List.replicate (capacity length - message.length) 0
  let data := labelDigest ++ zeros ++ 1 :: message
  let maskedData := Bytes.xor data (mask seed data.length)
  let maskedSeed := Bytes.xor seed (mask maskedData seed.length)
  0 :: (maskedSeed ++ maskedData)

def decode? (block : Bytes) : Option Bytes :=
  match block with
  | 0 :: masked =>
      let maskedSeed := masked.take sha1Size
      let maskedData := masked.drop sha1Size
      let seed := Bytes.xor maskedSeed (mask maskedData maskedSeed.length)
      let data := Bytes.xor maskedData (mask seed maskedData.length)
      if data.take sha1Size = labelDigest then
        match Bytes.dropZeros (data.drop sha1Size) with
        | 1 :: message => some message
        | _ => none
      else none
  | _ => none

def encrypt? (key : PublicKey) (seed message : Bytes) : Option Bytes :=
  if capacity key.length < message.length ∨ key.length < overhead then none
  else
    let block := encode key.length seed message
    some (Bytes.ofNat key.length (key.apply block.toNat))

/-- Decrypt a cipher text that is as long as the modulus. -/
def decrypt? (key : PrivateKey) (cipher : Bytes) : Option Bytes := do
  if cipher.length ≠ key.publicKey.length ∨ key.publicKey.length < overhead then none
  else
    let message ← key.root? cipher.toNat
    decode? (Bytes.ofNat key.publicKey.length message)

end VersionedKeys.Rsa.Oaep
