import VersionedKeys.Digest.Hmac
import VersionedKeys.Dsa.Der
import VersionedKeys.Dsa.Key

/-!
# DSA signatures

The nonce of a signature is not random: it is drawn from a generator seeded with
the secret exponent and the digest, so that a message has one signature.
-/

namespace VersionedKeys.Dsa

open Digest

/-- The whole bytes in the small modulus. -/
def PublicKey.orderLength (key : PublicKey) : Nat :=
  Bytes.bitLength key.order / 8

/-- The number that is signed: the front of the digest. -/
def PublicKey.digestNumber (key : PublicKey) (digest : Bytes) : Nat :=
  Bytes.toNat (digest.take key.orderLength)

/-- A generator of bytes made of HMAC under a key and a value that change. -/
structure Generator where
  key : Bytes
  value : Bytes

namespace Generator

/-- Change the key by the value, a byte and some more bytes, then the value. -/
def stir (generator : Generator) (more : Bytes) : Generator :=
  let key := sha1.hmac generator.key (generator.value ++ more)
  ⟨key, sha1.hmac key generator.value⟩

/-- The generator for a seed. -/
def ofSeed (seed : Bytes) : Generator :=
  let start : Generator := ⟨List.replicate sha1Size 0, List.replicate sha1Size 1⟩
  (start.stir (0 :: seed)).stir (1 :: seed)

/-- Values one after the other, each made from the one before. -/
def values (key : Bytes) : (count : Nat) → Bytes → List Bytes
  | 0, _ => []
  | count + 1, value =>
      let next := sha1.hmac key value
      next :: values key count next

/-- Draw bytes, and stir. -/
def draw (generator : Generator) (length : Nat) : Bytes × Generator :=
  let values := values generator.key ((length + sha1Size - 1) / sha1Size) generator.value
  (values.flatten.take length,
    Generator.stir ⟨generator.key, values.getLastD generator.value⟩ [0])

end Generator

/-- The nonce that drawn bytes are, with its inverse: a number that is positive, below the order
and invertible modulo it. -/
def nonceOf? (order : Nat) (drawn : Bytes) : Option (Nat × Nat) := do
  let nonce := drawn.toNat
  let inverse ← Number.inverse? nonce order
  if 0 < nonce ∧ nonce < order then some (nonce, inverse) else none

/-- How many generators there are: a key and a value of twenty bytes each. -/
def Generator.count : Nat := Nat.pow 256 (2 * sha1Size)

/-- The first nonce that a generator draws, in so many draws. -/
def searchNonce? (order length : Nat) : (draws : Nat) → Generator → Option (Nat × Nat)
  | 0, _ => none
  | draws + 1, generator =>
      let (drawn, generator) := generator.draw length
      match nonceOf? order drawn with
      | some found => some found
      | none => searchNonce? order length draws generator

/-- The first number of a signature, which does not depend on what is signed. -/
def PublicKey.firstNumber (key : PublicKey) (nonce : Nat) : Nat :=
  Number.powMod key.generator nonce key.prime % key.order

namespace PrivateKey

/-- The generator of nonces for a digest. -/
def generator (key : PrivateKey) (digest : Bytes) : Generator :=
  let publicKey := key.publicKey
  .ofSeed (Bytes.ofNatMinimal key.secret ++
    Bytes.ofNat publicKey.orderLength (publicKey.digestNumber digest % publicKey.order))

/-- The first nonce that is drawn for a digest.  There need not be one, and then the search goes on
for ever.  It has met all generators it ever meets after as many draws as there are generators. -/
def nonce? (key : PrivateKey) (digest : Bytes) : Option (Nat × Nat) :=
  searchNonce? key.publicKey.order key.publicKey.orderLength Generator.count
    (key.generator digest)

/-- The second number of a signature, for a nonce and its inverse. -/
def secondNumber (key : PrivateKey) (digest : Bytes) (nonce inverse : Nat) : Nat :=
  inverse * (key.publicKey.digestNumber digest + key.secret * key.publicKey.firstNumber nonce) %
    key.publicKey.order

/-- The signature with a nonce and its inverse, unless one of its numbers is zero. -/
def signWith? (key : PrivateKey) (digest : Bytes) (nonce inverse : Nat) : Option Bytes :=
  let first := key.publicKey.firstNumber nonce
  let second := key.secondNumber digest nonce inverse
  if first = 0 ∨ second = 0 then none else some (Der.encode first second)

end PrivateKey

/-- Whether two numbers are a signature of a digest. -/
def verifyNumbers (key : PublicKey) (digest : Bytes) (first second : Nat) : Bool :=
  if first = 0 ∨ second = 0 ∨ key.order ≤ first ∨ key.order ≤ second then false
  else
    match Number.inverse? second key.order with
    | none => false
    | some inverse =>
        let one := key.digestNumber digest * inverse % key.order
        let two := first * inverse % key.order
        let product :=
          Number.powMod key.generator one key.prime * Number.powMod key.value two key.prime
        product % key.prime % key.order == first

def verify (key : PublicKey) (digest signature : Bytes) : Bool :=
  match Der.decode? signature with
  | none => false
  | some (first, second) => verifyNumbers key digest first second

end VersionedKeys.Dsa
