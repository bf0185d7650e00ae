import VersionedKeys.Dsa.Key
import VersionedKeys.Number.Prime

/-!
# Generation of DSA keys

The large modulus has 1024 bits and the small one, which divides it less one,
has 160.
-/

namespace VersionedKeys.Dsa

/-- A prime of 1024 bits that is one more than a multiple of `order`, in at most
`attempts` attempts. -/
def drawModulus? (order : Nat) : (attempts : Nat) → Random → Option Nat × Random
  | 0, random => (none, random)
  | attempts + 1, random =>
      let (start, random) := Number.drawNumber 1024 random
      let candidate := start - start % (2 * order) + 1
      if Bytes.bitLength candidate = 1024 ∧ Number.isProbablePrime candidate then
        (some candidate, random)
      else drawModulus? order attempts random

/-- The first power other than one with the given exponent, of the bases from
`base` on. -/
def generator? (prime exponent : Nat) : (attempts base : Nat) → Option Nat
  | 0, _ => none
  | attempts + 1, base =>
      let power := Number.powMod base exponent prime
      if 1 < power then some power else generator? prime exponent attempts (base + 1)

def generate? (random : Random) : Option PrivateKey × Random :=
  let (order?, random) := Number.drawPrime? 160 random
  match order? with
  | none => (none, random)
  | some order =>
      let (prime?, random) := drawModulus? order 65536 random
      let (bytes, random) := random.draw 20
      let key? := do
        let prime ← prime?
        let generator ← generator? prime ((prime - 1) / order) 64 2
        let secret := Bytes.toNat bytes % (order - 1) + 1
        let value := Number.powMod generator secret prime
        let publicKey ← (PublicKey.ofNumbers prime order generator value).toOption
        (PrivateKey.ofNumbers publicKey secret).toOption
      (key?, random)

end VersionedKeys.Dsa
