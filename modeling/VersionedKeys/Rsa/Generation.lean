import VersionedKeys.Number.Prime
import VersionedKeys.Rsa.Key

/-!
# Generation of RSA keys
-/

namespace VersionedKeys.Rsa

def generatedExponent : Nat := 65537

/-- The key of two primes, if the public exponent has an inverse. -/
def PrivateKey.ofPrimes? (first second : Nat) : Option PrivateKey := do
  let secret ← Number.inverse? generatedExponent ((first - 1) * (second - 1))
  (PrivateKey.ofNumbers (first * second) generatedExponent secret first second).toOption

/-- A new key of a size in bits, in at most `attempts` attempts. -/
def generate? (size : Nat) : (attempts : Nat) → Random → Option PrivateKey × Random
  | 0, random => (none, random)
  | attempts + 1, random =>
      let (first?, random) := Number.drawPrime? (size / 2) random
      let (second?, random) := Number.drawPrime? (size / 2) random
      let key? := do
        let first ← first?
        let second ← second?
        if first = second then none else PrivateKey.ofPrimes? first second
      match key? with
      | some key => (some key, random)
      | none => generate? size attempts random

end VersionedKeys.Rsa
