import VersionedKeys.Number.Modular
import VersionedKeys.Random

/-!
# The search for primes

Numbers are tested by trial division and then, for a dozen bases, by whether
repeated squaring reaches one only through minus one.
-/

namespace VersionedKeys.Number

def testBases : List Nat := [2, 3, 5, 7, 11, 13, 17, 19, 23, 29, 31, 37]

def trialDivisors : List Nat :=
  2 :: (List.range 1000).map fun index => 2 * index + 3

/-- The odd part of a number and how often two divides it, at most `bound`
times. -/
def oddPart : (bound : Nat) → Nat → Nat × Nat
  | 0, value => (value, 0)
  | bound + 1, value =>
      if value % 2 = 0 then
        let (odd, twos) := oddPart bound (value / 2)
        (odd, twos + 1)
      else (value, 0)

/-- Whether `value` or one of its first `squarings` squares is minus one. -/
def reachesMinusOne (modulus : Nat) : (squarings value : Nat) → Bool
  | 0, _ => false
  | squarings + 1, value =>
      value == modulus - 1 || reachesMinusOne modulus squarings (value * value % modulus)

/-- Whether an odd number behaves like a prime to a base. -/
def passesBase (candidate base : Nat) : Bool :=
  let (odd, twos) := oddPart (Bytes.bitLength candidate) (candidate - 1)
  let start := powMod base odd candidate
  start == 1 || reachesMinusOne candidate twos start

/-- Whether a number above the trial divisors passes for a prime. -/
def isProbablePrime (candidate : Nat) : Bool :=
  trialDivisors.all (fun divisor => candidate % divisor != 0) &&
    testBases.all (passesBase candidate)

/-- The first number that passes for a prime among `candidate` and the next
`bound` odd numbers after it. -/
def nextPrime? : (bound candidate : Nat) → Option Nat
  | 0, _ => none
  | bound + 1, candidate =>
      if isProbablePrime candidate then some candidate else nextPrime? bound (candidate + 2)

/-- A random number of exactly `bits` binary digits, a multiple of eight, with
its two highest digits set. -/
def drawNumber (bits : Nat) (random : Random) : Nat × Random :=
  let (bytes, random) := random.draw (bits / 8)
  let place := Nat.pow 2 (bits - 2)
  (3 * place + Bytes.toNat bytes % place, random)

/-- A random number of exactly `bits` binary digits that passes for a prime. -/
def drawPrime? (bits : Nat) (random : Random) : Option Nat × Random :=
  let (start, random) := drawNumber bits random
  let found := nextPrime? (64 * bits) (start / 2 * 2 + 1)
  (found.filter fun prime => Bytes.bitLength prime == bits, random)

end VersionedKeys.Number
