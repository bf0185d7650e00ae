import VersionedKeys.Bytes

/-!
# Modular arithmetic

Powers are computed by repeated squaring.  An inverse is found by the extended
Euclidean algorithm and checked before it is returned.
-/

namespace VersionedKeys.Number

/-- Multiply `result` by `base ^ exponent` modulo `modulus`, for an exponent of
at most `bits` binary digits. -/
def powModWithin (modulus : Nat) : (bits base exponent result : Nat) → Nat
  | 0, _, _, result => result
  | bits + 1, base, exponent, result =>
      powModWithin modulus bits (base * base % modulus) (exponent / 2)
        (if exponent % 2 = 1 then result * base % modulus else result)

/-- The remainder of `base ^ exponent` by `modulus`. -/
def powMod (base exponent modulus : Nat) : Nat :=
  powModWithin modulus (Bytes.bitLength exponent) (base % modulus) exponent (1 % modulus)

/-- The extended Euclidean algorithm, on remainders and their coefficients of
the number to be inverted.  The bound covers the divisions still to be made. -/
def bezoutWithin : (bound : Nat) → (oldRemainder remainder : Nat) →
    (oldCoefficient coefficient : Int) → Int
  | 0, _, _, oldCoefficient, _ => oldCoefficient
  | bound + 1, oldRemainder, remainder, oldCoefficient, coefficient =>
      if remainder = 0 then oldCoefficient
      else
        let quotient := oldRemainder / remainder
        bezoutWithin bound remainder (oldRemainder % remainder)
          coefficient (oldCoefficient - quotient * coefficient)

/-- The inverse of a number modulo another, below it. -/
def inverse? (value modulus : Nat) : Option Nat :=
  let bound := 2 * Bytes.bitLength modulus + 2
  let candidate := (bezoutWithin bound modulus (value % modulus) 0 1 % modulus).toNat
  if value * candidate % modulus = 1 % modulus then some candidate else none

theorem inverse?_eq_some {value modulus inverse : Nat}
    (found : inverse? value modulus = some inverse) :
    value * inverse % modulus = 1 % modulus := by
  simp only [inverse?] at found
  split at found
  · next holds => cases found; exact holds
  · cases found

end VersionedKeys.Number
