import Mathlib.Data.Int.ModEq
import Mathlib.Tactic.Ring
import VersionedKeys.Number.Power

/-!
# Inverses

Every division of the extended Euclidean algorithm halves the product of its two
remainders, so it ends within its bound.  A number that has no divisor in common with the
modulus has an inverse, which is found: `exists_inverse?`.
-/

namespace VersionedKeys.Number

/-- What is left after a division is less than half of what was divided. -/
theorem mul_mod_lt_two_pow {old remainder bound : Nat} (smaller : remainder < old)
    (positive : 0 < remainder) (enough : old * remainder < 2 ^ (bound + 1)) :
    remainder * (old % remainder) < 2 ^ bound := by
  have quotient : 1 ≤ old / remainder := Nat.div_pos smaller.le positive
  have division := Nat.div_add_mod old remainder
  have left : old % remainder < remainder := Nat.mod_lt _ positive
  have whole : remainder * 1 ≤ remainder * (old / remainder) := Nat.mul_le_mul_left _ quotient
  have halved : remainder * (2 * (old % remainder)) ≤ remainder * old :=
    Nat.mul_le_mul_left _ (by omega)
  have product : remainder * (2 * (old % remainder)) = 2 * (remainder * (old % remainder)) := by
    ring
  rw [product, Nat.mul_comm remainder old] at halved
  rw [Nat.pow_succ] at enough
  omega

/-- The coefficient that is returned gives the greatest common divisor of the remainders, if
their coefficients give the remainders themselves. -/
theorem bezoutWithin_modEq {value modulus : Nat} {bound old remainder : Nat}
    {oldCoefficient coefficient : Int} (smaller : remainder < old)
    (enough : old * remainder < 2 ^ bound)
    (oldGiven : oldCoefficient * value ≡ old [ZMOD modulus])
    (given : coefficient * value ≡ remainder [ZMOD modulus]) :
    bezoutWithin bound old remainder oldCoefficient coefficient * value ≡
      (old.gcd remainder : Nat) [ZMOD modulus] := by
  -- What the bound counts is how often the product of the remainders can be halved.
  induction bound generalizing old remainder oldCoefficient coefficient with
  | zero =>
      have ended : remainder = 0 := by
        rcases Nat.mul_eq_zero.mp (Nat.lt_one_iff.mp enough) with zero | zero
        · omega
        · exact zero
      rw [ended, Nat.gcd_zero_right]
      exact oldGiven
  | succ bound inductionHypothesis =>
      rw [bezoutWithin]
      by_cases ended : remainder = 0
      · rw [if_pos ended, ended, Nat.gcd_zero_right]
        exact oldGiven
      · have positive : 0 < remainder := Nat.pos_of_ne_zero ended
        have next : (oldCoefficient - (old / remainder : Nat) * coefficient) * value ≡
            (old % remainder : Nat) [ZMOD modulus] := by
          have difference : ((old % remainder : Nat) : Int) =
              old - (old / remainder : Nat) * remainder := by
            have division := Nat.div_add_mod old remainder
            rw [Nat.mul_comm] at division
            omega
          rw [difference, Int.sub_mul, Int.mul_assoc]
          exact oldGiven.sub (given.mul_left _)
        have found := inductionHypothesis (Nat.mod_lt _ positive)
          (mul_mod_lt_two_pow smaller positive enough) given next
        have divisor : remainder.gcd (old % remainder) = old.gcd remainder := by
          rw [Nat.gcd_comm, ← Nat.gcd_rec, Nat.gcd_comm]
        rw [divisor] at found
        simpa only [if_neg ended] using found

theorem exists_inverse? {value modulus : Nat} (coprime : value.Coprime modulus)
    (several : 1 < modulus) : ∃ inverse, inverse? value modulus = some inverse := by
  have reduced : value % modulus < modulus := Nat.mod_lt _ (by omega)
  have enough : modulus * (value % modulus) < 2 ^ (2 * Bytes.bitLength modulus + 2) := by
    have width := lt_two_pow_bitLength modulus
    calc
      modulus * (value % modulus) < 2 ^ Bytes.bitLength modulus * 2 ^ Bytes.bitLength modulus :=
        Nat.mul_lt_mul_of_lt_of_le width (reduced.trans width).le (Nat.two_pow_pos _)
      _ = 2 ^ (2 * Bytes.bitLength modulus) := by rw [← Nat.pow_add, Nat.two_mul]
      _ ≤ 2 ^ (2 * Bytes.bitLength modulus + 2) := Nat.pow_le_pow_right (by omega) (by omega)
  have start : (0 : Int) * value ≡ modulus [ZMOD modulus] := by
    rw [Int.zero_mul]
    exact (Int.emod_self).symm ▸ Int.zero_emod _
  have second : (1 : Int) * value ≡ (value % modulus : Nat) [ZMOD modulus] := by
    rw [Int.one_mul, Int.natCast_mod]
    exact (Int.mod_modEq _ _).symm
  have found := bezoutWithin_modEq reduced enough start second
  have divisor : modulus.gcd (value % modulus) = 1 := by
    rw [Nat.gcd_comm, ← Nat.gcd_rec, Nat.gcd_comm]
    exact coprime
  rw [divisor] at found
  rw [inverse?]
  generalize bezoutWithin _ modulus (value % modulus) 0 1 = coefficient at found
  refine ⟨_, if_pos ?_⟩
  have candidate : (((coefficient % modulus).toNat : Nat) : Int) = coefficient % modulus :=
    Int.toNat_of_nonneg (Int.emod_nonneg _ (by omega))
  have inverts : (value * (coefficient % modulus).toNat : Nat) ≡ (1 : Nat) [ZMOD modulus] := by
    rw [Nat.cast_mul, candidate, Int.mul_comm]
    exact ((Int.mod_modEq _ _).mul_right _).trans found
  exact (Int.natCast_modEq_iff).mp inverts

end VersionedKeys.Number
