import Mathlib.Algebra.Group.Nat.Defs
import VersionedKeys.Number.Modular

/-!
# Powers modulo a number

Repeated squaring computes powers: `powMod_eq`.
-/

namespace VersionedKeys.Number

theorem powModWithin_eq (modulus bits base exponent result : Nat)
    (fits : exponent < 2 ^ bits) (reduced : result % modulus = result) :
    powModWithin modulus bits base exponent result = result * base ^ exponent % modulus := by
  induction bits generalizing base exponent result with
  | zero =>
      have : exponent = 0 := by simpa using fits
      simp [powModWithin, this, reduced]
  | succ bits inductionHypothesis =>
      have halved : exponent / 2 < 2 ^ bits := by
        rw [Nat.pow_succ] at fits
        omega
      have square : (base * base % modulus) ^ (exponent / 2) % modulus =
          base ^ (2 * (exponent / 2)) % modulus := by
        rw [← Nat.pow_mod, Nat.pow_mul, Nat.pow_two]
      rw [powModWithin, inductionHypothesis _ _ _ halved]
      · rcases Nat.mod_two_eq_zero_or_one exponent with even | odd
        · rw [if_neg (by omega), Nat.mul_mod, square, ← Nat.mul_mod,
            show 2 * (exponent / 2) = exponent by omega]
        · rw [if_pos odd, Nat.mul_mod, square, ← Nat.mul_mod,
            Nat.mul_mod (result * base % modulus), Nat.mod_mod, ← Nat.mul_mod, Nat.mul_assoc,
            ← Nat.pow_succ', show (2 * (exponent / 2)).succ = exponent by omega]
      · split
        · exact Nat.mod_mod _ _
        · exact reduced

theorem lt_two_pow_bitLength (value : Nat) : value < 2 ^ Bytes.bitLength value := by
  rw [Bytes.bitLength]
  split
  · simp_all
  · exact Nat.lt_log2_self

theorem powMod_eq (base exponent modulus : Nat) :
    powMod base exponent modulus = base ^ exponent % modulus := by
  rw [powMod, powModWithin_eq _ _ _ _ _ (lt_two_pow_bitLength exponent) (Nat.mod_mod _ _),
    Nat.mul_mod, Nat.mod_mod, ← Nat.pow_mod, ← Nat.mul_mod, Nat.one_mul]

end VersionedKeys.Number
