import Mathlib.Data.Nat.ModEq
import Mathlib.FieldTheory.Finite.Basic
import VersionedKeys.Number.Power
import VersionedKeys.Proofs.Key.Checks

/-!
# The private operation inverts the public one

Modulo each of the two primes, the exponents together are one modulo the prime
minus one, and so their power is the message.  Whether the power is computed
directly or put together from the two primes, the message is found again:
`root?_apply`.
-/

namespace VersionedKeys

namespace Number

theorem pow_modEq_self {prime exponent : Nat} (isPrime : prime.Prime)
    (one : exponent % (prime - 1) = 1) (value : Nat) :
    value ^ exponent ≡ value [MOD prime] := by
  by_cases divides : prime ∣ value
  · have positive : exponent ≠ 0 := by
      rintro rfl
      simp at one
    have zero : value ≡ 0 [MOD prime] := (Nat.modEq_zero_iff_dvd).mpr divides
    calc
      value ^ exponent ≡ 0 ^ exponent [MOD prime] := zero.pow exponent
      _ = 0 := Nat.zero_pow (Nat.pos_of_ne_zero positive)
      _ ≡ value [MOD prime] := zero.symm
  · have coprime : value.Coprime prime := ((isPrime.coprime_iff_not_dvd).mpr divides).symm
    have fermat : value ^ (prime - 1) ≡ 1 [MOD prime] := by
      simpa [Nat.totient_prime isPrime] using Nat.ModEq.pow_totient coprime
    have division : exponent = (prime - 1) * (exponent / (prime - 1)) + 1 := by
      have parts := Nat.div_add_mod exponent (prime - 1)
      rw [one] at parts
      exact parts.symm
    calc
      value ^ exponent = (value ^ (prime - 1)) ^ (exponent / (prime - 1)) * value := by
        conv_lhs => rw [division, Nat.pow_succ, Nat.pow_mul]
      _ ≡ 1 ^ (exponent / (prime - 1)) * value [MOD prime] :=
        (fermat.pow _).mul_right value
      _ = value := by simp

/-- A number is put together from its remainders by two moduli and an inverse of
the second modulo the first. -/
theorem combine_eq {first second inverse value : Nat} (coprime : first.Coprime second)
    (positive : 0 < first) (inverts : second * inverse % first = 1 % first)
    (small : value < first * second) :
    value % second +
      (value % first + first - value % second % first) % first * inverse % first * second =
        value := by
  have secondPositive : 0 < second := by
    rcases Nat.eq_zero_or_pos second with rfl | holds
    · simp at small
    · exact holds
  -- The difference of the remainders is that of the value and the second one.
  have difference : (value % first + first - value % second % first) % first +
      value % second ≡ value [MOD first] := by
    have reduced : value % second % first < first := Nat.mod_lt _ positive
    have split : value % first + first - value % second % first + value % second % first =
        value % first + first := by omega
    calc
      (value % first + first - value % second % first) % first + value % second
          ≡ (value % first + first - value % second % first) + value % second % first
            [MOD first] := (Nat.mod_modEq _ _).add (Nat.mod_modEq _ _).symm
      _ = value % first + first := split
      _ ≡ value % first [MOD first] := Nat.add_modEq_right
      _ ≡ value [MOD first] := Nat.mod_modEq _ _
  generalize (value % first + first - value % second % first) % first = rise at difference ⊢
  have bySecond : value % second + rise * inverse % first * second ≡ value [MOD second] := by
    calc
      value % second + rise * inverse % first * second ≡ value % second + 0 [MOD second] :=
        Nat.ModEq.add_left _ ((Nat.modEq_zero_iff_dvd).mpr (Nat.dvd_mul_left _ _))
      _ ≡ value [MOD second] := Nat.mod_modEq _ _
  have byFirst : value % second + rise * inverse % first * second ≡ value [MOD first] := by
    calc
      value % second + rise * inverse % first * second
          ≡ value % second + rise * inverse * second [MOD first] :=
        Nat.ModEq.add_left _ ((Nat.mod_modEq _ _).mul_right _)
      _ = value % second + rise * (second * inverse) := by ring
      _ ≡ value % second + rise * 1 [MOD first] :=
        Nat.ModEq.add_left _ (Nat.ModEq.mul_left _ inverts)
      _ = rise + value % second := by ring
      _ ≡ value [MOD first] := difference
  have both := (Nat.modEq_and_modEq_iff_modEq_mul coprime).mp ⟨byFirst, bySecond⟩
  refine both.eq_of_lt_of_lt ?_ small
  have remainder : value % second < second := Nat.mod_lt _ secondPositive
  have quotient : rise * inverse % first + 1 ≤ first := Nat.mod_lt _ positive
  calc
    value % second + rise * inverse % first * second
        < (rise * inverse % first + 1) * second := by
      rw [Nat.add_mul, Nat.one_mul]
      omega
    _ ≤ first * second := Nat.mul_le_mul_right _ quotient

end Number

namespace Rsa.PrivateKey

variable (key : PrivateKey)

theorem two_le_first : 2 ≤ key.first :=
  (privateFault?_eq_none_iff.mp key.sound).1

theorem two_le_second : 2 ≤ key.second :=
  (privateFault?_eq_none_iff.mp key.sound).2.1

theorem first_mul_second : key.first * key.second = key.publicKey.modulus :=
  (privateFault?_eq_none_iff.mp key.sound).2.2.1

theorem exponents_first :
    key.publicKey.exponent * key.secret % (key.first - 1) = 1 := by
  rw [Nat.mul_comm]
  exact (privateFault?_eq_none_iff.mp key.sound).2.2.2.1

theorem exponents_second :
    key.publicKey.exponent * key.secret % (key.second - 1) = 1 := by
  rw [Nat.mul_comm]
  exact (privateFault?_eq_none_iff.mp key.sound).2.2.2.2

theorem modulus_pos : 0 < key.publicKey.modulus := by
  have first := key.two_le_first
  have second := key.two_le_second
  rw [← key.first_mul_second]
  exact Nat.mul_pos (by omega) (by omega)

theorem apply_lt (message : Nat) : key.publicKey.apply message < key.publicKey.modulus := by
  rw [PublicKey.apply, Number.powMod_eq]
  exact Nat.mod_lt _ key.modulus_pos

/-- Modulo a prime factor, a secret exponent of any size that fits the public one
finds the message again. -/
theorem powMod_apply {prime : Nat} (isPrime : prime.Prime)
    (divides : prime ∣ key.publicKey.modulus) (secret : Nat)
    (one : key.publicKey.exponent * secret % (prime - 1) = 1) (message : Nat) :
    Number.powMod (key.publicKey.apply message) secret prime = message % prime := by
  rw [Number.powMod_eq, PublicKey.apply, Number.powMod_eq]
  have reduced : message ^ key.publicKey.exponent % key.publicKey.modulus ≡
      message ^ key.publicKey.exponent [MOD prime] :=
    (Nat.mod_modEq _ _).of_dvd divides
  calc
    (message ^ key.publicKey.exponent % key.publicKey.modulus) ^ secret
        ≡ (message ^ key.publicKey.exponent) ^ secret [MOD prime] := reduced.pow secret
    _ = message ^ (key.publicKey.exponent * secret) := (Nat.pow_mul _ _ _).symm
    _ ≡ message [MOD prime] := Number.pow_modEq_self isPrime one message

/-- The power with the secret exponent is the message, if the factors are
different primes. -/
theorem power_apply (firstPrime : key.first.Prime) (secondPrime : key.second.Prime)
    (different : key.first ≠ key.second) {message : Nat}
    (small : message < key.publicKey.modulus) :
    key.power (key.publicKey.apply message) = message := by
  have coprime : key.first.Coprime key.second :=
    (Nat.coprime_primes firstPrime secondPrime).mpr different
  have firstDivides : key.first ∣ key.publicKey.modulus :=
    ⟨key.second, key.first_mul_second.symm⟩
  have secondDivides : key.second ∣ key.publicKey.modulus :=
    ⟨key.first, by rw [Nat.mul_comm, key.first_mul_second]⟩
  rw [power]
  split
  · have modulo {prime : Nat} (isPrime : prime.Prime) (divides : prime ∣ key.publicKey.modulus)
        (one : key.publicKey.exponent * key.secret % (prime - 1) = 1) :
        Number.powMod (key.publicKey.apply message) key.secret key.publicKey.modulus ≡
          message [MOD prime] := by
      have found := key.powMod_apply isPrime divides _ one message
      rw [Number.powMod_eq] at found ⊢
      exact ((Nat.mod_modEq _ _).of_dvd divides).trans found
    have both := (Nat.modEq_and_modEq_iff_modEq_mul coprime).mp
      ⟨modulo firstPrime firstDivides key.exponents_first,
        modulo secondPrime secondDivides key.exponents_second⟩
    rw [key.first_mul_second] at both
    refine both.eq_of_lt_of_lt ?_ small
    rw [Number.powMod_eq]
    exact Nat.mod_lt _ key.modulus_pos
  · next inverse found =>
      have one := key.powMod_apply firstPrime firstDivides
        (key.secret % (key.first - 1)) (by simp [key.exponents_first]) message
      have two := key.powMod_apply secondPrime secondDivides
        (key.secret % (key.second - 1)) (by simp [key.exponents_second]) message
      rw [← key.first_mul_second] at small
      simp only [one, two]
      exact Number.combine_eq coprime firstPrime.pos (Number.inverse?_eq_some found) small

theorem root?_apply (firstPrime : key.first.Prime) (secondPrime : key.second.Prime)
    (different : key.first ≠ key.second) {message : Nat}
    (small : message < key.publicKey.modulus) :
    key.root? (key.publicKey.apply message) = some message := by
  rw [root?, if_pos (key.apply_lt message),
    key.power_apply firstPrime secondPrime different small]
  exact if_pos rfl

end Rsa.PrivateKey

end VersionedKeys
