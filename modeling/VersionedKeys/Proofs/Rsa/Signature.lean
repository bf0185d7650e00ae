import VersionedKeys.Proofs.Bytes
import VersionedKeys.Proofs.Rsa.Inverse
import VersionedKeys.Rsa.Signature

/-!
# Signatures with private keys

The private operation is checked when a signature is made, so what a key signs its public
half accepts, whether or not the factors of the modulus are prime: `verify_of_sign?`.
-/

namespace VersionedKeys.Rsa

namespace PrivateKey

variable (key : PrivateKey)

theorem factors_pos : 0 < key.first ∧ 0 < key.second := by
  have positive := key.modulus_pos
  rw [← key.first_mul_second] at positive
  exact ⟨Nat.pos_of_mul_pos_right positive, Nat.pos_of_mul_pos_left positive⟩

theorem power_lt (value : Nat) : key.power value < key.publicKey.modulus := by
  rw [power]
  split
  · rw [Number.powMod_eq]
    exact Nat.mod_lt _ key.modulus_pos
  · next inverse found =>
      obtain ⟨firstPositive, secondPositive⟩ := key.factors_pos
      simp only [Number.powMod_eq, ← key.first_mul_second]
      generalize (_ : Nat) * inverse = product
      have remainder := Nat.mod_lt (value ^ (key.secret % (key.second - 1))) secondPositive
      have quotient : product % key.first + 1 ≤ key.first := Nat.mod_lt _ firstPositive
      calc
        value ^ (key.secret % (key.second - 1)) % key.second +
              product % key.first * key.second
            < (product % key.first + 1) * key.second := by
          rw [Nat.add_mul, Nat.one_mul]
          omega
        _ ≤ key.first * key.second := Nat.mul_le_mul_right _ quotient

theorem root?_eq_some {value message : Nat} (found : key.root? value = some message) :
    message < key.publicKey.modulus ∧ key.publicKey.apply message = value := by
  simp only [root?, Option.ite_none_right_eq_some, Option.some.injEq] at found
  obtain ⟨-, applied, rfl⟩ := found
  exact ⟨key.power_lt value, applied⟩

section Primes

variable (firstPrime : key.first.Prime) (secondPrime : key.second.Prime)
  (different : key.first ≠ key.second)

include firstPrime secondPrime different

/-- The public operation takes different numbers below the modulus to different ones, so it
takes one to every number there is. -/
theorem exists_apply_eq {value : Nat} (small : value < key.publicKey.modulus) :
    ∃ message < key.publicKey.modulus, key.publicKey.apply message = value := by
  let operation (message : Fin key.publicKey.modulus) : Fin key.publicKey.modulus :=
    ⟨key.publicKey.apply message, key.apply_lt message⟩
  have injective : Function.Injective operation := by
    intro left right same
    have found := key.root?_apply firstPrime secondPrime different left.isLt
    rw [Fin.mk.inj same, key.root?_apply firstPrime secondPrime different right.isLt] at found
    exact Fin.ext (Option.some.inj found).symm
  obtain ⟨message, equality⟩ := Finite.surjective_of_injective injective ⟨value, small⟩
  exact ⟨message, message.isLt, congrArg Fin.val equality⟩

theorem exists_root?_eq {value : Nat} (small : value < key.publicKey.modulus) :
    ∃ message, key.root? value = some message := by
  obtain ⟨message, below, rfl⟩ := key.exists_apply_eq firstPrime secondPrime different small
  exact ⟨message, key.root?_apply firstPrime secondPrime different below⟩

end Primes

end PrivateKey

theorem length_padDigest? {length : Nat} {digest padded : Bytes}
    (made : padDigest? length digest = some padded) : padded.length = length := by
  simp only [padDigest?, Option.ite_none_left_eq_some, Option.some.injEq] at made
  obtain ⟨fits, rfl⟩ := made
  simp only [List.length_append, List.length_cons, List.length_nil,
    List.length_replicate] at fits ⊢
  omega

/-- A padded digest is a number below every modulus of its length, since its first byte is
zero. -/
theorem toNat_lt_of_padDigest? {modulus : Nat} {digest padded : Bytes}
    (made : padDigest? (Bytes.byteLength modulus) digest = some padded) :
    Bytes.toNat padded < modulus := by
  have front : ∃ rest, padded = 0 :: rest := by
    simp only [padDigest?, Option.ite_none_left_eq_some, Option.some.injEq] at made
    exact ⟨_, made.2.symm⟩
  have length := length_padDigest? made
  obtain ⟨rest, rfl⟩ := front
  have shorter : rest.length < Bytes.byteLength modulus := by
    rw [← length]
    exact Nat.lt_succ_self _
  rw [Bytes.toNat_cons_zero]
  exact (Bytes.toNat_lt rest).trans_le (Bytes.pow_le_of_byteLength shorter)

/-- There is a signature exactly if the power with the secret exponent is undone by the public
operation. -/
theorem exists_sign?_iff {key : PrivateKey} {digest : Bytes} :
    (∃ signature, sign? key digest = some signature) ↔
      ∃ padded : Bytes, padDigest? key.publicKey.length digest = some padded ∧
        key.publicKey.apply (key.power padded.toNat) = padded.toNat := by
  simp only [sign?, Option.bind_eq_bind, Option.bind_eq_some_iff, Option.some.injEq]
  constructor
  · rintro ⟨signature, padded, made, number, root, -⟩
    simp only [PrivateKey.root?, Option.ite_none_right_eq_some, Option.some.injEq] at root
    exact ⟨padded, made, root.2.1⟩
  · rintro ⟨padded, made, undone⟩
    have root : key.root? padded.toNat = some (key.power padded.toNat) := by
      rw [PrivateKey.root?, if_pos (toNat_lt_of_padDigest? made)]
      exact if_pos undone
    exact ⟨_, padded, made, _, root, rfl⟩

/-- A key whose factors are different primes signs every digest that fits. -/
theorem exists_sign? {key : PrivateKey} (firstPrime : key.first.Prime)
    (secondPrime : key.second.Prime) (different : key.first ≠ key.second) {digest : Bytes}
    (fits : digest.length + 26 ≤ key.publicKey.length) :
    ∃ signature, sign? key digest = some signature := by
  have padding : ∃ padded, padDigest? key.publicKey.length digest = some padded := by
    refine ⟨_, if_neg ?_⟩
    rw [List.length_append, show digestInfo.length = 15 from rfl]
    omega
  obtain ⟨padded, made⟩ := padding
  obtain ⟨number, root⟩ := key.exists_root?_eq firstPrime secondPrime different
    (toNat_lt_of_padDigest? made)
  refine ⟨Bytes.ofNat key.publicKey.length number, ?_⟩
  rw [sign?, made]
  simp only [Option.bind_eq_bind, Option.bind_some, root]

/-- What a private key signs its public half accepts. -/
theorem verify_of_sign? {key : PrivateKey} {digest signature : Bytes}
    (made : sign? key digest = some signature) : verify key.publicKey digest signature = true := by
  simp only [sign?, Option.bind_eq_bind, Option.bind_eq_some_iff, Option.some.injEq] at made
  obtain ⟨padded, padding, number, root, rfl⟩ := made
  obtain ⟨small, applied⟩ := key.root?_eq_some root
  have width := Bytes.lt_pow_byteLength key.publicKey.modulus
  have value : Bytes.toNat (Bytes.ofNat key.publicKey.length number) = number := by
    rw [Bytes.toNat_ofNat]
    exact Nat.mod_eq_of_lt (small.trans width)
  have digits : Bytes.ofNat key.publicKey.length (Bytes.toNat padded) = padded := by
    rw [← length_padDigest? padding, Bytes.ofNat_toNat]
  simp only [verify, value, Bytes.length_ofNat, small, applied, digits, padding, beq_self_eq_true,
    decide_true, Bool.and_self]

/-- A signature is as long as the modulus, zeros in front included. -/
theorem length_of_sign? {key : PrivateKey} {digest signature : Bytes}
    (made : sign? key digest = some signature) : signature.length = key.publicKey.length := by
  simp only [sign?, Option.bind_eq_bind, Option.bind_eq_some_iff, Option.some.injEq] at made
  obtain ⟨padded, -, number, -, rfl⟩ := made
  exact Bytes.length_ofNat _ _

end VersionedKeys.Rsa
