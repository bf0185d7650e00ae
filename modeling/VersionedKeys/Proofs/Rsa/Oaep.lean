import VersionedKeys.Proofs.Bytes
import VersionedKeys.Proofs.Rsa.Inverse
import VersionedKeys.Rsa.Oaep

/-!
# Whole messages in padded blocks

The masks of a block come off in the opposite order, and the zero byte in front
keeps a block below the modulus.  So a private key with two different primes
finds the message again: `reversible_of_primes`.
-/

namespace VersionedKeys.Rsa.Oaep

open Digest

@[simp]
theorem length_mask (seed : Bytes) (length : Nat) : (mask seed length).length = length := by
  simp only [mask, List.length_take, List.length_flatMap, length_digest_sha1, List.map_const',
    List.length_range, List.sum_replicate_nat, sha1Size]
  omega

@[simp]
theorem length_labelDigest : labelDigest.length = sha1Size := rfl

/-- Behind the digest of the label, what follows the zeros and the one is the
message. -/
theorem dropZeros_replicate (count : Nat) (message : Bytes) :
    Bytes.dropZeros (List.replicate count 0 ++ 1 :: message) = 1 :: message := by
  induction count with
  | zero => rfl
  | succ count inductionHypothesis =>
      rw [List.replicate_succ, List.cons_append]
      exact inductionHypothesis

theorem length_encode {length : Nat} {seed message : Bytes} (wide : overhead ≤ length)
    (drawn : seed.length = sha1Size) (fits : message.length ≤ capacity length) :
    (encode length seed message).length = length := by
  simp only [encode, List.length_cons, List.length_append, Bytes.length_xor, length_mask,
    length_labelDigest, List.length_replicate, drawn, capacity, overhead, sha1Size] at *
  omega

/-- A seed and some data, each under the mask of the other. -/
def masked (seed data : Bytes) : Bytes :=
  let maskedData := Bytes.xor data (mask seed data.length)
  Bytes.xor seed (mask maskedData seed.length) ++ maskedData

/-- What is behind the digest of the label and its zeros is read off under both
masks. -/
theorem decode?_masked {seed : Bytes} (drawn : seed.length = sha1Size) (count : Nat)
    (message : Bytes) :
    decode? (0 :: masked seed (labelDigest ++ (List.replicate count 0 ++ 1 :: message))) =
      some message := by
  generalize packed : labelDigest ++ (List.replicate count 0 ++ 1 :: message) = data
  have maskedLength (cover : Bytes) :
      (Bytes.xor seed (mask cover seed.length)).length = sha1Size := by simp [drawn]
  have label : data.take sha1Size = labelDigest := by
    rw [← packed, ← length_labelDigest, List.take_left]
  have padded : data.drop sha1Size = List.replicate count 0 ++ 1 :: message := by
    rw [← packed, ← length_labelDigest, List.drop_left]
  simp only [decode?, masked]
  rw [List.take_left' (maskedLength _), List.drop_left' (maskedLength _)]
  rw [maskedLength, ← drawn, Bytes.xor_xor_cancel _ _ (by simp), Bytes.length_xor, length_mask,
    Nat.min_self, Bytes.xor_xor_cancel _ _ (by simp), drawn, label, padded, if_pos rfl,
    dropZeros_replicate]
  rfl

theorem decode?_encode (length : Nat) {seed : Bytes} (drawn : seed.length = sha1Size)
    (message : Bytes) : decode? (encode length seed message) = some message := by
  have found := decode?_masked drawn (capacity length - message.length) message
  rw [← List.append_assoc] at found
  exact found

/-- Decryption with a private key inverts every encryption with its public key. -/
def Reversible (key : PrivateKey) : Prop :=
  ∀ seed message cipher, seed.length = sha1Size →
    encrypt? key.publicKey seed message = some cipher → decrypt? key cipher = some message

theorem toNat_encode_lt {key : PublicKey} {seed message : Bytes} (wide : overhead ≤ key.length)
    (drawn : seed.length = sha1Size) (fits : message.length ≤ capacity key.length) :
    (encode key.length seed message).toNat < key.modulus := by
  have long := length_encode wide drawn fits
  have positive : 0 < overhead := by decide
  obtain ⟨masked, block⟩ : ∃ masked, encode key.length seed message = 0 :: masked := ⟨_, rfl⟩
  rw [block, List.length_cons] at long
  rw [block, Bytes.toNat_cons_zero]
  calc
    Bytes.toNat masked < 256 ^ masked.length := Bytes.toNat_lt masked
    _ ≤ key.modulus := Bytes.pow_le_of_byteLength (by
        change masked.length < key.length
        omega)

/-- A key whose factors are different primes finds every message again. -/
theorem reversible_of_primes {key : PrivateKey} (firstPrime : key.first.Prime)
    (secondPrime : key.second.Prime) (different : key.first ≠ key.second) : Reversible key := by
  intro seed message cipher drawn encrypted
  simp only [encrypt?, Option.ite_none_left_eq_some, Option.some.injEq, not_or,
    Nat.not_lt] at encrypted
  obtain ⟨⟨fits, wide⟩, rfl⟩ := encrypted
  have small := toNat_encode_lt wide drawn fits
  have width : key.publicKey.apply (encode key.publicKey.length seed message).toNat <
      256 ^ key.publicKey.length :=
    (key.apply_lt _).trans (Bytes.lt_pow_byteLength _)
  have block : Bytes.ofNat key.publicKey.length
      (encode key.publicKey.length seed message).toNat =
        encode key.publicKey.length seed message := by
    have digits := Bytes.ofNat_toNat (encode key.publicKey.length seed message)
    rwa [length_encode wide drawn fits] at digits
  rw [decrypt?, if_neg (by simp only [Bytes.length_ofNat]; omega), Bytes.toNat_ofNat,
    Nat.mod_eq_of_lt width, key.root?_apply firstPrime secondPrime different small]
  simp only [Option.bind_eq_bind, Option.bind_some, block, decode?_encode _ drawn]

end VersionedKeys.Rsa.Oaep
