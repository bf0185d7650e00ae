import VersionedKeys.Aes.Gcm
import VersionedKeys.Proofs.Bytes

/-!
# Whole messages in Galois/counter mode

Combining with the key stream is its own inverse, and a tag is accepted only if
it is the tag of the cipher text before it.  So something opens exactly if it is
the encryption of the message it opens to: `decrypt?_eq_some_iff`.
-/

namespace VersionedKeys.Aes.Gcm

@[simp]
theorem length_tag (schedule : Schedule) (nonce associated cipher : Bytes) :
    (tag schedule nonce associated cipher).length = tagSize := rfl

theorem length_keyStream (schedule : Schedule) (nonce : Bytes) (length : Nat) :
    (keyStream schedule nonce length).length = 16 * ((length + 15) / 16) := by
  simp [keyStream, List.length_flatMap, List.map_const', Nat.mul_comm]

@[simp]
theorem length_apply (schedule : Schedule) (nonce message : Bytes) :
    (apply schedule nonce message).length = message.length := by
  rw [apply, Bytes.length_xor, length_keyStream]
  omega

@[simp]
theorem apply_apply (schedule : Schedule) (nonce message : Bytes) :
    apply schedule nonce (apply schedule nonce message) = message := by
  have covered : message.length ≤ (keyStream schedule nonce message.length).length := by
    rw [length_keyStream]
    omega
  rw [apply, length_apply, apply, Bytes.xor_xor_cancel _ _ covered]

@[simp]
theorem length_encrypt (schedule : Schedule) (nonce associated message : Bytes) :
    (encrypt schedule nonce associated message).length = message.length + tagSize := by
  simp [encrypt]

/-- A tagged cipher text stands for a message exactly if it is the encryption of
it. -/
theorem decrypt?_eq_some_iff {schedule : Schedule}
    {nonce associated tagged message : Bytes} :
    decrypt? schedule nonce associated tagged = some message ↔
      tagged = encrypt schedule nonce associated message := by
  constructor
  · intro decrypted
    simp only [decrypt?, Option.ite_none_left_eq_some, Option.ite_none_right_eq_some,
      Option.some.injEq] at decrypted
    rcases decrypted with ⟨-, tagged_eq, rfl⟩
    rw [encrypt, apply_apply, ← tagged_eq, List.take_append_drop]
  · rintro rfl
    have long : ¬ (encrypt schedule nonce associated message).length < tagSize := by
      rw [length_encrypt]
      omega
    have front : (encrypt schedule nonce associated message).length - tagSize =
        (apply schedule nonce message).length := by simp
    simp only [decrypt?, if_neg long, front]
    simp only [encrypt, List.take_left, List.drop_left, if_pos, apply_apply]

@[simp]
theorem decrypt?_encrypt (schedule : Schedule) (nonce associated message : Bytes) :
    decrypt? schedule nonce associated (encrypt schedule nonce associated message) =
      some message :=
  decrypt?_eq_some_iff.mpr rfl

end VersionedKeys.Aes.Gcm
