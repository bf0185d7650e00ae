import VersionedKeys.PasswordStore
import VersionedKeys.Proofs.Bytes
import VersionedKeys.Proofs.Cbor.Items
import VersionedKeys.Proofs.Outcomes
import VersionedKeys.Proofs.Streaming.Whole
import VersionedKeys.Proofs.Tagged

/-!
# Encryption under a password

A key that is derived from a password has the length that was asked for, so that
it fits its cipher.  The number of iterations is then all that can be wrong with
an encryption: `PasswordStore.fails_encrypt`.  The store is read back from its bytes
(`PasswordStore.ofBytes_toBytes`), and the same password decrypts it
(`PasswordStore.decrypt_of_encryptWith`).
-/

namespace VersionedKeys

namespace Digest.HashFunction

/-- The digests of a hash function have a common length. -/
structure HasSize {Chaining : Type} (hash : HashFunction Chaining) (size : Nat) : Prop where
  positive : 0 < size
  length_output : ∀ chaining, (hash.output chaining).length = size

theorem hasSize_sha1 : sha1.HasSize 20 := ⟨by decide, fun _ => rfl⟩

theorem hasSize_sha256 : sha256.HasSize 32 := ⟨by decide, fun _ => rfl⟩

section HasSize

variable {Chaining : Type} {hash : HashFunction Chaining} {size : Nat}
  (hasSize : hash.HasSize size)

include hasSize

theorem HasSize.length_finishHmac (mac : Hmac Chaining) : (hash.finishHmac mac).length = size :=
  hasSize.length_output _

theorem HasSize.length_stretch (mac : Hmac Chaining) (rounds : Nat) {previous total : Bytes}
    (length : total.length = size) : (hash.stretch mac rounds previous total).length = size := by
  induction rounds generalizing previous total with
  | zero => exact length
  | succ rounds inductionHypothesis =>
      apply inductionHypothesis
      rw [Bytes.length_xor, length, hasSize.length_finishHmac, Nat.min_self]

theorem HasSize.length_pbkdf2 (password salt : Bytes) (rounds length : Nat) :
    (hash.pbkdf2 password salt rounds length).length = length := by
  have blocks : length ≤ (length + size - 1) / size * size := by
    have positive := hasSize.positive
    have quotient := Nat.div_add_mod' (length + size - 1) size
    have remainder := Nat.mod_lt (length + size - 1) positive
    omega
  simp only [pbkdf2, hasSize.length_output]
  rw [List.length_take, List.length_flatMap, Nat.min_eq_left]
  simpa [hasSize.length_stretch, hasSize.length_finishHmac, List.map_const'] using blocks

end HasSize

end Digest.HashFunction

@[simp]
theorem PasswordHash.length_derive (hash : PasswordHash) (password salt : Bytes)
    (rounds length : Nat) : (hash.derive password salt rounds length).length = length := by
  cases hash with
  | hmacSha1 => exact Digest.HashFunction.hasSize_sha1.length_pbkdf2 password salt rounds length
  | hmacSha256 =>
      exact Digest.HashFunction.hasSize_sha256.length_pbkdf2 password salt rounds length

instance : Tagged.Lawful PasswordCipher :=
  ⟨fun cipher => by cases cipher; decide, fun cipher => by cases cipher; decide⟩

instance : Tagged.Lawful PasswordHash :=
  ⟨fun hash => by cases hash <;> decide, fun hash => by cases hash <;> decide⟩

namespace PasswordStore

open Streaming

/-- A derived key fits the cipher it is derived for. -/
theorem exists_ofBytes?_derivedKey (cipher : PasswordCipher) (hash : PasswordHash)
    (iterations : UInt32) (salt : Bytes) (password : String) :
    ∃ key, Aes.Key.ofBytes? (derivedKey cipher hash iterations salt password) = some key := by
  have length : (derivedKey cipher hash iterations salt password).length = 16 := by
    cases cipher
    exact PasswordHash.length_derive _ _ _ _ _
  exact ⟨_, by rw [Aes.Key.ofBytes?, dif_pos (.inl length)]⟩

theorem fails_encryptWith {cipher : PasswordCipher} {hash : PasswordHash} {data : Bytes}
    {password : String} {iterations : UInt32} {random : Random} :
    Outcome.Fails (encryptWith cipher hash data password iterations random).1 ↔
      iterations = 0 := by
  rw [encryptWith]
  by_cases none : iterations = 0
  · simp [none]
  · obtain ⟨key, fits⟩ := exists_ofBytes?_derivedKey cipher hash iterations
      (random.draw saltSize).1 password
    simp [none, CbcEncryptor.start, fits, CbcEncryptor.write, CbcEncryptor.finish,
      CbcEncryptor.advance]

/-- Encryption under a password fails for no other reason than that there are to be
no iterations. -/
theorem fails_encrypt {data : Bytes} {password : String} {iterations : UInt32}
    {random : Random} :
    Outcome.Fails (encrypt data password iterations random).1 ↔ iterations = 0 :=
  fails_encryptWith

/-- What an encryptor puts out for data and then at its end, if nothing goes before. -/
theorem advance_append_padding (schedule : Aes.Schedule) (iv : Block) (data : Bytes) :
    let stream : CbcEncryptor := ⟨schedule, [], iv, [], false⟩
    (stream.advance data).2 ++
        ((stream.advance data).1.advance
          (Aes.Cbc.padding (stream.advance data).1.pending.length)).2 =
      Aes.Cbc.encrypt schedule iv data := by
  intro stream
  rw [CbcEncryptor.padding_advance]
  exact (congrArg Prod.snd (stream.advance_append _ _)).symm

/-- What is in a store: the data is encrypted with the derived key. -/
theorem encryptWith_eq_ok {cipher : PasswordCipher} {hash : PasswordHash} {data : Bytes}
    {password : String} {iterations : UInt32} {random : Random} {store : PasswordStore}
    (made : (encryptWith cipher hash data password iterations random).1 = .ok store) :
    ∃ salt iv key,
      Aes.Key.ofBytes? (derivedKey cipher hash iterations salt password) = some key ∧
      salt.length = saltSize ∧ iterations ≠ 0 ∧
      store = ⟨cipher, hash, iterations, salt, iv, Aes.Cbc.encrypt (.ofKey key) iv data⟩ := by
  by_cases none : iterations = 0
  · rw [encryptWith, if_pos none] at made
    cases made
  · obtain ⟨key, fits⟩ := exists_ofBytes?_derivedKey cipher hash iterations
      (random.draw saltSize).1 password
    have length : (random.draw saltSize).1.length = saltSize := Random.length_draw _ _
    have output := advance_append_padding (.ofKey key)
      (Block.ofBytes ((random.draw saltSize).2.draw Block.size).1) data
    simp only [encryptWith, if_neg none, CbcEncryptor.start, fits, if_true, Outcome.ok_bind,
      CbcEncryptor.write, CbcEncryptor.finish, Bool.false_eq_true, if_false] at made
    exact ⟨_, _, key, fits, length, none, by rw [← output]; exact (Except.ok.inj made).symm⟩

/-- Under the same password, the data is found again. -/
theorem decrypt_of_encryptWith {cipher : PasswordCipher} {hash : PasswordHash} {data : Bytes}
    {password : String} {iterations : UInt32} {random : Random} {store : PasswordStore}
    (made : (encryptWith cipher hash data password iterations random).1 = .ok store) :
    store.decrypt password = .ok data := by
  obtain ⟨salt, iv, key, fits, -, -, rfl⟩ := encryptWith_eq_ok made
  have opened := CbcDecryptor.final_advance_eq_ok.mpr
    (rfl : Aes.Cbc.encrypt (.ofKey key) iv data = Aes.Cbc.encrypt (.ofKey key) iv data)
  obtain ⟨back, ended, joined⟩ := Outcome.map_eq_ok.mp opened
  simp only [decrypt, CbcDecryptor.start, fits, Outcome.ok_bind, CbcDecryptor.write,
    Bool.false_eq_true, if_false, List.nil_append, CbcDecryptor.finish, ended, joined]

/-- A store is read back from its bytes, whatever follows them, unless nothing could have been
encrypted in it. -/
theorem ofBytes_toBytes_append {store : PasswordStore} (saltSmall : store.salt.length < 2 ^ 64)
    (keySmall : store.key.length < 2 ^ 64) (rest : Bytes) :
    ofBytes (store.toBytes ++ rest) =
      if store.iterations = 0 then .error (.keySet .noIterations) else .ok store := by
  have ivSmall : store.iv.toBytes.length < 2 ^ 64 := by
    rw [Block.length_toBytes]
    decide
  have inRange : ¬ UInt32.size ≤ store.iterations.toUInt64.toNat :=
    Nat.not_le.mpr store.iterations.toNat_lt
  have zero : store.iterations.toUInt64 = 0 ↔ store.iterations = 0 := by
    rw [← UInt64.toNat_inj, ← UInt32.toNat_inj]
    exact Iff.rfl
  rw [ofBytes, read, toBytes, Cbor.Reader.ofBytes]
  simp only [List.append_assoc, Cbor.readArray_writeArray _ _ _ (show 6 < 2 ^ 64 by decide),
    Outcome.ok_bind, Tagged.readText_writeText_tag, Tagged.parse_tag,
    Cbor.readNumber_writeNumber, if_neg inRange, Cbor.readBytes_writeBytes _ _ _ saltSmall,
    Cbor.readBytes_writeBytes _ _ _ ivSmall, Block.ofBytes?_toBytes,
    Cbor.readBytes_writeBytes _ _ _ keySmall, zero, UInt32.toUInt32_toUInt64]
  split <;> rfl

theorem ofBytes_toBytes {store : PasswordStore} (some : store.iterations ≠ 0)
    (saltSmall : store.salt.length < 2 ^ 64) (keySmall : store.key.length < 2 ^ 64) :
    ofBytes store.toBytes = .ok store := by
  have found := ofBytes_toBytes_append saltSmall keySmall []
  rwa [List.append_nil, if_neg some] at found

end PasswordStore

end VersionedKeys
