import VersionedKeys.Proofs.Cbor.Truncation
import VersionedKeys.Proofs.PasswordStore

/-!
# Stores as bytes

A store is read back from its bytes, and no proper beginning of them can be decoded
(`PasswordStore.undecodable_of_cut`).  Whatever is read has at least one iteration.  With the
round trip of the encryption this is `PasswordStore.round_trips`.
-/

namespace VersionedKeys

namespace PasswordStore

open Cbor

/-- The items are read one after the other, so the input ends within one of them. -/
theorem undecodable_of_cut {store : PasswordStore} (saltPossible : store.salt.length ≤ maxCapacity)
    (keyPossible : store.key.length ≤ maxCapacity) {front back : Bytes}
    (cut : front ++ back = store.toBytes) (missing : back ≠ []) : Undecodable (ofBytes front) := by
  have ivPossible : store.iv.toBytes.length ≤ maxCapacity := by
    rw [Block.length_toBytes]
    decide
  have small : maxCapacity < 2 ^ 64 := by decide
  have inRange : ¬ UInt32.size ≤ store.iterations.toUInt64.toNat :=
    Nat.not_le.mpr store.iterations.toNat_lt
  simp only [toBytes, List.append_assoc] at cut
  refine Undecodable.map ?_ _
  refine undecodable_bind (needsAll_readArray _ (by decide))
    (fun rest => readArray_writeArray _ rest _ (by decide)) cut fun front cut => ?_
  refine undecodable_bind (needsAll_readText _ (Tagged.length_encode_tag_lt store.cipher))
    (fun rest => Tagged.readText_writeText_tag store.cipher _ rest _) cut fun front cut => ?_
  simp only [Tagged.parse_tag, Outcome.ok_bind]
  refine undecodable_bind (needsAll_readText _ (Tagged.length_encode_tag_lt store.hash))
    (fun rest => Tagged.readText_writeText_tag store.hash _ rest _) cut fun front cut => ?_
  simp only [Tagged.parse_tag, Outcome.ok_bind]
  refine undecodable_bind (needsAll_readNumber _ store.iterations.toUInt64)
    (fun rest => readNumber_writeNumber _ rest _ _) cut fun front cut => ?_
  simp only [if_neg inRange]
  refine undecodable_bind (needsAll_readBytes _ saltPossible)
    (fun rest => readBytes_writeBytes _ rest _ (saltPossible.trans_lt small)) cut
    fun front cut => ?_
  refine undecodable_bind (needsAll_readBytes _ ivPossible)
    (fun rest => readBytes_writeBytes _ rest _ (ivPossible.trans_lt small)) cut fun front cut => ?_
  simp only [Block.ofBytes?_toBytes]
  exact (needsAll_readBytes _ keyPossible front back _ cut missing).bind _

/-- Nothing that has no iterations is read. -/
theorem iterations_ne_zero_of_read {reader : Reader} {found : PasswordStore × Reader}
    (succeeds : read reader = .ok found) : found.1.iterations ≠ 0 := by
  obtain ⟨reader, -, succeeds⟩ := Outcome.bind_eq_ok.mp succeeds
  obtain ⟨⟨cipher, reader⟩, -, succeeds⟩ := Outcome.bind_eq_ok.mp succeeds
  obtain ⟨cipher, -, succeeds⟩ := Outcome.bind_eq_ok.mp succeeds
  obtain ⟨⟨hash, reader⟩, -, succeeds⟩ := Outcome.bind_eq_ok.mp succeeds
  obtain ⟨hash, -, succeeds⟩ := Outcome.bind_eq_ok.mp succeeds
  obtain ⟨⟨iterations, reader⟩, -, succeeds⟩ := Outcome.bind_eq_ok.mp succeeds
  dsimp only at succeeds
  split at succeeds
  · cases succeeds
  · next inRange =>
      obtain ⟨⟨salt, reader⟩, -, succeeds⟩ := Outcome.bind_eq_ok.mp succeeds
      obtain ⟨⟨iv, reader⟩, -, succeeds⟩ := Outcome.bind_eq_ok.mp succeeds
      dsimp only at succeeds
      split at succeeds
      · cases succeeds
      · obtain ⟨⟨key, reader⟩, -, succeeds⟩ := Outcome.bind_eq_ok.mp succeeds
        dsimp only at succeeds
        split at succeeds
        · cases succeeds
        · next positive =>
            cases succeeds
            intro zero
            refine positive (UInt64.toNat_inj.mp ?_)
            have value := congrArg UInt32.toNat zero
            rw [UInt64.toNat_toUInt32, Nat.mod_eq_of_lt (Nat.lt_of_not_le inRange)] at value
            exact value

theorem iterations_ne_zero_of_ofBytes {bytes : Bytes} {store : PasswordStore}
    (found : ofBytes bytes = .ok store) : store.iterations ≠ 0 := by
  obtain ⟨⟨store, reader⟩, succeeds, rfl⟩ := Outcome.map_eq_ok.mp found
  exact iterations_ne_zero_of_read succeeds

/-- Key data of any length is encrypted in every way and recovered under the same password;
only zero iterations are refused.  A store whose strings have lengths of 64 bits is read back
from its bytes, whatever follows them, unless it has no iterations, and every proper beginning
of its bytes is undecodable, if its strings are no longer than a buffer can be.  Whatever is read,
from any bytes, has at least one iteration, and no more than 32 bits can count. -/
theorem round_trips :
    (∀ cipher hash data password iterations random, iterations ≠ 0 →
      ∃ store, (encryptWith cipher hash data password iterations random).1 = .ok store ∧
        store.decrypt password = .ok data) ∧
    (∀ cipher hash data password random,
      (encryptWith cipher hash data password 0 random).1 = .error (.keySet .noIterations)) ∧
    (∀ store : PasswordStore, store.salt.length < 2 ^ 64 → store.key.length < 2 ^ 64 →
      (∀ rest, ofBytes (store.toBytes ++ rest) =
        if store.iterations = 0 then .error (.keySet .noIterations) else .ok store) ∧
      (store.salt.length ≤ maxCapacity → store.key.length ≤ maxCapacity →
        ∀ front back, front ++ back = store.toBytes → back ≠ [] →
          ∃ element fault, ofBytes front = .error (.decoding element fault))) ∧
    ∀ bytes store, ofBytes bytes = .ok store →
      1 ≤ store.iterations.toNat ∧ store.iterations.toNat ≤ 2 ^ 32 - 1 := by
  refine ⟨?_, fun cipher hash data password random => rfl, ?_, ?_⟩
  · intro cipher hash data password iterations random some
    cases made : (encryptWith cipher hash data password iterations random).1 with
    | error error => exact absurd (fails_encryptWith.mp ⟨error, made⟩) some
    | ok store => exact ⟨store, rfl, decrypt_of_encryptWith made⟩
  · intro store saltSmall keySmall
    refine ⟨ofBytes_toBytes_append saltSmall keySmall, ?_⟩
    intro saltPossible keyPossible front back cut missing
    exact undecodable_of_cut saltPossible keyPossible cut missing
  · intro bytes store found
    have some := iterations_ne_zero_of_ofBytes found
    have bound := store.iterations.toNat_lt
    have positive : store.iterations.toNat ≠ 0 := fun zero => some (UInt32.toNat_inj.mp zero)
    omega

end PasswordStore

namespace Sample

/-- A store with a short salt, and nothing encrypted in it. -/
def passwordStore : PasswordStore := ⟨.aes128, .hmacSha256, 1, [1, 2], .zero, []⟩

end Sample

theorem PasswordStore.round_trips_sample :
    (∃ store, (encryptWith .aes128 .hmacSha1 [104, 105] "secret" 2 {}).1 = .ok store ∧
      store.decrypt "secret" = .ok [104, 105]) ∧
    ofBytes (Sample.passwordStore.toBytes ++ [7]) = .ok Sample.passwordStore ∧
    (∃ element fault, ofBytes (Sample.passwordStore.toBytes.take 20) =
      .error (.decoding element fault)) ∧
    1 ≤ Sample.passwordStore.iterations.toNat := by
  obtain ⟨encrypted, -, stored, limited⟩ := round_trips
  obtain ⟨restored, refused⟩ := stored Sample.passwordStore (by decide) (by decide)
  refine ⟨encrypted .aes128 .hmacSha1 [104, 105] "secret" 2 {} (by decide), restored [7],
    refused (by decide) (by decide) _ _ (List.take_append_drop 20 _) (by decide), ?_⟩
  exact (limited (Sample.passwordStore.toBytes ++ [7]) _ (restored [7])).1

end VersionedKeys
