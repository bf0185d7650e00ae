import VersionedKeys.Proofs.Bytes
import VersionedKeys.Proofs.Key.Parts

/-!
# What is hashed of a key

Parts that stand after their lengths tell the parts and how many they are:
`KeyHash.lengthPrefixed_inj`.  Of an AES key and its HMAC key only the first stands after its
length, but the second is what is left.  It is never empty, so that no key in Galois/counter mode
is hashed as the same bytes: `KeyHash.preimages_injective`.
-/

namespace VersionedKeys.KeyHash

theorem lengthPrefixed_cons (part : Bytes) (parts : List Bytes) :
    lengthPrefixed (part :: parts) =
      Bytes.ofNat 4 part.length ++ (part ++ lengthPrefixed parts) := by
  rw [lengthPrefixed, List.flatMap_cons, List.append_assoc]
  rfl

theorem lengthPrefixed_cons_ne_nil (part : Bytes) (parts : List Bytes) :
    lengthPrefixed (part :: parts) ≠ [] := by
  rw [lengthPrefixed_cons]
  intro empty
  have width := congrArg List.length (List.append_eq_nil_iff.mp empty).1
  rw [Bytes.length_ofNat] at width
  cases width

/-- Short parts after their lengths tell what the parts are. -/
theorem lengthPrefixed_inj {left right : List Bytes}
    (leftShort : ∀ part ∈ left, part.length < 2 ^ 32)
    (rightShort : ∀ part ∈ right, part.length < 2 ^ 32) :
    lengthPrefixed left = lengthPrefixed right ↔ left = right := by
  refine ⟨fun same => ?_, congrArg lengthPrefixed⟩
  -- The length in front tells the first parts, and what follows them is shorter on both sides.
  induction left generalizing right with
  | nil =>
      cases right with
      | nil => rfl
      | cons other others => exact absurd same.symm (lengthPrefixed_cons_ne_nil other others)
  | cons part parts inductionHypothesis =>
      cases right with
      | nil => exact absurd same (lengthPrefixed_cons_ne_nil part parts)
      | cons other others =>
          rw [List.forall_mem_cons] at leftShort rightShort
          rw [lengthPrefixed_cons, lengthPrefixed_cons,
            Bytes.append_ofNat_length_inj leftShort.1 rightShort.1] at same
          rw [same.1, inductionHypothesis leftShort.2 rightShort.2 same.2]

section Wrapping

theorem lengthPrefixed_replicate_nil (count : Nat) :
    lengthPrefixed (List.replicate count []) = List.replicate (4 * count) 0 := by
  induction count with
  | zero => rfl
  | succ count inductionHypothesis =>
      have front : Bytes.ofNat 4 ([] : Bytes).length = List.replicate 4 0 := rfl
      rw [List.replicate_succ, lengthPrefixed_cons, List.nil_append, inductionHypothesis, front,
        List.replicate_append_replicate, Nat.mul_succ, Nat.add_comm]

/-- A length that does not fit in four bytes is told as its remainder, and many empty parts look
like one long part. -/
theorem lengthPrefixed_replicate_zero {length count : Nat} (wraps : 2 ^ 32 ∣ length)
    (same : 4 + length = 4 * count) :
    lengthPrefixed [List.replicate length 0] = lengthPrefixed (List.replicate count []) := by
  have front : Bytes.ofNat 4 length = List.replicate 4 0 := by
    rw [← Bytes.ofNat_mod, show 256 ^ 4 = 2 ^ 32 from rfl, Nat.mod_eq_zero_of_dvd wraps]
    rfl
  rw [lengthPrefixed_cons, List.length_replicate, front, lengthPrefixed_replicate_nil, ← same,
    List.replicate_add]
  exact congrArg (List.replicate 4 0 ++ ·) (List.append_nil _)

/-- So the bound on the lengths of the parts cannot be spared. -/
theorem exists_lengthPrefixed_eq :
    ∃ left right, left ≠ right ∧ lengthPrefixed left = lengthPrefixed right := by
  refine ⟨_, _, ?_, lengthPrefixed_replicate_zero (Nat.dvd_refl _)
    (show 4 + 2 ^ 32 = 4 * (2 ^ 30 + 1) by decide)⟩
  intro same
  have counts := congrArg List.length same
  rw [List.length_singleton, List.length_replicate] at counts
  omega

end Wrapping

/-- What is hashed of a key tells its parts.  This holds of parts that stand after their lengths,
and of an AES key and the HMAC key that belongs to it, and the bytes of these are hashed of no key
in Galois/counter mode. -/
theorem preimages_injective :
    (∀ left right : List Bytes, (∀ part ∈ left, part.length < 2 ^ 32) →
      (∀ part ∈ right, part.length < 2 ^ 32) →
      (lengthPrefixed left = lengthPrefixed right ↔ left = right)) ∧
    (∀ left right : AesHmacKey,
      (Material.aes left).identity = (Material.aes right).identity ↔
        left.aes = right.aes ∧ left.mac = right.mac) ∧
    ∀ (aes : AesHmacKey) (aead : Aes.Key),
      (Material.aes aes).identity ≠ (Material.aesAead aead).identity := by
  have short (key : Aes.Key) : key.bytes.length < 2 ^ 32 := key.length_le.trans_lt (by decide)
  refine ⟨?_, ?_, ?_⟩
  · intro left right leftShort rightShort
    exact lengthPrefixed_inj leftShort rightShort
  · intro left right
    rw [Material.identity, Material.identity, List.append_assoc, List.append_assoc,
      Bytes.append_ofNat_length_inj (short _) (short _), Aes.Key.mk.injEq]
  · intro aes aead same
    rw [Material.identity, Material.identity, lengthPrefixed_cons, List.append_assoc,
      Bytes.append_ofNat_length_inj (short _) (short _)] at same
    have empty := congrArg List.length same.2
    rw [aes.length_mac] at empty
    cases empty

/-- Where one part ends and the next begins makes a difference, and so do a part without bytes and
one byte of an HMAC key. -/
theorem preimages_injective_sample :
    lengthPrefixed [[97, 98], [99]] ≠ lengthPrefixed [[97], [98, 99]] ∧
    lengthPrefixed [[], []] ≠ lengthPrefixed [[]] ∧
    (Material.aes ⟨⟨List.replicate 16 1, .inl rfl⟩, List.replicate 32 2, rfl⟩).identity ≠
      (Material.aes ⟨⟨List.replicate 16 1, .inl rfl⟩, 3 :: List.replicate 31 2, rfl⟩).identity ∧
    (Material.aes ⟨⟨List.replicate 16 1, .inl rfl⟩, List.replicate 32 2, rfl⟩).identity ≠
      (Material.aesAead ⟨List.replicate 16 1, .inl rfl⟩).identity := by
  obtain ⟨listed, paired, apart⟩ := preimages_injective
  refine ⟨fun same => ?_, fun same => ?_, fun same => ?_, apart _ _⟩
  · cases (listed _ _ (by decide) (by decide)).mp same
  · cases (listed _ _ (by decide) (by decide)).mp same
  · cases ((paired _ _).mp same).2

end VersionedKeys.KeyHash
