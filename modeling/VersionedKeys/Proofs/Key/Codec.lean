import VersionedKeys.Proofs.Key.Generation
import VersionedKeys.Proofs.Key.Reading

/-!
# Keys as bytes

Whatever bytes a key is read from, it is stored as bytes that it is read from again, and so is
its public half: `Key.codec`.
-/

namespace VersionedKeys

/-- The type of the public half of a key. -/
def KeyType.half? : KeyType → Option KeyType
  | rsaPrivate => some rsaPublic
  | dsaPrivate => some dsaPublic
  | _ => none

namespace Key

/-- The parts of a symmetric key are short. -/
theorem length_le_of_mem_symmetric {key : Key}
    (symmetric : key.keyType = .aes ∨ key.keyType = .aesAead ∨ key.keyType = .hmacSha1)
    {part : Bytes} (member : part ∈ key.material.parts) : part.length ≤ 32 := by
  have size := key.size_mem_sizes
  obtain ⟨material, acceptable⟩ := key
  cases material with
  | aes aes =>
      have cipherKey := aes.aes.length_le
      have macKey := aes.length_mac
      simp only [Material.parts, List.mem_cons, List.not_mem_nil, or_false] at member
      rcases member with rfl | rfl <;> omega
  | aesAead aes =>
      obtain rfl := List.mem_singleton.mp member
      exact aes.length_le
  | hmacSha1 mac =>
      obtain rfl := List.mem_singleton.mp member
      have width : part.length * 8 = 256 := List.mem_singleton.mp size
      omega
  | _ => simp [keyType, Material.keyType] at symmetric

/-- A private key has a public half, whose parts are among its own. -/
theorem exists_half {key : Key} {publicType : KeyType}
    (isPrivate : key.keyType.half? = some publicType) :
    ∃ half, key.public? = some half ∧ half.keyType = publicType ∧
      ∀ part ∈ half.material.parts, part ∈ key.material.parts := by
  obtain ⟨material, acceptable⟩ := key
  cases material with
  | rsaPrivate rsa =>
      cases isPrivate
      refine ⟨⟨.rsaPublic rsa.publicKey, acceptable⟩, rfl, rfl, ?_⟩
      intro part member
      exact List.mem_append_left _ member
  | dsaPrivate dsa =>
      cases isPrivate
      refine ⟨⟨.dsaPublic dsa.publicKey, acceptable⟩, rfl, rfl, ?_⟩
      intro part member
      exact List.mem_append_left _ member
  | _ => cases isPrivate

/-- A key that is read from bytes whose length has 64 bits is of the type that was asked for and
of one of its sizes, and the bytes it is stored as, which need not be those it was read from,
are read as the same key.  The same goes for its public half, if it is private, under the type
of that half; for every key, however it was made, whose bytes can be counted; and for symmetric
keys that are generated, which succeeds in every size of their type. -/
theorem codec :
    (∀ keyType bytes key, bytes.length < 2 ^ 64 → read keyType bytes = .ok key →
      key.keyType = keyType ∧ key.size ∈ keyType.sizes ∧ read keyType key.toBytes = .ok key ∧
      ∀ publicType, keyType.half? = some publicType →
        ∃ half, key.public? = some half ∧ read publicType half.toBytes = .ok half) ∧
    (∀ key : Key, key.toBytes.length < 2 ^ 64 → read key.keyType key.toBytes = .ok key) ∧
    ∀ keyType size random, keyType = .aes ∨ keyType = .aesAead ∨ keyType = .hmacSha1 →
      size ∈ keyType.sizes →
      ∃ key, (generate keyType size random).1 = .ok key ∧ key.keyType = keyType ∧
        key.size = size ∧ read keyType key.toBytes = .ok key := by
  refine ⟨?_, fun key countable => read_toBytes countable, ?_⟩
  · intro keyType bytes key countable found
    obtain rfl := keyType_of_read found
    have small : ∀ part ∈ key.material.parts, part.length < 2 ^ 64 := by
      intro part member
      exact (Material.length_le_of_read (read_eq_ok_iff.mp found) member).trans_lt countable
    refine ⟨rfl, key.size_mem_sizes, read_toBytes_of_small small, ?_⟩
    intro publicType isPrivate
    obtain ⟨half, halved, rfl, among⟩ := exists_half isPrivate
    refine ⟨half, halved, read_toBytes_of_small ?_⟩
    intro part member
    exact small part (among part member)
  · intro keyType size random symmetric allowed
    obtain ⟨key, made, width⟩ := exists_generate_of_mem symmetric allowed random
    obtain rfl := keyType_of_generate made
    refine ⟨key, made, rfl, width, read_toBytes_of_small ?_⟩
    intro part member
    exact (length_le_of_mem_symmetric symmetric member).trans_lt (by decide)

end Key

namespace Sample

/-- A private key of DSA whose large modulus is a power of two. -/
def squareHalf : Dsa.PublicKey where
  prime := 2 ^ 1023
  order := 2
  generator := 1
  value := 2 ^ 1023 - 1
  sound := by decide +kernel

def squareKey : Key := ⟨.dsaPrivate ⟨squareHalf, 1, by decide⟩, by decide +kernel⟩

/-- The parts of the key, with zeros in front of its numbers. -/
def squareParts : List Bytes :=
  squareKey.material.parts.map (0 :: ·)

theorem read_squareParts :
    Key.read .dsaPrivate (Cbor.writeByteStrings squareParts) = .ok squareKey := by
  have small : ∀ part ∈ squareParts, part.length < 2 ^ 64 := by decide +kernel
  have counted : squareParts.length = KeyType.dsaPrivate.partCount := by decide +kernel
  rw [Key.read_eq_ok_iff, Material.read_writeByteStrings (by decide +kernel) small counted]
  simp only [squareParts, squareKey, Material.parts, Dsa.PublicKey.parts, List.cons_append,
    List.nil_append, List.map_cons, List.map_nil, Material.ofParts, Material.dsaPublicKey,
    Bytes.toNat_cons_zero, Bytes.toNat_ofNatMinimal, Dsa.PublicKey.ofNumbers_self,
    Outcome.mapError_ok, Outcome.ok_bind]
  rfl

end Sample

theorem Key.codec_sample :
    (Cbor.writeByteStrings Sample.squareParts ≠ Sample.squareKey.toBytes ∧
      Key.read .dsaPrivate Sample.squareKey.toBytes = .ok Sample.squareKey ∧
      ∃ half, Sample.squareKey.public? = some half ∧ Key.read .dsaPublic half.toBytes = .ok half ∧
        Key.read half.keyType half.toBytes = .ok half) ∧
    ∃ key, (Key.generate .aes 192 {}).1 = .ok key ∧ Key.read .aes key.toBytes = .ok key := by
  obtain ⟨restored, stored, generated⟩ := Key.codec
  obtain ⟨-, -, again, halves⟩ := restored .dsaPrivate _ _ (by decide +kernel)
    Sample.read_squareParts
  obtain ⟨half, halved, found⟩ := halves .dsaPublic rfl
  have countable : half.toBytes.length < 2 ^ 64 := by
    cases halved
    decide +kernel
  obtain ⟨key, made, -, -, readAgain⟩ := generated .aes 192 {} (.inl rfl) (by decide)
  exact ⟨⟨by decide +kernel, again, half, halved, found, stored half countable⟩, key, made,
    readAgain⟩

end VersionedKeys
