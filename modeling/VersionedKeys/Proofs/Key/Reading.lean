import VersionedKeys.Proofs.Key.Parts

/-!
# Keys that are read back

A key of any type is read back from the bytes it is stored as: `Key.read_toBytes`.  What is
read has parts that are no longer than the input, so that it can be stored again.  Reading comes
back unless one of the parts announces more than a buffer can hold: `Key.read_eq_stopped_iff`.
-/

namespace VersionedKeys

theorem AesHmacKey.returns_ofParts (aes mac : Bytes) : Outcome.Returns (ofParts aes mac) := by
  rw [ofParts]
  split
  · simp
  · split <;> simp

namespace Material

section Written

variable {parts : List Bytes} (few : parts.length < 2 ^ 64)

include few

theorem read_writeByteStrings {keyType : KeyType} (small : ∀ part ∈ parts, part.length < 2 ^ 64)
    (counted : parts.length = keyType.partCount) :
    read keyType (Cbor.writeByteStrings parts) = ofParts keyType parts := by
  have decoded := Cbor.decodeByteStrings_writeByteStrings keyType.element [] few small
  rw [List.append_nil] at decoded
  rw [read_eq, ← counted, decoded, Outcome.ok_bind]

theorem read_writeByteStrings_of_ne {keyType : KeyType}
    (different : parts.length ≠ keyType.partCount) :
    read keyType (Cbor.writeByteStrings parts) =
      .error (.malformed (.expectedItems keyType.element keyType.partCount)) := by
  have decoded :=
    Cbor.decodeByteStrings_writeByteStrings_of_ne keyType.element [] few different
  rw [List.append_nil] at decoded
  rw [read_eq, decoded, Outcome.error_bind]

end Written

theorem length_parts_lt (material : Material) : material.parts.length < 2 ^ 64 := by
  rw [length_parts]
  cases material.keyType <;> decide

/-- Material is read back from its parts, unless it is a public key that is too large to be
read by itself. -/
theorem read_writeByteStrings_parts {material : Material}
    (small : ∀ part ∈ material.parts, part.length < 2 ^ 64)
    (readable : ∀ rsa, material = .rsaPublic rsa → Bytes.bitLength rsa.modulus ≤ 4096) :
    read material.keyType (Cbor.writeByteStrings material.parts) = .ok material := by
  rw [read_writeByteStrings material.length_parts_lt small material.length_parts,
    ofParts_parts readable]

theorem keyType_of_read {keyType : KeyType} {bytes : Bytes} {material : Material}
    (found : read keyType bytes = .ok material) : material.keyType = keyType := by
  rw [read_eq] at found
  obtain ⟨parts, -, made⟩ := Outcome.bind_eq_ok.mp found
  exact (stores_of_ofParts made).1

theorem length_le_of_read {keyType : KeyType} {bytes : Bytes} {material : Material}
    (found : read keyType bytes = .ok material) {part : Bytes} (member : part ∈ material.parts) :
    part.length ≤ bytes.length := by
  rw [read_eq] at found
  obtain ⟨parts, decoded, made⟩ := Outcome.bind_eq_ok.mp found
  obtain ⟨other, present, length⟩ := (stores_of_ofParts made).2.exists_length_le member
  exact length.trans (Cbor.length_le_of_mem_decodeByteStrings decoded present)

theorem returns_dsaPublicKey (prime order generator value : Bytes) :
    Outcome.Returns (dsaPublicKey prime order generator value) :=
  Outcome.returns_mapError (by simp)

theorem returns_ofParts (keyType : KeyType) (parts : List Bytes) :
    Outcome.Returns (ofParts keyType parts) := by
  cases keyType with
  | aes =>
      simp only [ofParts]
      split
      · exact (AesHmacKey.returns_ofParts _ _).map _
      · simp
  | hmacSha1 =>
      simp only [ofParts]
      split <;> simp
  | aesAead =>
      simp only [ofParts, Aes.Key.ofBytes]
      split
      · refine Outcome.Returns.map ?_ _
        split <;> simp
      · simp
  | rsaPrivate | rsaPublic =>
      simp only [ofParts]
      split
      · exact (Outcome.returns_mapError (by simp)).map _
      · simp
  | dsaPrivate =>
      simp only [ofParts]
      split
      · refine (returns_dsaPublicKey _ _ _ _).bind fun publicKey => ?_
        exact (Outcome.returns_mapError (by simp)).map _
      · simp
  | dsaPublic =>
      simp only [ofParts]
      split
      · exact (returns_dsaPublicKey _ _ _ _).map _
      · simp

end Material

namespace Key

@[simp]
theorem ofMaterial_material (key : Key) : ofMaterial key.material = .ok key :=
  dif_pos key.acceptable

theorem ofMaterial_eq_ok_iff {material : Material} {key : Key} :
    ofMaterial material = .ok key ↔ key.material = material := by
  constructor
  · intro found
    rw [ofMaterial] at found
    split at found
    · cases found
      rfl
    · cases found
  · rintro rfl
    exact ofMaterial_material key

theorem read_eq_ok_iff {keyType : KeyType} {bytes : Bytes} {key : Key} :
    read keyType bytes = .ok key ↔ Material.read keyType bytes = .ok key.material := by
  simp only [read, Outcome.bind_eq_ok, ofMaterial_eq_ok_iff]
  exact exists_eq_right'

theorem returns_ofMaterial (material : Material) : Outcome.Returns (ofMaterial material) := by
  rw [ofMaterial]
  split <;> simp

/-- Reading a key does not come back exactly if one of its parts announces too much. -/
theorem read_eq_stopped_iff {keyType : KeyType} {bytes : Bytes} {reason : Stop} :
    read keyType bytes = .error (.stopped reason) ↔
      reason = .capacityOverflow ∧ Cbor.Overflows keyType.partCount bytes := by
  have made (parts : List Bytes) :
      Outcome.Returns (Material.ofParts keyType parts >>= ofMaterial) :=
    (Material.returns_ofParts keyType parts).bind returns_ofMaterial
  rw [read, Material.read_eq, bind_assoc, Outcome.bind_eq_stopped_iff,
    Cbor.decodeByteStrings_eq_stopped_iff, or_iff_left]
  rintro ⟨parts, -, stopped⟩
  exact made parts reason stopped

theorem keyType_of_read {keyType : KeyType} {bytes : Bytes} {key : Key}
    (found : read keyType bytes = .ok key) : key.keyType = keyType :=
  Material.keyType_of_read (read_eq_ok_iff.mp found)

theorem size_mem_sizes (key : Key) : key.size ∈ key.keyType.sizes := by
  have acceptable : key.keyType.isAcceptableSize key.size = true := key.acceptable
  simpa [KeyType.isAcceptableSize] using acceptable

theorem size_le (key : Key) : key.size ≤ 4096 := by
  have member := key.size_mem_sizes
  cases keyType : key.keyType <;>
    simp only [keyType, KeyType.sizes, List.mem_cons, List.not_mem_nil, or_false] at member <;>
    omega

theorem length_toBytes_le {key : Key} (symmetric : key.keyType = .aes ∨ key.keyType = .aesAead) :
    key.toBytes.length ≤ 69 := by
  rw [toBytes]
  cases material : key.material with
  | aes aes =>
      have cipherKey := aes.aes.length_le
      have macKey := aes.length_mac
      have first := Cbor.length_writeBytes_le aes.aes.bytes (by omega)
      have second := Cbor.length_writeBytes_le aes.mac (by omega)
      have count : (Cbor.writeArray 2).length = 1 := rfl
      simp only [Material.parts, Cbor.writeByteStrings, List.length_cons, List.length_nil,
        List.flatMap_cons, List.flatMap_nil, List.length_append, count]
      omega
  | aesAead aes =>
      have length := aes.length_le
      have only := Cbor.length_writeBytes_le aes.bytes (by omega)
      have count : (Cbor.writeArray 1).length = 1 := rfl
      simp only [Material.parts, Cbor.writeByteStrings, List.length_cons, List.length_nil,
        List.flatMap_cons, List.flatMap_nil, List.length_append, count]
      omega
  | _ => simp [keyType, material, Material.keyType] at symmetric

theorem length_le_of_mem_parts {key : Key} {part : Bytes} (member : part ∈ key.material.parts) :
    part.length ≤ key.toBytes.length := by
  obtain ⟨before, after, equality⟩ := List.append_of_mem member
  rw [toBytes, Cbor.writeByteStrings, equality, List.flatMap_append, List.flatMap_cons,
    Cbor.writeBytes]
  simp only [List.length_append]
  omega

/-- The modulus of a public key of RSA is not too large for it to be read by itself. -/
theorem bitLength_modulus_le {key : Key} {rsa : Rsa.PublicKey}
    (material : key.material = .rsaPublic rsa) : Bytes.bitLength rsa.modulus ≤ 4096 := by
  have size : Bytes.byteLength rsa.modulus * 8 ≤ 4096 := by
    have bound := key.size_le
    rwa [Key.size, material] at bound
  rw [Bytes.byteLength] at size
  omega

/-- A key is read back from its bytes, if each of its parts can be counted. -/
theorem read_toBytes_of_small {key : Key}
    (small : ∀ part ∈ key.material.parts, part.length < 2 ^ 64) :
    read key.keyType key.toBytes = .ok key :=
  read_eq_ok_iff.mpr
    (Material.read_writeByteStrings_parts small fun _ material => bitLength_modulus_le material)

/-- A key is read back from its bytes, if there are no more of them than can be counted. -/
theorem read_toBytes {key : Key} (countable : key.toBytes.length < 2 ^ 64) :
    read key.keyType key.toBytes = .ok key := by
  refine read_toBytes_of_small ?_
  intro part member
  exact lt_of_le_of_lt (length_le_of_mem_parts member) countable

end Key

end VersionedKeys
