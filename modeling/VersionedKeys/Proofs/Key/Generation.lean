import VersionedKeys.Key.Generation
import VersionedKeys.Proofs.Outcomes

/-!
# Generated keys

A key that is generated is of the type that was asked for.  Symmetric keys are generated in
every size they can have: `Key.exists_generate_of_mem`.
-/

namespace VersionedKeys

theorem Material.keyType_of_generate {keyType : KeyType} {size : Nat} {random : Random}
    {material : Material} (made : (generate keyType size random).1 = .ok material) :
    material.keyType = keyType := by
  cases keyType with
  | aes =>
      simp only [generate] at made
      generalize AesHmacKey.ofParts _ _ = parts at made
      obtain ⟨key, -, rfl⟩ := Outcome.map_eq_ok.mp made
      rfl
  | hmacSha1 =>
      simp only [generate, Except.ok.injEq] at made
      rw [← made, keyType]
  | aesAead =>
      simp only [generate] at made
      generalize Aes.Key.ofBytes _ = parts at made
      obtain ⟨key, -, rfl⟩ := Outcome.map_eq_ok.mp made
      rfl
  | rsaPrivate =>
      simp only [generate] at made
      generalize (Rsa.generate? size 64 random).1 = found at made
      cases found with
      | none => cases made
      | some key =>
          cases made
          rfl
  | dsaPrivate =>
      simp only [generate] at made
      generalize (Dsa.generate? random).1 = found at made
      cases found with
      | none => cases made
      | some key =>
          cases made
          rfl
  | rsaPublic => cases made
  | dsaPublic => cases made

theorem Key.keyType_of_generate {keyType : KeyType} {size : Nat} {random : Random} {key : Key}
    (made : (generate keyType size random).1 = .ok key) : key.keyType = keyType := by
  rw [generate] at made
  generalize (if size = 0 then keyType.defaultSize else size) = size at made
  dsimp only at made
  split at made
  · obtain ⟨material, generated, made⟩ := Outcome.bind_eq_ok.mp made
    rw [ofMaterial] at made
    split at made
    · cases made
      exact Material.keyType_of_generate generated
    · cases made
  · cases made

theorem Aes.Key.exists_ofBytes? {size : Nat} (allowed : size ∈ [128, 192, 256]) {bytes : Bytes}
    (length : bytes.length = size / 8) :
    ∃ key, Aes.Key.ofBytes? bytes = some key ∧ key.bytes.length * 8 = size := by
  simp only [List.mem_cons, List.not_mem_nil, or_false] at allowed
  have proper : bytes.length = 16 ∨ bytes.length = 24 ∨ bytes.length = 32 := by omega
  refine ⟨⟨bytes, proper⟩, dif_pos proper, ?_⟩
  dsimp only
  omega

/-- The material of a symmetric key is generated in every size of its type. -/
theorem Material.exists_generate {keyType : KeyType}
    (symmetric : keyType = .aes ∨ keyType = .aesAead ∨ keyType = .hmacSha1) {size : Nat}
    (allowed : size ∈ keyType.sizes) (random : Random) :
    ∃ material, (generate keyType size random).1 = .ok material ∧ material.size = size := by
  rcases symmetric with rfl | rfl | rfl
  · obtain ⟨key, fits, width⟩ :=
      Aes.Key.exists_ofBytes? allowed (Random.length_draw (size / 8) random)
    have macLength : ((random.draw (size / 8)).2.draw 32).1.length = 32 := Random.length_draw _ _
    refine ⟨.aes ⟨key, _, macLength⟩, ?_, width⟩
    simp only [generate, AesHmacKey.ofParts, fits, dif_pos macLength]
    rfl
  · have some : size ∈ [128, 192, 256] := by
      simp only [KeyType.sizes, List.mem_cons, List.not_mem_nil, or_false] at allowed ⊢
      omega
    obtain ⟨key, fits, width⟩ :=
      Aes.Key.exists_ofBytes? some (Random.length_draw (size / 8) random)
    refine ⟨.aesAead key, ?_, width⟩
    simp only [generate, Aes.Key.ofBytes, fits]
    rfl
  · obtain rfl := List.mem_singleton.mp allowed
    refine ⟨.hmacSha1 (random.draw 32).1, ?_, ?_⟩
    · rw [generate]
    · rw [size, Random.length_draw]

/-- The size zero stands for the default. -/
theorem Key.generate_zero (keyType : KeyType) (random : Random) :
    generate keyType 0 random = generate keyType keyType.defaultSize random := by
  rw [generate, generate, if_pos rfl, ite_self]

theorem Key.exists_generate_of_mem {keyType : KeyType}
    (symmetric : keyType = .aes ∨ keyType = .aesAead ∨ keyType = .hmacSha1) {size : Nat}
    (allowed : size ∈ keyType.sizes) (random : Random) :
    ∃ key, (generate keyType size random).1 = .ok key ∧ key.size = size := by
  have acceptable : keyType.isAcceptableSize size = true := by
    simpa [KeyType.isAcceptableSize] using allowed
  have some : size ≠ 0 := by
    rintro rfl
    cases keyType <;> simp [KeyType.sizes] at allowed
  obtain ⟨material, made, width⟩ := Material.exists_generate symmetric allowed random
  have proper : material.keyType.isAcceptableSize material.size = true := by
    rw [Material.keyType_of_generate made, width]
    exact acceptable
  refine ⟨⟨material, proper⟩, ?_, width⟩
  rw [generate]
  simp only [if_neg some, acceptable, if_true, made]
  exact dif_pos proper

/-- Keys of AES are generated in all sizes, and in the default size for zero. -/
theorem Key.exists_generate {keyType : KeyType} (symmetric : keyType = .aes ∨ keyType = .aesAead)
    {size : Nat} (allowed : size = 0 ∨ size ∈ keyType.sizes) (random : Random) :
    ∃ key, (generate keyType size random).1 = .ok key := by
  have among : keyType = .aes ∨ keyType = .aesAead ∨ keyType = .hmacSha1 :=
    symmetric.imp_right .inl
  rcases allowed with rfl | allowed
  · have default : keyType.defaultSize ∈ keyType.sizes := by
      rcases symmetric with rfl | rfl <;> decide
    obtain ⟨key, made, -⟩ := exists_generate_of_mem among default random
    exact ⟨key, by rw [generate_zero, made]⟩
  · obtain ⟨key, made, -⟩ := exists_generate_of_mem among allowed random
    exact ⟨key, made⟩

end VersionedKeys
