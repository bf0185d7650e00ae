import VersionedKeys.Key.Reading
import VersionedKeys.Proofs.Cbor.Bounds
import VersionedKeys.Proofs.Cbor.Overflow

/-!
# Material and its parts

Reading a key takes two steps: an array of as many byte strings as its type has parts is
decoded, and the material is made of them (`Material.read_eq`).  Material is made again of its
own parts, which are no longer than those it was first made of: `Material.ofParts_parts` and
`Material.stores_of_ofParts`.
-/

namespace VersionedKeys

@[simp]
theorem Aes.Key.ofBytes?_bytes (key : Aes.Key) : Aes.Key.ofBytes? key.bytes = some key := by
  rw [ofBytes?, dif_pos key.length_mem]

theorem Aes.Key.length_le (key : Aes.Key) : key.bytes.length ≤ 32 := by
  have lengths := key.length_mem
  omega

theorem Aes.Key.bytes_of_ofBytes? {bytes : Bytes} {key : Aes.Key}
    (found : ofBytes? bytes = some key) : key.bytes = bytes := by
  rw [ofBytes?] at found
  split at found
  · cases found
    rfl
  · cases found

theorem Aes.Key.bytes_of_ofBytes {bytes : Bytes} {key : Aes.Key}
    (found : ofBytes bytes = .ok key) : key.bytes = bytes := by
  rw [ofBytes] at found
  split at found
  · next made =>
      cases found
      exact bytes_of_ofBytes? made
  · cases found

theorem AesHmacKey.ofParts_parts (key : AesHmacKey) :
    AesHmacKey.ofParts key.aes.bytes key.mac = .ok key := by
  rw [ofParts, Aes.Key.ofBytes?_bytes]
  exact dif_pos key.length_mac

theorem AesHmacKey.eq_of_ofParts {aes mac : Bytes} {key : AesHmacKey}
    (found : ofParts aes mac = .ok key) : key.aes.bytes = aes ∧ key.mac = mac := by
  rw [ofParts] at found
  split at found
  · cases found
  · next made =>
      split at found
      · cases found
        exact ⟨Aes.Key.bytes_of_ofBytes? made, rfl⟩
      · cases found

theorem Rsa.PublicKey.ofNumbers_self {key : Rsa.PublicKey}
    (short : Bytes.bitLength key.modulus ≤ 4096) :
    ofNumbers key.modulus key.exponent = .ok key := by
  have sound : readFault? key.modulus key.exponent = none := by
    rw [readFault?, if_neg (by omega)]
    exact key.sound
  rw [ofNumbers, sound]
  dsimp only
  split
  · next fault found => cases found.symm.trans key.sound
  · rfl

theorem Rsa.PublicKey.eq_of_ofNumbers {modulus exponent : Nat} {key : Rsa.PublicKey}
    (found : ofNumbers modulus exponent = .ok key) :
    key.modulus = modulus ∧ key.exponent = exponent := by
  rw [ofNumbers] at found
  split at found
  · cases found
  · split at found
    · cases found
    · cases found
      exact ⟨rfl, rfl⟩

theorem Rsa.PrivateKey.ofNumbers_self (key : Rsa.PrivateKey) :
    ofNumbers key.publicKey.modulus key.publicKey.exponent key.secret key.first key.second =
      .ok key := by
  rw [ofNumbers]
  split
  · next fault found => cases found.symm.trans key.publicKey.sound
  · split
    · next fault found => cases found.symm.trans key.sound
    · rfl

theorem Rsa.PrivateKey.eq_of_ofNumbers {modulus exponent secret first second : Nat}
    {key : Rsa.PrivateKey} (found : ofNumbers modulus exponent secret first second = .ok key) :
    key.publicKey.modulus = modulus ∧ key.publicKey.exponent = exponent ∧ key.secret = secret ∧
      key.first = first ∧ key.second = second := by
  rw [ofNumbers] at found
  split at found
  · cases found
  · split at found
    · cases found
    · cases found
      exact ⟨rfl, rfl, rfl, rfl, rfl⟩

theorem Dsa.PublicKey.ofNumbers_self (key : Dsa.PublicKey) :
    ofNumbers key.prime key.order key.generator key.value = .ok key := by
  rw [ofNumbers]
  split
  · next fault found => cases found.symm.trans key.sound
  · rfl

theorem Dsa.PublicKey.eq_of_ofNumbers {prime order generator value : Nat} {key : Dsa.PublicKey}
    (found : ofNumbers prime order generator value = .ok key) :
    key.prime = prime ∧ key.order = order ∧ key.generator = generator ∧ key.value = value := by
  rw [ofNumbers] at found
  split at found
  · cases found
  · cases found
    exact ⟨rfl, rfl, rfl, rfl⟩

theorem Dsa.PrivateKey.ofNumbers_self (key : Dsa.PrivateKey) :
    ofNumbers key.publicKey key.secret = .ok key := by
  rw [ofNumbers]
  split
  · next fault found => cases found.symm.trans key.sound
  · rfl

theorem Dsa.PrivateKey.eq_of_ofNumbers {publicKey : Dsa.PublicKey} {secret : Nat}
    {key : Dsa.PrivateKey} (found : ofNumbers publicKey secret = .ok key) :
    key.publicKey = publicKey ∧ key.secret = secret := by
  rw [ofNumbers] at found
  split at found
  · cases found
  · cases found
    exact ⟨rfl, rfl⟩

namespace KeyType

/-- What a key of a type is called where it is read. -/
def element : KeyType → String
  | aes => "AES key"
  | hmacSha1 => "HMAC key"
  | aesAead => "AEAD key"
  | rsaPrivate => "RSA private key"
  | rsaPublic => "RSA public key"
  | dsaPrivate => "DSA private key"
  | dsaPublic => "DSA public key"

/-- How many parts a key of a type is stored as. -/
def partCount : KeyType → Nat
  | aes => 2
  | hmacSha1 => 1
  | aesAead => 1
  | rsaPrivate => 5
  | rsaPublic => 2
  | dsaPrivate => 5
  | dsaPublic => 4

end KeyType

namespace Material

/-- The material of a type that is made of some parts. -/
def ofParts (keyType : KeyType) (parts : List Bytes) : Except Error Material :=
  let miscounted := .error (.malformed (.expectedItems keyType.element keyType.partCount))
  match keyType with
  | .aes =>
      match parts with
      | [cipherKey, macKey] => .aes <$> AesHmacKey.ofParts cipherKey macKey
      | _ => miscounted
  | .hmacSha1 =>
      match parts with
      | [key] => .ok (.hmacSha1 key)
      | _ => miscounted
  | .aesAead =>
      match parts with
      | [key] => .aesAead <$> Aes.Key.ofBytes key
      | _ => miscounted
  | .rsaPrivate =>
      match parts with
      | [modulus, exponent, secret, first, second] =>
          .rsaPrivate <$> (Rsa.PrivateKey.ofNumbers modulus.toNat exponent.toNat secret.toNat
            first.toNat second.toNat).mapError fun fault => .key (.badRsaPrivate fault)
      | _ => miscounted
  | .rsaPublic =>
      match parts with
      | [modulus, exponent] =>
          .rsaPublic <$> (Rsa.PublicKey.ofNumbers modulus.toNat exponent.toNat).mapError
            fun fault => .key (.badRsaPublic fault)
      | _ => miscounted
  | .dsaPrivate =>
      match parts with
      | [prime, order, generator, value, secret] => do
          let publicKey ← dsaPublicKey prime order generator value
          .dsaPrivate <$> (Dsa.PrivateKey.ofNumbers publicKey secret.toNat).mapError
            fun fault => .key (.badDsa fault)
      | _ => miscounted
  | .dsaPublic =>
      match parts with
      | [prime, order, generator, value] => .dsaPublic <$> dsaPublicKey prime order generator value
      | _ => miscounted

/-- Reading decodes the parts and makes the material of them. -/
theorem read_eq (keyType : KeyType) (bytes : Bytes) :
    read keyType bytes =
      Cbor.decodeByteStrings keyType.element bytes keyType.partCount >>= ofParts keyType := by
  cases keyType <;> rfl

theorem length_parts (material : Material) :
    material.parts.length = material.keyType.partCount := by
  cases material <;> rfl

theorem dsaPublicKey_parts (key : Dsa.PublicKey) :
    dsaPublicKey (Bytes.ofNatMinimal key.prime) (Bytes.ofNatMinimal key.order)
      (Bytes.ofNatMinimal key.generator) (Bytes.ofNatMinimal key.value) = .ok key := by
  simp only [dsaPublicKey, Bytes.toNat_ofNatMinimal, key.ofNumbers_self, Outcome.mapError_ok]

/-- Material is made again of its parts, unless it is a public key that is too large to be read
by itself. -/
theorem ofParts_parts {material : Material}
    (readable : ∀ rsa, material = .rsaPublic rsa → Bytes.bitLength rsa.modulus ≤ 4096) :
    ofParts material.keyType material.parts = .ok material := by
  cases material with
  | aes key => exact congrArg (aes <$> ·) key.ofParts_parts
  | hmacSha1 key => rfl
  | aesAead key =>
      simp only [keyType, parts, ofParts, Aes.Key.ofBytes, Aes.Key.ofBytes?_bytes]
      rfl
  | rsaPrivate key =>
      simp only [keyType, parts, Rsa.PublicKey.parts, ofParts, List.cons_append, List.nil_append,
        Bytes.toNat_ofNatMinimal, key.ofNumbers_self]
      rfl
  | rsaPublic key =>
      simp only [keyType, parts, Rsa.PublicKey.parts, ofParts, Bytes.toNat_ofNatMinimal,
        Rsa.PublicKey.ofNumbers_self (readable key rfl)]
      rfl
  | dsaPrivate key =>
      simp only [keyType, parts, Dsa.PublicKey.parts, ofParts, List.cons_append, List.nil_append,
        dsaPublicKey_parts, Outcome.ok_bind, Bytes.toNat_ofNatMinimal, key.ofNumbers_self]
      rfl
  | dsaPublic key => exact congrArg (dsaPublic <$> ·) (dsaPublicKey_parts key)

theorem eq_of_dsaPublicKey {prime order generator value : Bytes} {key : Dsa.PublicKey}
    (found : dsaPublicKey prime order generator value = .ok key) :
    key.prime = prime.toNat ∧ key.order = order.toNat ∧ key.generator = generator.toNat ∧
      key.value = value.toNat :=
  Dsa.PublicKey.eq_of_ofNumbers (Outcome.mapError_eq_ok.mp found)

/-- Some parts have at most the lengths of others, one by one. -/
def NoLonger (kept parts : List Bytes) : Prop :=
  List.Forall₂ (fun kept part => kept.length ≤ part.length) kept parts

/-- What is made of some parts is of the type that was asked for, and is stored as parts that
are no longer: the numbers among them have lost the zeros in front. -/
theorem stores_of_ofParts {keyType : KeyType} {parts : List Bytes} {material : Material}
    (made : ofParts keyType parts = .ok material) :
    material.keyType = keyType ∧ NoLonger material.parts parts := by
  cases keyType with
  | aes =>
      simp only [ofParts] at made
      split at made
      · obtain ⟨key, found, rfl⟩ := Outcome.map_eq_ok.mp made
        obtain ⟨cipherKey, macKey⟩ := AesHmacKey.eq_of_ofParts found
        simp [keyType, NoLonger, Material.parts, cipherKey, macKey]
      · cases made
  | hmacSha1 =>
      simp only [ofParts] at made
      split at made
      · cases made
        simp [keyType, NoLonger, Material.parts]
      · cases made
  | aesAead =>
      simp only [ofParts] at made
      split at made
      · obtain ⟨key, found, rfl⟩ := Outcome.map_eq_ok.mp made
        simp [keyType, NoLonger, Material.parts, Aes.Key.bytes_of_ofBytes found]
      · cases made
  | rsaPrivate =>
      simp only [ofParts] at made
      split at made
      · obtain ⟨key, found, rfl⟩ := Outcome.map_eq_ok.mp made
        obtain ⟨modulus, exponent, secret, first, second⟩ :=
          Rsa.PrivateKey.eq_of_ofNumbers (Outcome.mapError_eq_ok.mp found)
        simp [keyType, NoLonger, Material.parts, Rsa.PublicKey.parts, modulus, exponent, secret,
          first, second, Bytes.length_ofNatMinimal_toNat_le]
      · cases made
  | rsaPublic =>
      simp only [ofParts] at made
      split at made
      · obtain ⟨key, found, rfl⟩ := Outcome.map_eq_ok.mp made
        obtain ⟨modulus, exponent⟩ :=
          Rsa.PublicKey.eq_of_ofNumbers (Outcome.mapError_eq_ok.mp found)
        simp [keyType, NoLonger, Material.parts, Rsa.PublicKey.parts, modulus, exponent,
          Bytes.length_ofNatMinimal_toNat_le]
      · cases made
  | dsaPrivate =>
      simp only [ofParts] at made
      split at made
      · obtain ⟨publicKey, publicFound, made⟩ := Outcome.bind_eq_ok.mp made
        obtain ⟨key, found, rfl⟩ := Outcome.map_eq_ok.mp made
        obtain ⟨same, secret⟩ := Dsa.PrivateKey.eq_of_ofNumbers (Outcome.mapError_eq_ok.mp found)
        obtain ⟨prime, order, generator, value⟩ := eq_of_dsaPublicKey publicFound
        simp [keyType, NoLonger, Material.parts, Dsa.PublicKey.parts, same, prime, order,
          generator, value, secret, Bytes.length_ofNatMinimal_toNat_le]
      · cases made
  | dsaPublic =>
      simp only [ofParts] at made
      split at made
      · obtain ⟨key, found, rfl⟩ := Outcome.map_eq_ok.mp made
        obtain ⟨prime, order, generator, value⟩ := eq_of_dsaPublicKey found
        simp [keyType, NoLonger, Material.parts, Dsa.PublicKey.parts, prime, order, generator,
          value, Bytes.length_ofNatMinimal_toNat_le]
      · cases made

theorem NoLonger.exists_length_le {kept parts : List Bytes} (shorter : NoLonger kept parts)
    {part : Bytes} (member : part ∈ kept) : ∃ other ∈ parts, part.length ≤ other.length := by
  induction shorter with
  | nil => cases member
  | cons length later inductionHypothesis =>
      rcases List.mem_cons.mp member with rfl | member
      · exact ⟨_, List.mem_cons_self, length⟩
      · obtain ⟨other, found, length⟩ := inductionHypothesis member
        exact ⟨other, List.mem_cons_of_mem _ found, length⟩

end Material

end VersionedKeys
