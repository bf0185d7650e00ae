import VersionedKeys.Proofs.Key.Codec
import VersionedKeys.Proofs.Key.Separation
import VersionedKeys.Proofs.Pairs

/-!
# What identifies a key

Zeros in front of the numbers of a key make no difference to the key that is read, and its hash is
made of the shortest forms of its public numbers: `Key.identified_by_values`.
-/

namespace VersionedKeys

namespace Bytes

theorem toNat_replicate_zero_append (count : Nat) (bytes : Bytes) :
    toNat (List.replicate count 0 ++ bytes) = toNat bytes := by
  induction count with
  | zero => rfl
  | succ count inductionHypothesis =>
      rw [List.replicate_succ, List.cons_append, toNat_cons_zero, inductionHypothesis]

theorem toNat_cons (byte : UInt8) (bytes : Bytes) :
    toNat (byte :: bytes) = byte.toNat * 256 ^ bytes.length + toNat bytes := by
  induction bytes using List.reverseRecOn with
  | nil => simp [toNat]
  | append_singleton bytes last inductionHypothesis =>
      rw [← List.cons_append, toNat_append_singleton, inductionHypothesis, toNat_append_singleton,
        List.length_append, List.length_singleton, pow_succ]
      ring

/-- The digits of a number in base 256 without zeros in front. -/
def Digits (value : Nat) (bytes : Bytes) : Prop :=
  bytes.toNat = value ∧ bytes.head? ≠ some 0

theorem digits_ofNatMinimal (value : Nat) : Digits value (ofNatMinimal value) := by
  refine ⟨toNat_ofNatMinimal value, ?_⟩
  intro leading
  obtain ⟨rest, form⟩ := List.head?_eq_some_iff.mp leading
  have length : byteLength value = rest.length + 1 := by
    rw [← length_ofNat (byteLength value) value, ← ofNatMinimal, form, List.length_cons]
  have large : 256 ^ rest.length ≤ value := pow_le_of_byteLength (by omega)
  have small : value < 256 ^ rest.length := by
    rw [← toNat_ofNatMinimal value, form, toNat_cons_zero]
    exact toNat_lt rest
  omega

/-- Without zeros in front there are no more digits than another form has. -/
theorem Digits.length_le {value : Nat} {bytes other : Bytes} (digits : Digits value bytes)
    (same : other.toNat = value) : bytes.length ≤ other.length := by
  obtain ⟨rfl, leading⟩ := digits
  cases bytes with
  | nil => exact Nat.zero_le _
  | cons byte bytes =>
      have positive : 0 < byte.toNat := by
        refine Nat.pos_of_ne_zero fun zero => leading ?_
        rw [List.head?_cons, UInt8.toNat_inj.mp (zero.trans UInt8.toNat_zero.symm)]
      have power : 256 ^ bytes.length < 256 ^ other.length := by
        calc
          256 ^ bytes.length ≤ byte.toNat * 256 ^ bytes.length := Nat.le_mul_of_pos_left _ positive
          _ ≤ toNat (byte :: bytes) := by
            rw [toNat_cons]
            exact Nat.le_add_right _ _
          _ < 256 ^ other.length := same ▸ toNat_lt other
      exact (Nat.pow_lt_pow_iff_right (by decide)).mp power

/-- A number has one such form. -/
theorem digits_iff {value : Nat} {bytes : Bytes} :
    Digits value bytes ↔ bytes = ofNatMinimal value := by
  constructor
  · intro digits
    have shortest := digits_ofNatMinimal value
    have length := le_antisymm (digits.length_le shortest.1) (shortest.length_le digits.1)
    rw [← ofNat_toNat bytes, ← ofNat_toNat (ofNatMinimal value), length, digits.1, shortest.1]
  · rintro rfl
    exact digits_ofNatMinimal value

/-- A list with zeros in front of its strings, of each as many as one likes. -/
def Padded (parts padded : List Bytes) : Prop :=
  List.Forall₂ (fun part longer => ∃ count, longer = List.replicate count 0 ++ part) parts padded

theorem Padded.length_lt {parts padded : List Bytes} (longer : Padded parts padded) {bound : Nat}
    (small : ∀ part ∈ padded, part.length < bound) : ∀ part ∈ parts, part.length < bound := by
  induction longer with
  | nil => exact small
  | cons padding _ inductionHypothesis =>
      obtain ⟨count, rfl⟩ := padding
      obtain ⟨first, others⟩ := List.forall_mem_cons.mp small
      rw [List.length_append] at first
      exact List.forall_mem_cons.mpr
        ⟨lt_of_le_of_lt (Nat.le_add_left _ _) first, inductionHypothesis others⟩

end Bytes

namespace KeyType

/-- The types of keys that are made of numbers. -/
def numeric : List KeyType := [.rsaPrivate, .rsaPublic, .dsaPrivate, .dsaPublic]

end KeyType

namespace Material

/-- Material of numbers depends only on their values. -/
theorem ofParts_eq_of_toNat {keyType : KeyType} (numeric : keyType ∈ KeyType.numeric)
    {parts others : List Bytes} (counted : parts.length = keyType.partCount)
    (same : List.Forall₂ (fun part other => other.toNat = part.toNat) parts others) :
    ofParts keyType others = ofParts keyType parts := by
  cases keyType with
  | rsaPrivate =>
      obtain _ | ⟨first, _ | ⟨second, _ | ⟨third, _ | ⟨fourth, _ | ⟨fifth, _ | _⟩⟩⟩⟩⟩ := same <;>
        simp_all [ofParts, KeyType.partCount]
  | rsaPublic =>
      obtain _ | ⟨first, _ | ⟨second, _ | _⟩⟩ := same <;> simp_all [ofParts, KeyType.partCount]
  | dsaPrivate =>
      obtain _ | ⟨first, _ | ⟨second, _ | ⟨third, _ | ⟨fourth, _ | ⟨fifth, _ | _⟩⟩⟩⟩⟩ := same <;>
        simp_all [ofParts, dsaPublicKey, KeyType.partCount]
  | dsaPublic =>
      obtain _ | ⟨first, _ | ⟨second, _ | ⟨third, _ | ⟨fourth, _ | _⟩⟩⟩⟩ := same <;>
        simp_all [ofParts, dsaPublicKey, KeyType.partCount]
  | _ => simp [KeyType.numeric] at numeric

/-- The public numbers of material that is made of numbers. -/
def publicNumbers? : Material → Option (List Nat)
  | rsaPrivate ⟨key, _, _, _, _⟩ | rsaPublic key => some [key.modulus, key.exponent]
  | dsaPrivate ⟨key, _, _⟩ | dsaPublic key =>
      some [key.prime, key.order, key.generator, key.value]
  | _ => none

/-- The bytes whose digest identifies material. -/
inductive Preimage : Material → Bytes → Prop where
  | aes (key : AesHmacKey) :
      Preimage (.aes key) (Bytes.ofNat 4 key.aes.bytes.length ++ key.aes.bytes ++ key.mac)
  | hmacSha1 (key : Bytes) : Preimage (.hmacSha1 key) key
  | aesAead (key : Aes.Key) :
      Preimage (.aesAead key) (Bytes.ofNat 4 key.bytes.length ++ key.bytes)
  | numbers {material : Material} {values : List Nat} {parts : List Bytes}
      (isPublic : material.publicNumbers? = some values)
      (shortest : List.Forall₂ Bytes.Digits values parts) :
      Preimage material (parts.flatMap fun part => Bytes.ofNat 4 part.length ++ part)

theorem identity_of_publicNumbers? {material : Material} {values : List Nat}
    (isPublic : material.publicNumbers? = some values) :
    material.identity = KeyHash.lengthPrefixed (values.map Bytes.ofNatMinimal) := by
  cases material with
  | rsaPrivate | rsaPublic | dsaPrivate | dsaPublic =>
      cases isPublic
      rfl
  | _ => cases isPublic

theorem forall₂_digits_iff {values : List Nat} {parts : List Bytes} :
    List.Forall₂ Bytes.Digits values parts ↔ parts = values.map Bytes.ofNatMinimal := by
  constructor
  · intro shortest
    induction shortest with
    | nil => rfl
    | cons digits _ inductionHypothesis =>
        rw [List.map_cons, ← inductionHypothesis, Bytes.digits_iff.mp digits]
  · rintro rfl
    induction values with
    | nil => exact .nil
    | cons value values inductionHypothesis =>
        exact .cons (Bytes.digits_ofNatMinimal value) inductionHypothesis

theorem preimage_iff {material : Material} {preimage : Bytes} :
    Preimage material preimage ↔ preimage = material.identity := by
  constructor
  · intro found
    cases found with
    | aes key => rfl
    | hmacSha1 key => rfl
    | aesAead key => simp [identity, KeyHash.lengthPrefixed]
    | numbers isPublic shortest =>
        rw [identity_of_publicNumbers? isPublic, ← forall₂_digits_iff.mp shortest]
        rfl
  · rintro rfl
    cases form : material.publicNumbers? with
    | some values =>
        rw [identity_of_publicNumbers? form]
        exact .numbers form (forall₂_digits_iff.mpr rfl)
    | none =>
        cases material with
        | aes key => exact .aes key
        | hmacSha1 key => exact .hmacSha1 key
        | aesAead key =>
            have identity :
                (aesAead key).identity = Bytes.ofNat 4 key.bytes.length ++ key.bytes := by
              simp [identity, KeyHash.lengthPrefixed]
            exact identity ▸ .aesAead key
        | _ => cases form

end Material

theorem KeyHash.toBytes_truncate {digest : Bytes} (long : 4 ≤ digest.length) :
    (truncate digest).toBytes = digest.take 4 := by
  obtain _ | ⟨a, _ | ⟨b, _ | ⟨c, _ | ⟨d, rest⟩⟩⟩⟩ := digest
  · simp at long
  · simp at long
  · simp at long
  · simp at long
  · rfl

namespace Key

theorem toBytes_hash (key : Key) :
    key.hash.toBytes = (Digest.sha1.digest key.material.identity).take 4 :=
  KeyHash.toBytes_truncate (by rw [Digest.length_digest_sha1]; decide)

/-- Zeros in front of numbers are not seen. -/
theorem read_padded {keyType : KeyType} (numeric : keyType ∈ KeyType.numeric)
    {parts padded : List Bytes} (longer : Bytes.Padded parts padded)
    (few : padded.length < 2 ^ 64) (small : ∀ part ∈ padded, part.length < 2 ^ 64) {key : Key}
    (found : read keyType (Cbor.writeByteStrings parts) = .ok key) :
    read keyType (Cbor.writeByteStrings padded) = .ok key := by
  have lengths : parts.length = padded.length := longer.length_eq
  have counted : parts.length = keyType.partCount := by
    by_contra different
    rw [read_eq_ok_iff, Material.read_writeByteStrings_of_ne (lengths ▸ few) different] at found
    cases found
  have sameValues :
      List.Forall₂ (fun part other => Bytes.toNat other = Bytes.toNat part) parts padded := by
    refine longer.imp ?_
    rintro part _ ⟨count, rfl⟩
    exact Bytes.toNat_replicate_zero_append count part
  rw [read_eq_ok_iff, Material.read_writeByteStrings (lengths ▸ few) (longer.length_lt small)
    counted] at found
  rw [read_eq_ok_iff, Material.read_writeByteStrings few small (lengths ▸ counted),
    Material.ofParts_eq_of_toNat numeric counted sameValues, found]

/-- Keys are identified by values.  However many zeros are put in front of the numbers of a key
that is read from its encoding, the same key is read, with the same hash and the same bytes.
A private key has the hash of its public half, also where that half is read back from its own
bytes.  Every hash is the front of the digest of one preimage, which holds the public numbers in
their shortest form. -/
theorem identified_by_values :
    (∀ keyType ∈ KeyType.numeric, ∀ (parts padded : List Bytes) (key : Key),
      Bytes.Padded parts padded → padded.length < 2 ^ 64 →
      (∀ part ∈ padded, part.length < 2 ^ 64) →
      read keyType (Cbor.writeByteStrings parts) = .ok key →
      read keyType (Cbor.writeByteStrings padded) = .ok key) ∧
    (∀ (key : Key) publicType, key.keyType.half? = some publicType →
      ∃ half, key.public? = some half ∧ half.hash = key.hash ∧
        (half.toBytes.length < 2 ^ 64 →
          ∃ again, read publicType half.toBytes = .ok again ∧ again.hash = key.hash)) ∧
    ∀ key : Key, (∃! preimage, key.material.Preimage preimage) ∧
      ∀ preimage, key.material.Preimage preimage →
        key.hash.toBytes = (Digest.sha1.digest preimage).take 4 := by
  refine ⟨?_, ?_, ?_⟩
  · intro keyType numeric parts padded key longer few small found
    exact read_padded numeric longer few small found
  · intro key publicType isPrivate
    obtain ⟨half, halved, rfl, -⟩ := exists_half isPrivate
    have sameHash : half.hash = key.hash := Pairs.hash_eq (.inr halved)
    exact ⟨half, halved, sameHash, fun countable => ⟨half, read_toBytes countable, sameHash⟩⟩
  · intro key
    refine ⟨⟨_, Material.preimage_iff.mpr rfl, fun _ other => Material.preimage_iff.mp other⟩, ?_⟩
    intro preimage found
    rw [toBytes_hash, Material.preimage_iff.mp found]

end Key

theorem Key.identified_by_values_sample :
    Key.read .dsaPrivate (Cbor.writeByteStrings (Sample.squareParts.map (0 :: ·))) =
      .ok Sample.squareKey ∧
    (∃ half, Sample.squareKey.public? = some half ∧
      ∃ again, Key.read .dsaPublic half.toBytes = .ok again ∧
        again.hash = Sample.squareKey.hash) ∧
    Sample.bareKey.hash.toBytes = (Digest.sha1.digest (List.replicate 32 7)).take 4 := by
  obtain ⟨padding, halves, preimages⟩ := Key.identified_by_values
  refine ⟨?_, ?_, ?_⟩
  · refine padding .dsaPrivate (by decide) Sample.squareParts _ _ ?_ (by decide +kernel)
      (by decide +kernel) Sample.read_squareParts
    exact List.forall₂_map_right_iff.mpr (List.forall₂_same.mpr fun part _ => ⟨1, rfl⟩)
  · obtain ⟨half, halved, -, again⟩ := halves Sample.squareKey .dsaPublic rfl
    refine ⟨half, halved, again ?_⟩
    cases halved
    decide +kernel
  · exact (preimages Sample.bareKey).2 _ (.hmacSha1 _)

end VersionedKeys
