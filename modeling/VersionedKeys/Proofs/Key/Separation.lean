import VersionedKeys.Proofs.Key.Reading
import VersionedKeys.Proofs.Rsa.Inverse

/-!
# The bytes of a key under other types

Nothing in the stored form of a key names its type.  Most types are told apart by the number of
parts, and two of the three pairs that are not by what the parts are checked for.  But a key of
HMAC and one of AES in Galois/counter mode are both stored as nothing but their bytes, and
cannot be told apart if there are as many: `Key.read_as_other`.
-/

namespace VersionedKeys

open Outcome

/-- No power of a divisor of the modulus leaves the remainder one. -/
theorem Number.powMod_ne_one {divisor exponent modulus : Nat} (several : 2 ≤ divisor)
    (divides : divisor ∣ modulus) (positive : exponent ≠ 0) :
    powMod divisor exponent modulus ≠ 1 := by
  intro one
  rw [powMod_eq] at one
  have dividesOne : divisor ∣ 1 := by
    rw [← one]
    exact (Nat.dvd_mod_iff divides).mpr (dvd_pow_self divisor positive)
  have small := Nat.le_of_dvd Nat.one_pos dividesOne
  omega

/-- The other type, if there is one, whose keys are stored as equally many parts. -/
def KeyType.sibling? : KeyType → Option KeyType
  | aes => some rsaPublic
  | rsaPublic => some aes
  | hmacSha1 => some aesAead
  | aesAead => some hmacSha1
  | rsaPrivate => some dsaPrivate
  | dsaPrivate => some rsaPrivate
  | dsaPublic => none

theorem KeyType.partCount_eq_iff {left right : KeyType} :
    left.partCount = right.partCount ↔ left = right ∨ left.sibling? = some right := by
  cases left <;> cases right <;> decide

/-- The keys of a type are stored as nothing but their bytes. -/
def KeyType.IsBare (keyType : KeyType) : Prop :=
  keyType = .hmacSha1 ∨ keyType = .aesAead

theorem KeyType.IsBare.partCount {keyType : KeyType} (bare : keyType.IsBare) :
    keyType.partCount = 1 := by
  rcases bare with rfl | rfl <;> rfl

namespace Material

/-- No factor of a modulus of RSA is a public number of DSA modulo it. -/
theorem ofParts_rsaPrivate_ne_ok (rsa : Rsa.PrivateKey) (material : Material) :
    ofParts .dsaPrivate (rsaPrivate rsa).parts ≠ .ok material := by
  intro made
  obtain ⟨dsa, found, -⟩ := bind_eq_ok.mp made
  obtain ⟨prime, order, -, value⟩ := eq_of_dsaPublicKey found
  simp only [Bytes.toNat_ofNatMinimal] at prime order value
  obtain ⟨-, several, -, -, -, one⟩ := Dsa.publicFault?_eq_none_iff.mp dsa.sound
  rw [prime, order, value] at one
  have divides : rsa.first ∣ rsa.publicKey.modulus := ⟨rsa.second, rsa.first_mul_second.symm⟩
  exact Number.powMod_ne_one rsa.two_le_first divides (by omega) one

/-- The public number of a key of DSA is no factor of the modulus. -/
theorem ofParts_dsaPrivate_ne_ok (dsa : Dsa.PrivateKey) (material : Material) :
    ofParts .rsaPrivate (dsaPrivate dsa).parts ≠ .ok material := by
  intro made
  obtain ⟨rsa, found, -⟩ := map_eq_ok.mp made
  obtain ⟨modulus, -, -, first, -⟩ := Rsa.PrivateKey.eq_of_ofNumbers (mapError_eq_ok.mp found)
  simp only [Bytes.toNat_ofNatMinimal] at modulus first
  obtain ⟨-, several, -, -, value, one⟩ := Dsa.publicFault?_eq_none_iff.mp dsa.publicKey.sound
  have divides : dsa.publicKey.value ∣ dsa.publicKey.prime := by
    rw [← modulus, ← first]
    exact ⟨rsa.second, rsa.first_mul_second.symm⟩
  exact Number.powMod_ne_one value divides (by omega) one

/-- The bytes of a key of AES are few for a modulus of RSA. -/
theorem size_le_of_ofParts_aes {aes : AesHmacKey} {material : Material}
    (made : ofParts .rsaPublic (Material.aes aes).parts = .ok material) :
    material.size ≤ 256 := by
  obtain ⟨rsa, found, rfl⟩ := map_eq_ok.mp made
  obtain ⟨modulus, -⟩ := Rsa.PublicKey.eq_of_ofNumbers (mapError_eq_ok.mp found)
  have shorter := Bytes.length_ofNatMinimal_toNat_le aes.aes.bytes
  have short := aes.aes.length_le
  rw [Bytes.ofNatMinimal, Bytes.length_ofNat] at shorter
  rw [size, Rsa.PublicKey.length, modulus]
  omega

/-- A modulus of RSA has few bytes if it is a key of AES. -/
theorem size_le_of_ofParts_rsaPublic {rsa : Rsa.PublicKey} {material : Material}
    (made : ofParts .aes (rsaPublic rsa).parts = .ok material) :
    (rsaPublic rsa).size ≤ 256 := by
  obtain ⟨aes, found, -⟩ := map_eq_ok.mp made
  obtain ⟨cipherKey, -⟩ := AesHmacKey.eq_of_ofParts found
  have short := aes.aes.length_le
  rw [cipherKey, Bytes.ofNatMinimal, Bytes.length_ofNat] at short
  rw [size, Rsa.PublicKey.length]
  omega

theorem exists_bare {material : Material} (bare : material.keyType.IsBare) :
    ∃ part, material.parts = [part] ∧ material.size = part.length * 8 := by
  cases material with
  | hmacSha1 key => exact ⟨key, rfl, rfl⟩
  | aesAead key => exact ⟨key.bytes, rfl, rfl⟩
  | _ => rcases bare with bare | bare <;> cases bare

/-- Material of either type of bare bytes has the size of its bytes, and is stored as them. -/
theorem bare_of_ofParts {keyType : KeyType} (bare : keyType.IsBare) {part : Bytes}
    {material : Material} (made : ofParts keyType [part] = .ok material) :
    material.size = part.length * 8 ∧ material.parts = [part] := by
  rcases bare with rfl | rfl
  · cases made
    exact ⟨rfl, rfl⟩
  · obtain ⟨key, found, rfl⟩ := map_eq_ok.mp made
    rw [size, parts, Aes.Key.bytes_of_ofBytes found]
    exact ⟨rfl, rfl⟩

/-- Of 32 bytes either type of bare bytes makes material. -/
theorem exists_ofParts_bare {keyType : KeyType} (bare : keyType.IsBare) {part : Bytes}
    (length : part.length = 32) : ∃ material, ofParts keyType [part] = .ok material := by
  rcases bare with rfl | rfl
  · exact ⟨_, rfl⟩
  · have proper : part.length = 16 ∨ part.length = 24 ∨ part.length = 32 := .inr (.inr length)
    refine ⟨.aesAead ⟨part, proper⟩, ?_⟩
    simp only [ofParts, Aes.Key.ofBytes, Aes.Key.ofBytes?, dif_pos proper]
    rfl

end Material

namespace Key

theorem lt_size_of_rsaPublic {key : Key} (rsa : key.keyType = .rsaPublic) : 256 < key.size := by
  have member := key.size_mem_sizes
  rw [rsa] at member
  simp only [KeyType.sizes, List.mem_cons, List.not_mem_nil, or_false] at member
  omega

theorem size_of_hmacSha1 {key : Key} (mac : key.keyType = .hmacSha1) : key.size = 256 := by
  have member := key.size_mem_sizes
  rw [mac] at member
  exact List.mem_singleton.mp member

section Other

variable {key : Key} {keyType : KeyType}

theorem read_toBytes_of_partCount_ne (different : key.keyType.partCount ≠ keyType.partCount) :
    Fails (read keyType key.toBytes) := by
  have miscounted : key.material.parts.length ≠ keyType.partCount := by
    rwa [Material.length_parts]
  rw [read, toBytes,
    Material.read_writeByteStrings_of_ne key.material.length_parts_lt miscounted, error_bind]
  exact fails_error _

variable (countable : key.toBytes.length < 2 ^ 64)

include countable

theorem read_toBytes_of_partCount (same : key.keyType.partCount = keyType.partCount) :
    read keyType key.toBytes = Material.ofParts keyType key.material.parts >>= ofMaterial := by
  have small : ∀ part ∈ key.material.parts, part.length < 2 ^ 64 := by
    intro part member
    exact (length_le_of_mem_parts member).trans_lt countable
  have counted : key.material.parts.length = keyType.partCount := by
    rwa [Material.length_parts]
  rw [read, toBytes, Material.read_writeByteStrings key.material.length_parts_lt small counted]

/-- Types with as many parts are told apart by what is checked, unless the keys of both are bare
bytes. -/
theorem fails_read_toBytes_of_not_bare (other : keyType ≠ key.keyType)
    (notBare : ¬ (key.keyType.IsBare ∧ keyType.IsBare)) : Fails (read keyType key.toBytes) := by
  by_cases same : key.keyType.partCount = keyType.partCount
  · have sibling := (KeyType.partCount_eq_iff.mp same).resolve_left other.symm
    rw [read_toBytes_of_partCount countable same, fails_iff_forall_ne_ok]
    intro again found
    obtain ⟨material, made, restored⟩ := bind_eq_ok.mp found
    obtain rfl := ofMaterial_eq_ok_iff.mp restored
    -- Each type has one other that is stored in as many parts.
    obtain ⟨material, acceptable⟩ := key
    cases material with
    | aes aes =>
        obtain rfl : .rsaPublic = keyType := Option.some.inj sibling
        have small := Material.size_le_of_ofParts_aes made
        have large := lt_size_of_rsaPublic (Material.stores_of_ofParts made).1
        exact absurd small (Nat.not_le_of_lt large)
    | rsaPublic rsa =>
        obtain rfl : .aes = keyType := Option.some.inj sibling
        have small := Material.size_le_of_ofParts_rsaPublic made
        have large := lt_size_of_rsaPublic
          (show keyType ⟨.rsaPublic rsa, acceptable⟩ = .rsaPublic from rfl)
        exact absurd small (Nat.not_le_of_lt large)
    | rsaPrivate rsa =>
        obtain rfl : .dsaPrivate = keyType := Option.some.inj sibling
        exact Material.ofParts_rsaPrivate_ne_ok rsa _ made
    | dsaPrivate dsa =>
        obtain rfl : .rsaPrivate = keyType := Option.some.inj sibling
        exact Material.ofParts_dsaPrivate_ne_ok dsa _ made
    | dsaPublic dsa => cases sibling
    | hmacSha1 mac =>
        obtain rfl : .aesAead = keyType := Option.some.inj sibling
        exact notBare ⟨.inl rfl, .inr rfl⟩
    | aesAead aes =>
        obtain rfl : .hmacSha1 = keyType := Option.some.inj sibling
        exact notBare ⟨.inr rfl, .inl rfl⟩
  · exact read_toBytes_of_partCount_ne same

section Bare

variable (own : key.keyType.IsBare) (bare : keyType.IsBare)

include own bare

/-- A bare key that is read from the bytes of another has the same bytes. -/
theorem same_of_read_bare {again : Key} (found : read keyType key.toBytes = .ok again) :
    again.size = key.size ∧ again.toBytes = key.toBytes := by
  obtain ⟨part, stored, size⟩ := Material.exists_bare own
  rw [read_toBytes_of_partCount countable (own.partCount.trans bare.partCount.symm), stored]
    at found
  obtain ⟨material, made, restored⟩ := bind_eq_ok.mp found
  obtain rfl := ofMaterial_eq_ok_iff.mp restored
  obtain ⟨againSize, againStored⟩ := Material.bare_of_ofParts bare made
  refine ⟨againSize.trans size.symm, ?_⟩
  rw [toBytes, toBytes, againStored, stored]

/-- Of 32 bytes there is a bare key of each type. -/
theorem exists_read_bare (size : key.size = 256) :
    ∃ again, read keyType key.toBytes = .ok again := by
  obtain ⟨part, stored, width⟩ := Material.exists_bare own
  have length : part.length = 32 := by
    rw [Key.size] at size
    omega
  obtain ⟨material, made⟩ := Material.exists_ofParts_bare bare length
  have acceptable : material.keyType.isAcceptableSize material.size = true := by
    rw [(Material.stores_of_ofParts made).1, (Material.bare_of_ofParts bare made).1, length]
    rcases bare with rfl | rfl <;> decide
  refine ⟨⟨material, acceptable⟩, ?_⟩
  rw [read_toBytes_of_partCount countable (own.partCount.trans bare.partCount.symm), stored, made]
  exact dif_pos acceptable

/-- The bytes of a bare key are read under the other bare type exactly if there are 32 of
them. -/
theorem fails_read_toBytes_of_bare (other : keyType ≠ key.keyType) :
    Fails (read keyType key.toBytes) ↔ key.size ≠ 256 := by
  constructor
  · intro failed size
    obtain ⟨again, found⟩ := exists_read_bare countable own bare size
    rw [found] at failed
    exact not_fails_ok again failed
  · intro size
    rw [fails_iff_forall_ne_ok]
    intro again found
    have same := (same_of_read_bare countable own bare found).1
    -- One of the two is a key of HMAC, and these have no other size.
    rcases own with mac | aead
    · exact size (size_of_hmacSha1 mac)
    · rcases bare with rfl | rfl
      · exact size (same.symm.trans (size_of_hmacSha1 (keyType_of_read found)))
      · exact other aead.symm

end Bare

end Other

/-- Under another type than its own the bytes of a key are not read as a key, unless it has 256
bits and the keys of both types are bare.  In that case they are read as a key, which is stored
as the same bytes. -/
theorem read_as_other {key : Key} {keyType : KeyType} (other : keyType ≠ key.keyType)
    (countable : key.toBytes.length < 2 ^ 64) :
    (Fails (read keyType key.toBytes) ↔
      ¬ (key.size = 256 ∧ key.keyType.IsBare ∧ keyType.IsBare)) ∧
    ∀ again, read keyType key.toBytes = .ok again → again.toBytes = key.toBytes := by
  by_cases bare : key.keyType.IsBare ∧ keyType.IsBare
  · obtain ⟨own, bare⟩ := bare
    refine ⟨?_, fun again found => (same_of_read_bare countable own bare found).2⟩
    rw [fails_read_toBytes_of_bare countable own bare other, and_iff_left ⟨own, bare⟩]
  · have failed := fails_read_toBytes_of_not_bare countable other bare
    refine ⟨iff_of_true failed fun confused => bare confused.2, ?_⟩
    intro again found
    exact absurd found (fails_iff_forall_ne_ok.mp failed again)

end Key

namespace Sample

def bareKey : Key := ⟨.hmacSha1 (List.replicate 32 7), by decide⟩

/-- A bare key with fewer bytes than the ones of HMAC. -/
def shortKey : Key := ⟨.aesAead ⟨List.replicate 16 7, by decide⟩, by decide⟩

end Sample

theorem Key.read_as_other_sample :
    Fails (Key.read .rsaPublic Sample.bareKey.toBytes) ∧
      ¬ Fails (Key.read .aesAead Sample.bareKey.toBytes) ∧
      Fails (Key.read .hmacSha1 Sample.shortKey.toBytes) := by
  have countable : Sample.bareKey.toBytes.length < 2 ^ 64 := by decide
  refine ⟨(Key.read_as_other (by decide) countable).1.mpr ?_,
    fun failed => (Key.read_as_other (by decide) countable).1.mp failed ?_,
    (Key.read_as_other (by decide) (by decide)).1.mpr ?_⟩
  · rintro ⟨-, -, bare | bare⟩ <;> cases bare
  · exact ⟨by decide, .inl rfl, .inr rfl⟩
  · rintro ⟨size, -⟩
    exact absurd size (by decide)

/-- A key of AES in Galois/counter mode is read from the bytes of a key of HMAC. -/
theorem Key.not_fails_read_as_other :
    ¬ ∀ (keyType other : KeyType) (bytes : Bytes) (key : Key),
      Key.read keyType bytes = .ok key → other ≠ keyType → Fails (Key.read other key.toBytes) := by
  intro always
  have countable : Sample.bareKey.toBytes.length < 2 ^ 64 := by decide
  have failed := always .hmacSha1 .aesAead _ _ (Key.read_toBytes countable) (by decide)
  obtain ⟨again, found⟩ :=
    Key.exists_read_bare countable (.inl rfl) (show KeyType.aesAead.IsBare from .inr rfl) rfl
  rw [found] at failed
  exact not_fails_ok again failed

end VersionedKeys
