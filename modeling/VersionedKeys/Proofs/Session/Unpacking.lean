import VersionedKeys.Proofs.RoundTrip
import VersionedKeys.Proofs.Session.Packing

/-!
# Exactly what is unpacked

The parts of an AES key and its HMAC key are unpacked from the bytes that they are packed as,
and from no others: a count and lengths in front of the parts leave no choice
(`KeyPacking.eq_of_counted_append`).  An array may have bytes after it, and what it announces is
what the key is (`KeyPacking.unpackCbor_eq_ok_iff`).  Both together are
`KeyPacking.unpack_exact`.
-/

namespace VersionedKeys

open Outcome

/-- Parts that each have their length in front can be told apart, whatever follows. -/
theorem KeyHash.eq_of_lengthPrefixed_append {left right : List Bytes} {rest others : Bytes}
    (same : left.length = right.length) (leftShort : ∀ part ∈ left, part.length < 2 ^ 32)
    (rightShort : ∀ part ∈ right, part.length < 2 ^ 32)
    (equality : lengthPrefixed left ++ rest = lengthPrefixed right ++ others) :
    left = right ∧ rest = others := by
  induction left generalizing right with
  | nil =>
      rw [List.eq_nil_of_length_eq_zero same.symm] at equality ⊢
      exact ⟨rfl, equality⟩
  | cons part parts inductionHypothesis =>
      cases right with
      | nil => cases same
      | cons other right =>
          simp only [lengthPrefixed, List.flatMap_cons, List.append_assoc] at equality
          -- Reading takes the first part of either list from the same bytes.
          have read := KeyPacking.takePart_append (leftShort part List.mem_cons_self)
            (lengthPrefixed parts ++ rest)
          rw [lengthPrefixed, equality,
            KeyPacking.takePart_append (rightShort other List.mem_cons_self)] at read
          obtain ⟨rfl, later⟩ := Prod.mk.inj (Except.ok.inj read)
          obtain ⟨rfl, rfl⟩ := inductionHypothesis (Nat.succ.inj same)
            (fun part membership => leftShort part (List.mem_cons_of_mem _ membership))
            (fun part membership => rightShort part (List.mem_cons_of_mem _ membership))
            later.symm
          exact ⟨rfl, rfl⟩

namespace KeyPacking

section AesHmac

/-- The number of some parts, and each part after its length. -/
def counted (parts : List Bytes) : Bytes :=
  Bytes.ofNat 4 parts.length ++ KeyHash.lengthPrefixed parts

/-- Parts whose number and lengths have 32 bits. -/
structure Countable (parts : List Bytes) : Prop where
  few : parts.length < 2 ^ 32
  short : ∀ part ∈ parts, part.length < 2 ^ 32

theorem eq_of_counted_append {left right : List Bytes} {rest others : Bytes}
    (countable : Countable left) (otherCountable : Countable right)
    (equality : counted left ++ rest = counted right ++ others) : left = right ∧ rest = others := by
  rw [counted, counted, List.append_assoc, List.append_assoc] at equality
  have read := takeNumber_ofNat countable.few (KeyHash.lengthPrefixed left ++ rest)
  rw [equality, takeNumber_ofNat otherCountable.few] at read
  obtain ⟨same, later⟩ := Prod.mk.inj (Except.ok.inj read)
  exact KeyHash.eq_of_lengthPrefixed_append same.symm countable.short otherCountable.short
    later.symm

theorem takeNumber_eq_ok_iff {bytes rest : Bytes} {value : Nat} :
    takeNumber bytes = .ok (value, rest) ↔
      value < 2 ^ 32 ∧ bytes = Bytes.ofNat 4 value ++ rest := by
  constructor
  · intro taken
    rw [takeNumber] at taken
    split at taken
    · cases taken
    · next long =>
        cases taken
        have width : (bytes.take 4).length = 4 := by
          have short := List.length_take_le 4 bytes
          omega
        have small := Bytes.toNat_lt (bytes.take 4)
        have digits := Bytes.ofNat_toNat (bytes.take 4)
        rw [width] at small digits
        exact ⟨small, by rw [digits, List.take_append_drop]⟩
  · rintro ⟨small, rfl⟩
    exact takeNumber_ofNat small rest

theorem takePart_eq_ok_iff {bytes part rest : Bytes} :
    takePart bytes = .ok (part, rest) ↔
      part.length < 2 ^ 32 ∧ bytes = Bytes.ofNat 4 part.length ++ (part ++ rest) := by
  constructor
  · intro taken
    obtain ⟨⟨length, later⟩, number, parted⟩ := bind_eq_ok.mp taken
    obtain ⟨small, rfl⟩ := takeNumber_eq_ok_iff.mp number
    dsimp only at parted
    split at parted
    · cases parted
    · next long =>
        cases parted
        have width : (later.take length).length = length := by
          rw [List.length_take]
          omega
        exact ⟨by rwa [width], by rw [width, List.take_append_drop]⟩
  · rintro ⟨short, rfl⟩
    exact takePart_append short rest

theorem packAesHmac_eq_ok_iff {key : Key} {packed : Bytes} :
    packAesHmac key = .ok packed ↔
      ∃ aes, key.material = .aes aes ∧ packed = counted [aes.aes.bytes, aes.mac] := by
  rw [packAesHmac]
  constructor
  · intro packs
    split at packs
    · next aes material =>
        cases packs
        exact ⟨aes, material, rfl⟩
    · cases packs
  · rintro ⟨aes, material, rfl⟩
    rw [material]
    rfl

theorem unpackAesHmac_eq_ok_iff {key : Key} {packed : Bytes} :
    unpackAesHmac packed = .ok key ↔ packAesHmac key = .ok packed := by
  refine ⟨?_, unpackAesHmac_packAesHmac⟩
  intro unpacked
  obtain ⟨⟨count, first⟩, counts, afterCount⟩ := bind_eq_ok.mp unpacked
  dsimp only at afterCount
  split at afterCount
  · cases afterCount
  · next two =>
      obtain ⟨⟨cipherKey, second⟩, cipherTaken, afterCipher⟩ := bind_eq_ok.mp afterCount
      obtain ⟨⟨macKey, last⟩, macTaken, afterMac⟩ := bind_eq_ok.mp afterCipher
      dsimp only at afterMac macTaken
      split at afterMac
      · next ended =>
          obtain ⟨aes, made, found⟩ := bind_eq_ok.mp afterMac
          obtain ⟨rfl, rfl⟩ := AesHmacKey.eq_of_ofParts made
          obtain ⟨-, rfl⟩ := takeNumber_eq_ok_iff.mp counts
          obtain ⟨-, rfl⟩ := takePart_eq_ok_iff.mp cipherTaken
          obtain ⟨-, rfl⟩ := takePart_eq_ok_iff.mp macTaken
          refine packAesHmac_eq_ok_iff.mpr ⟨aes, Key.ofMaterial_eq_ok_iff.mp found, ?_⟩
          rw [List.isEmpty_iff.mp ended, not_not.mp two]
          simp [counted, KeyHash.lengthPrefixed]
      · cases afterMac

theorem countable_of_aes (aes : AesHmacKey) : Countable [aes.aes.bytes, aes.mac] where
  few := by simp
  short := by
    have cipherKey := aes.aes.length_le
    have macKey := aes.length_mac
    simp only [List.forall_mem_cons, List.not_mem_nil, false_imp_iff, implies_true, and_true]
    omega

/-- What is unpacked has no bytes after it that are unpacked too. -/
theorem eq_nil_of_unpackAesHmac_append {key other : Key} {packed rest : Bytes}
    (unpacked : unpackAesHmac packed = .ok key)
    (longer : unpackAesHmac (packed ++ rest) = .ok other) : rest = [] := by
  rw [unpackAesHmac_eq_ok_iff, packAesHmac_eq_ok_iff] at unpacked longer
  obtain ⟨aes, -, rfl⟩ := unpacked
  obtain ⟨another, -, equality⟩ := longer
  rw [← List.append_nil (counted [another.aes.bytes, another.mac])] at equality
  exact (eq_of_counted_append (countable_of_aes aes) (countable_of_aes another) equality).2

/-- Of all lists of parts only those of an AES key and its HMAC key are unpacked. -/
theorem exists_unpackAesHmac_counted_iff {parts : List Bytes} (countable : Countable parts) :
    (∃ key, unpackAesHmac (counted parts) = .ok key) ↔
      ∃ cipherKey macKey, parts = [cipherKey, macKey] ∧
        (cipherKey.length = 16 ∨ cipherKey.length = 24 ∨ cipherKey.length = 32) ∧
        macKey.length = 32 := by
  constructor
  · rintro ⟨key, unpacked⟩
    rw [unpackAesHmac_eq_ok_iff, packAesHmac_eq_ok_iff] at unpacked
    obtain ⟨aes, -, equality⟩ := unpacked
    obtain ⟨rfl, -⟩ := eq_of_counted_append countable (countable_of_aes aes)
      (congrArg (· ++ []) equality)
    exact ⟨_, _, rfl, aes.aes.length_mem, aes.length_mac⟩
  · rintro ⟨cipherKey, macKey, rfl, length_mem, length_mac⟩
    have acceptable : KeyType.aes.isAcceptableSize (cipherKey.length * 8) = true := by
      rcases length_mem with length | length | length <;> rw [length] <;> rfl
    exact ⟨⟨.aes ⟨⟨cipherKey, length_mem⟩, macKey, length_mac⟩, acceptable⟩,
      unpackAesHmac_eq_ok_iff.mpr (packAesHmac_eq_ok_iff.mpr ⟨_, rfl, rfl⟩)⟩

end AesHmac

section Cbor

/-- An array announces the type, the size and the material of a key. -/
def Announces (packed : Bytes) (keyType : KeyType) (size : Nat) (material : Bytes) : Prop :=
  ∃ first second third last number, Cbor.readArray "packed key" 3 (.ofBytes packed) = .ok first ∧
    Cbor.readText "packed key type" first = .ok (Tagged.tag keyType, second) ∧
    Cbor.readNumber "packed key size" second = .ok (number, third) ∧ number.toNat = size ∧
    Cbor.readBytes "packed key material" third = .ok (material, last)

theorem unpackCbor_eq_ok_iff {key : Key} {packed : Bytes} :
    unpackCbor packed = .ok key ↔
      (key.keyType = .aes ∨ key.keyType = .aesAead) ∧
        ∃ material, Announces packed key.keyType key.size material ∧
          Key.read key.keyType material = .ok key := by
  constructor
  · intro unpacked
    obtain ⟨first, array, afterArray⟩ := bind_eq_ok.mp unpacked
    obtain ⟨⟨text, second⟩, texts, afterText⟩ := bind_eq_ok.mp afterArray
    obtain ⟨keyType, parsed, afterType⟩ := bind_eq_ok.mp afterText
    obtain ⟨nothing, suits, afterCheck⟩ := bind_eq_ok.mp afterType
    obtain ⟨⟨number, third⟩, numbers, afterNumber⟩ := bind_eq_ok.mp afterCheck
    obtain ⟨⟨material, last⟩, materials, afterMaterial⟩ := bind_eq_ok.mp afterNumber
    obtain ⟨found, read, claimed⟩ := bind_eq_ok.mp afterMaterial
    split at claimed
    · next same =>
        cases claimed
        obtain rfl := Key.keyType_of_read read
        obtain rfl := Tagged.parse_eq_ok_iff.mp parsed
        exact ⟨KeyType.checkSession_eq_ok_iff.mp suits, material,
          ⟨first, second, third, last, number, array, texts, numbers, same, materials⟩, read⟩
    · cases claimed
  · rintro ⟨suits, material, ⟨first, second, third, last, number, array, texts, numbers, same,
      materials⟩, read⟩
    rw [← KeyType.checkSession_eq_ok_iff] at suits
    simp only [unpackCbor, array, texts, ok_bind, Tagged.parse_tag, suits, numbers, materials, read,
      same, if_true]

theorem exists_packCbor {key : Key} (symmetric : key.keyType = .aes ∨ key.keyType = .aesAead) :
    ∃ packed, packCbor key = .ok packed := by
  rw [packCbor, KeyType.checkSession_eq_ok_iff.mpr symmetric]
  exact ⟨_, rfl⟩

theorem packCbor_of_other {key : Key}
    (other : ¬ (key.keyType = .aes ∨ key.keyType = .aesAead)) :
    packCbor key = .error (.key (.noSessionKey key.keyType)) := by
  rw [packCbor]
  cases keyType : key.keyType <;> simp [keyType] at other ⊢ <;> rfl

end Cbor

/-- A key is unpacked from the parts of an AES key exactly if it is packed to them, so that
nothing may be missing, follow or be of another number or length.  From an array it is unpacked
whatever follows, as a key of a type for sessions that has the size the array announces, and
keys of other types are not packed. -/
theorem unpack_exact :
    (∀ key packed, aesHmac.unpack packed = .ok key ↔
      key.keyType = .aes ∧ aesHmac.pack key = .ok packed) ∧
    (∀ key front rest, rest ≠ [] →
      (aesHmac.pack key = .ok front → Fails (aesHmac.unpack (front ++ rest))) ∧
      (aesHmac.pack key = .ok (front ++ rest) → Fails (aesHmac.unpack front))) ∧
    (∀ parts, Countable parts →
      ((∃ key, aesHmac.unpack (counted parts) = .ok key) ↔
        ∃ cipherKey macKey, parts = [cipherKey, macKey] ∧
          (cipherKey.length = 16 ∨ cipherKey.length = 24 ∨ cipherKey.length = 32) ∧
          macKey.length = 32)) ∧
    (∀ key, key.keyType = .aes ∨ key.keyType = .aesAead →
      ∃ packed, cbor.pack key = .ok packed ∧ ∀ rest, cbor.unpack (packed ++ rest) = .ok key) ∧
    (∀ key, ¬ (key.keyType = .aes ∨ key.keyType = .aesAead) →
      cbor.pack key = .error (.key (.noSessionKey key.keyType))) ∧
    ∀ key packed, cbor.unpack packed = .ok key ↔
      (key.keyType = .aes ∨ key.keyType = .aesAead) ∧
        ∃ material, Announces packed key.keyType key.size material ∧
          Key.read key.keyType material = .ok key := by
  refine ⟨?_, ?_, fun parts => exists_unpackAesHmac_counted_iff, ?_, fun key => packCbor_of_other,
    fun key packed => unpackCbor_eq_ok_iff⟩
  · intro key packed
    refine unpackAesHmac_eq_ok_iff.trans ⟨fun packs => ⟨?_, packs⟩, And.right⟩
    obtain ⟨aes, material, -⟩ := packAesHmac_eq_ok_iff.mp packs
    rw [Key.keyType, material]
    rfl
  · intro key front rest some
    constructor
    · intro packs
      rw [fails_iff_forall_ne_ok]
      intro other longer
      exact some (eq_nil_of_unpackAesHmac_append (unpackAesHmac_packAesHmac packs) longer)
    · intro packs
      rw [fails_iff_forall_ne_ok]
      intro other shorter
      exact some (eq_nil_of_unpackAesHmac_append shorter (unpackAesHmac_packAesHmac packs))
  · intro key symmetric
    obtain ⟨packed, packs⟩ := exists_packCbor symmetric
    exact ⟨packed, packs, unpackCbor_packCbor packs⟩

end KeyPacking

theorem KeyPacking.unpack_exact_sample :
    ∃ packed array, aesHmac.pack Sample.key = .ok packed ∧ aesHmac.unpack packed = .ok Sample.key ∧
      Fails (aesHmac.unpack (packed ++ [0])) ∧
      cbor.pack Sample.key = .ok array ∧ cbor.unpack (array ++ [0]) = .ok Sample.key ∧
      cbor.pack Sample.macKey = .error (.key (.noSessionKey .hmacSha1)) := by
  obtain ⟨exact, whole, -, every, others, -⟩ := unpack_exact
  have packs : aesHmac.pack Sample.key = .ok (counted [List.replicate 16 1, List.replicate 32 2]) :=
    rfl
  obtain ⟨array, arrays, reads⟩ := every Sample.key (.inl rfl)
  exact ⟨_, array, packs, (exact _ _).mpr ⟨rfl, packs⟩, (whole _ _ [0] (by decide)).1 packs, arrays,
    reads [0], others Sample.macKey (by decide)⟩

end VersionedKeys
