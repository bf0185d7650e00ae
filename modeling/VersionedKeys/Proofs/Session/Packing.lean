import VersionedKeys.Proofs.Key.Reading
import VersionedKeys.Proofs.Tagged
import VersionedKeys.Session

/-!
# Packed keys

A key is unpacked from what it has been packed to, in either form: `unpack_pack`.
-/

namespace VersionedKeys

theorem KeyType.checkSession_eq_ok_iff {keyType : KeyType} :
    keyType.checkSession = .ok () ↔ keyType = .aes ∨ keyType = .aesAead := by
  cases keyType <;> simp [checkSession]

namespace KeyPacking

theorem takeNumber_ofNat {value : Nat} (small : value < 2 ^ 32) (rest : Bytes) :
    takeNumber (Bytes.ofNat 4 value ++ rest) = .ok (value, rest) := by
  have width : (Bytes.ofNat 4 value).length = 4 := Bytes.length_ofNat _ _
  have number : Bytes.toNat (Bytes.ofNat 4 value) = value := by
    rw [Bytes.toNat_ofNat]
    exact Nat.mod_eq_of_lt small
  rw [takeNumber, List.take_left' width, List.drop_left' width]
  simp only [width, Nat.lt_irrefl, if_false, number]

theorem takePart_append {part : Bytes} (short : part.length < 2 ^ 32) (rest : Bytes) :
    takePart (Bytes.ofNat 4 part.length ++ (part ++ rest)) = .ok (part, rest) := by
  rw [takePart, takeNumber_ofNat short, Outcome.ok_bind]
  simp only [List.take_left, List.drop_left]
  rw [if_neg (by simp)]

theorem unpackAesHmac_packAesHmac {key : Key} {packed : Bytes}
    (made : packAesHmac key = .ok packed) : unpackAesHmac packed = .ok key := by
  rw [packAesHmac] at made
  split at made
  · next aes material =>
      cases made
      have cipherKey : aes.aes.bytes.length < 2 ^ 32 := by
        have length := aes.aes.length_le
        omega
      have macKey : aes.mac.length < 2 ^ 32 := by
        have length := aes.length_mac
        omega
      have second := takePart_append macKey []
      rw [List.append_nil] at second
      rw [unpackAesHmac, takeNumber_ofNat (by decide), Outcome.ok_bind]
      simp only [ne_eq, not_true_eq_false, if_false, KeyHash.lengthPrefixed, List.flatMap_cons,
        List.flatMap_nil, List.append_nil, List.append_assoc, takePart_append cipherKey, second,
        Outcome.ok_bind, List.isEmpty_nil, if_true, aes.ofParts_parts]
      rw [← material, Key.ofMaterial_material]
  · cases made

theorem toNat_ofNat_size (key : Key) : (UInt64.ofNat key.size).toNat = key.size := by
  have small := key.size_le
  rw [UInt64.toNat_ofNat']
  exact Nat.mod_eq_of_lt (by omega)

/-- Bytes after a key do not count. -/
theorem unpackCbor_packCbor {key : Key} {packed : Bytes} (made : packCbor key = .ok packed)
    (rest : Bytes) : unpackCbor (packed ++ rest) = .ok key := by
  obtain ⟨nothing, suits, made⟩ := Outcome.bind_eq_ok.mp made
  cases made
  have symmetric := KeyType.checkSession_eq_ok_iff.mp suits
  have short : key.toBytes.length < 2 ^ 64 := by
    have length := Key.length_toBytes_le symmetric
    omega
  rw [unpackCbor, Cbor.Reader.ofBytes]
  simp only [List.append_assoc, Cbor.readArray_writeArray _ _ _ (show 3 < 2 ^ 64 by decide),
    Outcome.ok_bind, Tagged.readText_writeText_tag, Tagged.parse_tag, suits,
    Cbor.readNumber_writeNumber, Cbor.readBytes_writeBytes _ _ _ short, Key.read_toBytes short,
    toNat_ofNat_size, if_true]

/-- What is packed is unpacked again. -/
theorem unpack_pack {packing : KeyPacking} {key : Key} {packed : Bytes}
    (made : packing.pack key = .ok packed) : packing.unpack packed = .ok key := by
  cases packing with
  | cbor =>
      have unpacked := unpackCbor_packCbor made []
      rw [List.append_nil] at unpacked
      exact unpacked
  | aesHmac => exact unpackAesHmac_packAesHmac made

/-- Each form of packing suits a type of keys, and what it makes of them fits in a block of
the shortest key of RSA. -/
theorem exists_pack {packing : KeyPacking} {key : Key}
    (symmetric : key.keyType = .aes ∨ key.keyType = .aesAead)
    (suits : packing = .aesHmac → key.keyType = .aes) :
    ∃ packed, packing.pack key = .ok packed ∧ packed.length ≤ 86 := by
  cases packing with
  | cbor =>
      have checked := KeyType.checkSession_eq_ok_iff.mpr symmetric
      refine ⟨_, by rw [pack, packCbor, checked, Outcome.ok_bind], ?_⟩
      have array : (Cbor.writeArray 3).length = 1 := rfl
      have tag : (Cbor.writeText (Tagged.tag key.keyType)).length ≤ 9 := by
        rcases symmetric with keyType | keyType <;> rw [keyType] <;> decide
      have number : (Cbor.writeNumber (UInt64.ofNat key.size)).length ≤ 3 := by
        have small := key.size_le
        have width : Cbor.shortestWidth key.size ≤ 2 := by
          unfold Cbor.shortestWidth
          split_ifs <;> omega
        rw [Cbor.writeNumber, toNat_ofNat_size, Cbor.length_encodeHeader _ (by omega)]
        omega
      have length := Key.length_toBytes_le symmetric
      have bytes := Cbor.length_writeBytes_le key.toBytes (by omega)
      simp only [List.length_append]
      omega
  | aesHmac =>
      cases material : key.material with
      | aes aes =>
          refine ⟨_, by rw [pack, packAesHmac, material], ?_⟩
          have cipherKey := aes.aes.length_le
          have macKey := aes.length_mac
          simp only [KeyHash.lengthPrefixed, List.flatMap_cons, List.flatMap_nil,
            List.length_append, Bytes.length_ofNat, List.length_nil]
          omega
      | _ => simp [Key.keyType, material, Material.keyType] at suits

end KeyPacking

end VersionedKeys
