import VersionedKeys.Proofs.Session.Packing

/-!
# Packed keys that announce too much

A packed key is unpacked out of what a crypter has decrypted, whoever encrypted it.  In an array
the stored form of the key is a byte string, and so are the parts in it.  If one of these announces
more than a buffer can hold, unpacking does not come back: `KeyPacking.unpack_eq_stopped_iff`.
-/

namespace VersionedKeys

open Outcome

namespace KeyPacking

/-- The beginning of a packed key in an array: its type, and its size, which may be any number. -/
def Introduces (front : Bytes) (keyType : KeyType) : Prop :=
  ∃ array text number contents size, front = array ++ text ++ number ∧
    Cbor.ArgumentForm 4 3 array ∧ Cbor.StringForm .text text contents ∧
    (∀ content ∈ contents, Utf8.Valid content) ∧
    contents.flatten = Utf8.encode (Tagged.tag keyType) ∧ Cbor.ArgumentForm 0 size number

/-- A packed key for sessions in an array whose stored form is excessive, or has a part that is. -/
def Overflows (packed : Bytes) : Prop :=
  ∃ front keyType stored, packed = front ++ stored ∧ Introduces front keyType ∧
    (keyType = .aes ∨ keyType = .aesAead) ∧
    (Cbor.Excess stored ∨ ∃ form contents rest, stored = form ++ rest ∧
      Cbor.StringForm .bytes form contents ∧
      Cbor.Overflows keyType.partCount contents.flatten)

/-- What stands before the stored form of a key is read as its type and its size. -/
theorem exists_read_iff {packed stored : Bytes} {keyType : KeyType} :
    (∃ first second third number,
      Cbor.readArray "packed key" 3 (.ofBytes packed) = .ok first ∧
      Cbor.readText "packed key type" first = .ok (Tagged.tag keyType, second) ∧
      Cbor.readNumber "packed key size" second = .ok (number, third) ∧ third.rest = stored) ↔
    ∃ front, packed = front ++ stored ∧ Introduces front keyType := by
  constructor
  · rintro ⟨first, second, third, number, arrays, texts, numbers, rfl⟩
    obtain ⟨array, counted, packedSplit, -⟩ := Cbor.readArray_eq_ok_iff.mp arrays
    obtain ⟨text, contents, string, valid, whole, firstSplit, -⟩ :=
      Cbor.readText_eq_ok_iff.mp texts
    obtain ⟨size, form, argument, -, secondSplit, -⟩ := Cbor.readNumber_eq_ok_iff.mp numbers
    refine ⟨array ++ text ++ form, ?_, array, text, form, contents, size, rfl, counted, string,
      valid, whole, argument⟩
    rw [show packed = array ++ first.rest from packedSplit, firstSplit, secondSplit]
    simp only [List.append_assoc]
  · rintro ⟨front, rfl, array, text, form, contents, size, rfl, counted, string, valid, whole,
      argument⟩
    simp only [List.append_assoc]
    exact ⟨⟨text ++ (form ++ stored), array.length⟩, ⟨form ++ stored, array.length + text.length⟩,
      ⟨stored, array.length + text.length + form.length⟩, UInt64.ofNat size,
      Cbor.readArray_eq_ok_iff.mpr ⟨array, counted, rfl, (Nat.zero_add _).symm⟩,
      Cbor.readText_eq_ok_iff.mpr ⟨text, contents, string, valid, whole, rfl, rfl⟩,
      Cbor.readNumber_eq_ok_iff.mpr ⟨size, form, argument, rfl, rfl, rfl⟩, rfl⟩

theorem returns_parse {Choice : Type} [Tagged Choice] (text : String) :
    Returns (Tagged.parse text : Except Error Choice) := by
  rw [Tagged.parse]
  split <;> simp

theorem returns_checkSession (keyType : KeyType) : Returns keyType.checkSession := by
  cases keyType <;> simp [KeyType.checkSession]

theorem unpackCbor_eq_stopped_iff {packed : Bytes} {reason : Stop} :
    unpackCbor packed = .error (.stopped reason) ↔
      reason = .capacityOverflow ∧ Overflows packed := by
  have sized (number : UInt64) (key : Key) : Returns (if number.toNat = key.size then .ok key
      else .error (.malformed (.packedSize number key.size))) := by
    split <;> simp
  constructor
  · intro stopped
    obtain ⟨first, arrays, afterArray⟩ := (Cbor.returns_readArray 3).bind_eq_stopped_iff.mp stopped
    obtain ⟨⟨text, second⟩, texts, afterText⟩ :=
      Cbor.returns_readText.bind_eq_stopped_iff.mp afterArray
    obtain ⟨keyType, parsed, afterType⟩ := (returns_parse text).bind_eq_stopped_iff.mp afterText
    obtain ⟨nothing, suits, afterCheck⟩ :=
      (returns_checkSession keyType).bind_eq_stopped_iff.mp afterType
    obtain ⟨⟨number, third⟩, numbers, afterNumber⟩ :=
      Cbor.returns_readNumber.bind_eq_stopped_iff.mp afterCheck
    obtain rfl := Tagged.parse_eq_ok_iff.mp parsed
    have symmetric := KeyType.checkSession_eq_ok_iff.mp suits
    obtain ⟨front, split, introduces⟩ :=
      exists_read_iff.mp ⟨first, second, third, number, arrays, texts, numbers, rfl⟩
    rcases bind_eq_stopped_iff.mp afterNumber with stopped | ⟨⟨material, last⟩, read, afterStored⟩
    · obtain ⟨rfl, excess⟩ := Cbor.readBytes_eq_stopped_iff.mp stopped
      exact ⟨rfl, front, keyType, third.rest, split, introduces, symmetric, .inl excess⟩
    · obtain ⟨form, contents, string, rfl, storedSplit, -⟩ := Cbor.readBytes_eq_ok_iff.mp read
      rcases bind_eq_stopped_iff.mp afterStored with stopped | ⟨key, -, afterKey⟩
      · obtain ⟨rfl, overflows⟩ := Key.read_eq_stopped_iff.mp stopped
        exact ⟨rfl, front, keyType, third.rest, split, introduces, symmetric,
          .inr ⟨form, contents, last.rest, storedSplit, string, overflows⟩⟩
      · exact absurd afterKey (sized number key reason)
  · rintro ⟨rfl, front, keyType, stored, split, introduces, symmetric, cause⟩
    obtain ⟨first, second, third, number, arrays, texts, numbers, rfl⟩ :=
      exists_read_iff.mpr ⟨front, split, introduces⟩
    rw [← KeyType.checkSession_eq_ok_iff] at symmetric
    simp only [unpackCbor, arrays, texts, ok_bind, Tagged.parse_tag, symmetric, numbers]
    rcases cause with excess | ⟨form, contents, rest, storedSplit, string, overflows⟩
    · rw [Cbor.readBytes_eq_stopped_iff.mpr ⟨rfl, excess⟩, error_bind]
    · have read : Cbor.readBytes "packed key material" third =
          .ok (contents.flatten, ⟨rest, third.offset + form.length⟩) :=
        Cbor.readBytes_eq_ok_iff.mpr ⟨form, contents, string, rfl, storedSplit, rfl⟩
      simp only [read, ok_bind, Key.read_eq_stopped_iff.mpr ⟨rfl, overflows⟩, error_bind]

theorem returns_takeNumber (bytes : Bytes) : Returns (takeNumber bytes) := by
  unfold takeNumber
  dsimp only
  split <;> simp

theorem returns_takePart (bytes : Bytes) : Returns (takePart bytes) := by
  refine (returns_takeNumber bytes).bind fun found => ?_
  dsimp only
  split <;> simp

theorem returns_unpackAesHmac (packed : Bytes) : Returns (unpackAesHmac packed) := by
  refine (returns_takeNumber packed).bind ?_
  rintro ⟨count, rest⟩
  dsimp only
  split
  · simp
  · refine (returns_takePart _).bind fun cipherKey => (returns_takePart _).bind fun macKey => ?_
    split
    · exact (AesHmacKey.returns_ofParts _ _).bind fun aes => Key.returns_ofMaterial _
    · simp

/-- Unpacking does not come back exactly if the key is in an array that announces too much. -/
theorem unpack_eq_stopped_iff {packing : KeyPacking} {packed : Bytes} {reason : Stop} :
    packing.unpack packed = .error (.stopped reason) ↔
      reason = .capacityOverflow ∧ packing = .cbor ∧ Overflows packed := by
  cases packing with
  | cbor => simp [unpack, unpackCbor_eq_stopped_iff]
  | aesHmac =>
      exact iff_of_false (returns_unpackAesHmac packed reason) (by simp)

end KeyPacking

end VersionedKeys
