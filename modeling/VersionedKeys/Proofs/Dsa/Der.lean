import VersionedKeys.Dsa.Der
import VersionedKeys.Proofs.Bytes

/-!
# Signatures that are read back

The two numbers of a signature are read back from its bytes, if they are no longer than the
large modulus of a key: `decode?_encode`.  Shorter ones take a fixed number of bytes beside their
own: `length_encode`.
-/

namespace VersionedKeys.Dsa.Der

/-- How a length is written: the first byte is the length, or tells the number of its bytes. -/
theorem exists_encodeLength_eq {length : Nat} (small : length < 2 ^ 32) :
    ∃ lead digits, encodeLength length = lead :: digits ∧
      (if lead < 0x80 then 0 else lead.toNat - 0x80) = digits.length ∧
      (if lead < 0x80 then lead.toNat else Bytes.toNat digits) = length := by
  rw [encodeLength]
  by_cases short : length < 0x80
  · have lead : (UInt8.ofNat length).toNat = length := by
      rw [UInt8.toNat_ofNat']
      omega
    have below : UInt8.ofNat length < 0x80 := by
      rw [UInt8.lt_iff_toNat_lt, lead]
      exact short
    exact ⟨_, _, if_pos short, if_pos below, (if_pos below).trans lead⟩
  · have width : Bytes.byteLength length ≤ 4 := by
      by_contra longer
      have bound := Bytes.pow_le_of_byteLength (Nat.lt_of_not_le longer)
      omega
    have digits : (Bytes.ofNatMinimal length).length = Bytes.byteLength length :=
      Bytes.length_ofNat _ _
    have lead : (UInt8.ofNat (0x80 + (Bytes.ofNatMinimal length).length)).toNat =
        0x80 + (Bytes.ofNatMinimal length).length := by
      rw [UInt8.toNat_ofNat', digits]
      omega
    have above : ¬ UInt8.ofNat (0x80 + (Bytes.ofNatMinimal length).length) < 0x80 := by
      rw [UInt8.lt_iff_toNat_lt, lead]
      exact Nat.not_lt.mpr (Nat.le_add_right _ _)
    refine ⟨_, _, if_neg short, ?_, (if_neg above).trans (Bytes.toNat_ofNatMinimal length)⟩
    rw [if_neg above, lead, Nat.add_sub_cancel_left]

/-- An item is read back, and what follows it is left. -/
theorem decodeItem?_eq {content : Bytes} (small : content.length < 2 ^ 32) (tag : UInt8)
    (rest : Bytes) :
    decodeItem? tag (tag :: (encodeLength content.length ++ content) ++ rest) =
      some (content, rest) := by
  obtain ⟨lead, digits, written, width, value⟩ := exists_encodeLength_eq small
  have announced : (digits ++ (content ++ rest)).take digits.length = digits :=
    List.take_left' rfl
  have behind : (digits ++ (content ++ rest)).drop digits.length = content ++ rest :=
    List.drop_left' rfl
  rw [written]
  simp only [List.cons_append, List.append_assoc, decodeItem?, width, announced, behind, value,
    written, List.length_append, Nat.le_add_right, and_self, if_true, List.take_left,
    List.drop_left]

theorem toNat_integerContent (value : Nat) : Bytes.toNat (integerContent value) = value := by
  rw [integerContent, Bytes.toNat_ofNat]
  refine Nat.mod_eq_of_lt ((Bytes.lt_pow_byteLength value).trans_le ?_)
  rw [Bytes.byteLength]
  exact Nat.pow_le_pow_right (by omega) (by omega)

section Short

variable {value : Nat} (short : Bytes.bitLength value ≤ 1024)

include short

theorem length_integerContent_le : (integerContent value).length ≤ 129 := by
  rw [integerContent, Bytes.length_ofNat]
  omega

theorem decodeInteger?_encodeInteger (rest : Bytes) :
    decodeInteger? (encodeInteger value ++ rest) = some (value, rest) := by
  have content := length_integerContent_le short
  have small : (integerContent value).length < 2 ^ 32 := by omega
  have item := decodeItem?_eq small 0x02 rest
  rw [decodeInteger?, encodeInteger, item]
  simp only [Option.bind_eq_bind, Option.bind_some, toNat_integerContent, if_true]

theorem length_encodeInteger_le : (encodeInteger value).length ≤ 132 := by
  have content := length_integerContent_le short
  have width : Bytes.byteLength (integerContent value).length ≤ 1 := by
    by_contra longer
    have bound := Bytes.pow_le_of_byteLength (Nat.lt_of_not_le longer)
    omega
  have announced : (encodeLength (integerContent value).length).length ≤ 2 := by
    rw [encodeLength]
    split
    · exact Nat.le_succ 1
    · rw [List.length_cons, Bytes.ofNatMinimal, Bytes.length_ofNat]
      omega
  rw [encodeInteger, List.length_cons, List.length_append]
  omega

end Short

/-- The two numbers of a signature are read back. -/
theorem decode?_encode {first second : Nat} (firstShort : Bytes.bitLength first ≤ 1024)
    (secondShort : Bytes.bitLength second ≤ 1024) :
    decode? (encode first second) = some (first, second) := by
  have firstLength := length_encodeInteger_le firstShort
  have secondLength := length_encodeInteger_le secondShort
  have small : (encodeInteger first ++ encodeInteger second).length < 2 ^ 32 := by
    rw [List.length_append]
    omega
  have sequence := decodeItem?_eq small 0x30 []
  have secondRead := decodeInteger?_encodeInteger secondShort []
  rw [List.append_nil] at sequence secondRead
  rw [decode?, encode, sequence]
  simp only [Option.bind_eq_bind, Option.bind_some, decodeInteger?_encodeInteger firstShort,
    secondRead, List.isEmpty_nil, Bool.and_self, if_true]

section Length

theorem length_encodeLength {length : Nat} (short : length < 0x80) :
    (encodeLength length).length = 1 := by
  rw [encodeLength, if_pos short]
  rfl

/-- The content of an integer has a byte more than there are whole bytes in the number, which
holds either the highest digit or a zero. -/
theorem length_encodeInteger {value : Nat} (short : Bytes.bitLength value / 8 < 127) :
    (encodeInteger value).length = Bytes.bitLength value / 8 + 3 := by
  have content : (integerContent value).length = Bytes.bitLength value / 8 + 1 :=
    Bytes.length_ofNat _ _
  rw [encodeInteger, List.length_cons, List.length_append, length_encodeLength (by omega), content]
  omega

theorem length_encode {first second : Nat}
    (short : Bytes.bitLength first / 8 + Bytes.bitLength second / 8 < 122) :
    (encode first second).length = Bytes.bitLength first / 8 + Bytes.bitLength second / 8 + 8 := by
  have content : (encodeInteger first ++ encodeInteger second).length =
      Bytes.bitLength first / 8 + Bytes.bitLength second / 8 + 6 := by
    rw [List.length_append, length_encodeInteger (by omega), length_encodeInteger (by omega)]
    omega
  rw [encode, List.length_cons, List.length_append, length_encodeLength (by omega), content]
  omega

end Length

end VersionedKeys.Dsa.Der
