import Mathlib.Data.List.Induction
import Mathlib.Tactic.Ring
import VersionedKeys.Number.Power

/-!
# Laws of byte strings

Cutting and joining, masking and unmasking, and the two ways between byte
strings and numbers: `flatten_chunks`, `xor_xor_cancel`, `toNat_ofNat` and
`ofNat_toNat`.
-/

namespace VersionedKeys.Bytes

theorem flatten_chunksWithin {size : Nat} (positive : 0 < size) (bound : Nat) (bytes : Bytes)
    (enough : bytes.length ≤ bound) : (chunksWithin size bound bytes).flatten = bytes := by
  induction bound generalizing bytes with
  | zero =>
      have : bytes = [] := List.eq_nil_of_length_eq_zero (by omega)
      simp [chunksWithin, this]
  | succ bound inductionHypothesis =>
      cases bytes with
      | nil => simp [chunksWithin]
      | cons byte rest =>
          have shorter : ((byte :: rest).drop size).length ≤ bound := by
            simp only [List.length_drop, List.length_cons] at enough ⊢
            omega
          simp only [chunksWithin, List.isEmpty_cons, Bool.false_eq_true, if_false,
            List.flatten_cons]
          rw [inductionHypothesis _ shorter, List.take_append_drop]

@[simp]
theorem flatten_chunks {size : Nat} (positive : 0 < size) (bytes : Bytes) :
    (bytes.chunks size).flatten = bytes :=
  flatten_chunksWithin positive _ _ (Nat.le_refl _)

@[simp]
theorem length_xor (left right : Bytes) :
    (xor left right).length = min left.length right.length := by
  simp [xor]

/-- A mask that is applied twice is taken off again. -/
theorem xor_xor_cancel (bytes mask : Bytes) (covered : bytes.length ≤ mask.length) :
    xor (xor bytes mask) mask = bytes := by
  induction bytes generalizing mask with
  | nil => simp [xor]
  | cons byte rest inductionHypothesis =>
      cases mask with
      | nil => simp at covered
      | cons cover mask =>
          have restCovered : rest.length ≤ mask.length := by simpa using covered
          have step := inductionHypothesis mask restCovered
          simp only [xor, List.zipWith_cons_cons] at step ⊢
          rw [step, UInt8.xor_assoc, UInt8.xor_self, UInt8.xor_zero]

@[simp]
theorem toNat_nil : toNat [] = 0 := rfl

@[simp]
theorem toNat_append_singleton (bytes : Bytes) (byte : UInt8) :
    toNat (bytes ++ [byte]) = toNat bytes * 256 + byte.toNat := by
  simp [toNat]

theorem toNat_lt (bytes : Bytes) : toNat bytes < 256 ^ bytes.length := by
  induction bytes using List.reverseRecOn with
  | nil => simp
  | append_singleton bytes byte inductionHypothesis =>
      have small := byte.toNat_lt
      rw [toNat_append_singleton, List.length_append, List.length_singleton, Nat.pow_succ]
      omega

theorem toNat_ofNat (width value : Nat) : toNat (ofNat width value) = value % 256 ^ width := by
  induction width generalizing value with
  | zero => simp [ofNat, Nat.mod_one]
  | succ width inductionHypothesis =>
      have digit : (UInt8.ofNat value).toNat = value % 256 := by simp
      rw [ofNat, toNat_append_singleton, inductionHypothesis, digit, Nat.pow_succ',
        Nat.mod_mul]
      ring

@[simp]
theorem ofNat_toNat (bytes : Bytes) : ofNat bytes.length (toNat bytes) = bytes := by
  induction bytes using List.reverseRecOn with
  | nil => rfl
  | append_singleton bytes byte inductionHypothesis =>
      have small := byte.toNat_lt
      have quotient : (toNat bytes * 256 + byte.toNat) / 256 = toNat bytes := by omega
      have digit : UInt8.ofNat (toNat bytes * 256 + byte.toNat) = byte := by
        apply UInt8.toNat_inj.mp
        simp only [UInt8.toNat_ofNat']
        omega
      rw [List.length_append, List.length_singleton, ofNat, toNat_append_singleton, quotient,
        inductionHypothesis, digit]

theorem ofNat_mod (width value : Nat) : ofNat width (value % 256 ^ width) = ofNat width value := by
  have digits := ofNat_toNat (ofNat width value)
  rwa [length_ofNat, toNat_ofNat] at digits

theorem ofNat_inj {width left right : Nat} (leftSmall : left < 256 ^ width)
    (rightSmall : right < 256 ^ width) : ofNat width left = ofNat width right ↔ left = right := by
  constructor
  · intro same
    have values := congrArg toNat same
    rwa [toNat_ofNat, toNat_ofNat, Nat.mod_eq_of_lt leftSmall, Nat.mod_eq_of_lt rightSmall]
      at values
  · rintro rfl
    rfl

/-- A string after its length ends where the length says, whatever follows. -/
theorem append_ofNat_length_inj {width : Nat} {left right rest tail : Bytes}
    (leftShort : left.length < 256 ^ width) (rightShort : right.length < 256 ^ width) :
    ofNat width left.length ++ (left ++ rest) = ofNat width right.length ++ (right ++ tail) ↔
      left = right ∧ rest = tail := by
  constructor
  · intro same
    have widths : (ofNat width left.length).length = (ofNat width right.length).length := by
      rw [length_ofNat, length_ofNat]
    obtain ⟨lengths, bodies⟩ := List.append_inj same widths
    exact List.append_inj bodies ((ofNat_inj leftShort rightShort).mp lengths)
  · rintro ⟨rfl, rfl⟩
    rfl

theorem toNat_cons_zero (bytes : Bytes) : toNat (0 :: bytes) = toNat bytes := rfl

/-- The shortest form of a number has a digit that is not zero in front. -/
theorem pow_le_of_byteLength {value width : Nat} (longer : width < byteLength value) :
    256 ^ width ≤ value := by
  rw [byteLength, bitLength] at longer
  split at longer
  · omega
  · next nonzero =>
      have digits : 8 * width ≤ value.log2 := by omega
      calc
        256 ^ width = 2 ^ (8 * width) := by rw [Nat.pow_mul]
        _ ≤ 2 ^ value.log2 := Nat.pow_le_pow_right (by norm_num) digits
        _ ≤ value := Nat.log2_self_le nonzero

theorem bitLength_mono {left right : Nat} (smaller : left ≤ right) :
    bitLength left ≤ bitLength right := by
  rw [bitLength, bitLength]
  split
  · exact Nat.zero_le _
  · next nonzero =>
      have power := (Nat.log2_self_le nonzero).trans smaller
      rw [if_neg (by omega)]
      exact Nat.succ_le_succ ((Nat.le_log2 (by omega)).mpr power)

theorem lt_pow_byteLength (value : Nat) : value < 256 ^ byteLength value := by
  calc
    value < 2 ^ bitLength value := Number.lt_two_pow_bitLength value
    _ ≤ 2 ^ (8 * byteLength value) :=
      Nat.pow_le_pow_right (by norm_num) (by rw [byteLength]; omega)
    _ = 256 ^ byteLength value := by rw [Nat.pow_mul]

@[simp]
theorem toNat_ofNatMinimal (value : Nat) : toNat (ofNatMinimal value) = value := by
  rw [ofNatMinimal, toNat_ofNat]
  exact Nat.mod_eq_of_lt (lt_pow_byteLength value)

/-- A number is stored in no more bytes than it was read from. -/
theorem length_ofNatMinimal_toNat_le (bytes : Bytes) :
    (ofNatMinimal (toNat bytes)).length ≤ bytes.length := by
  rw [ofNatMinimal, length_ofNat]
  by_contra longer
  have large := pow_le_of_byteLength (Nat.lt_of_not_le longer)
  have small := toNat_lt bytes
  omega

end VersionedKeys.Bytes
