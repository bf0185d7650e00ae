import VersionedKeys.Aes.Cipher

/-!
# AES decryption and encryption are inverse

Every step of a round is undone by its counterpart, in either order.  Mixing of
columns is linear, and the polynomials it multiplies by have the fourth power
one, so that only the linearity of `double` is needed.
-/

namespace VersionedKeys

@[simp]
theorem Word.map_map (inner outer : UInt8 → UInt8) (word : Word) :
    (word.map inner).map outer = word.map fun byte => outer (inner byte) := rfl

@[simp]
theorem Word.map_id (word : Word) : word.map (fun byte => byte) = word := rfl

@[simp]
theorem Block.map_map (inner outer : Word → Word) (block : Block) :
    (block.map inner).map outer = block.map fun word => outer (inner word) := rfl

@[simp]
theorem Block.map_id (block : Block) : block.map (fun word => word) = block := rfl

@[simp]
theorem Word.xor_xor_cancel (word key : Word) : (word.xor key).xor key = word := by
  have cancels (byte mask : UInt8) : byte ^^^ mask ^^^ mask = byte := by
    rw [UInt8.xor_assoc, UInt8.xor_self, UInt8.xor_zero]
  simp only [Word.xor, cancels]

@[simp]
theorem Block.xor_xor_cancel (block key : Block) : (block.xor key).xor key = block := by
  simp [Block.xor]

namespace Aes

/-- A table that lists where another one has its entries takes a look-up in it
back. -/
theorem get_get_of_inverse {outer inner : Vector UInt8 256}
    (inverse : inner.toList.map (fun byte => outer.toList.getD byte.toNat 0) =
      (List.range 256).map UInt8.ofNat) (byte : UInt8) :
    outer.get ⟨(inner.get ⟨byte.toNat, byte.toNat_lt⟩).toNat, UInt8.toNat_lt _⟩ = byte := by
  have small : byte.toNat < 256 := byte.toNat_lt
  have entrySmall : inner[byte.toNat].toNat < 256 := UInt8.toNat_lt _
  have entry := congrArg (·[byte.toNat]?) inverse
  simp only [List.getElem?_map, Vector.getElem?_toList, List.getD_eq_getElem?_getD,
    Vector.getElem?_eq_getElem small, Vector.getElem?_eq_getElem entrySmall, Option.map_some,
    Option.getD_some, List.getElem?_range small, Option.some.injEq, UInt8.ofNat_toNat] at entry
  exact entry

theorem unsubstitute_substitute (byte : UInt8) : unsubstitute (substitute byte) = byte :=
  get_get_of_inverse (by decide +kernel) byte

theorem substitute_unsubstitute (byte : UInt8) : substitute (unsubstitute byte) = byte :=
  get_get_of_inverse (by decide +kernel) byte

@[simp]
theorem unshiftRows_shiftRows (block : Block) : unshiftRows (shiftRows block) = block := rfl

@[simp]
theorem shiftRows_unshiftRows (block : Block) : shiftRows (unshiftRows block) = block := rfl

/-- The product with the generator by shifts: the reduction is a multiple of the
bit that is shifted out. -/
theorem double_eq (byte : UInt8) : double byte = (byte <<< 1) ^^^ ((byte >>> 7) * 0x1B) := by
  have checked : ∀ index : Fin 256, double (UInt8.ofNat index) =
      (UInt8.ofNat index <<< 1) ^^^ ((UInt8.ofNat index >>> 7) * 0x1B) := by decide +kernel
  simpa using checked ⟨byte.toNat, byte.toNat_lt⟩

theorem shifted_out (byte : UInt8) : byte >>> 7 = 0 ∨ byte >>> 7 = 1 := by
  have checked : ∀ index : Fin 256,
      UInt8.ofNat index >>> 7 = 0 ∨ UInt8.ofNat index >>> 7 = 1 := by decide +kernel
  simpa using checked ⟨byte.toNat, byte.toNat_lt⟩

theorem xor_left_comm (first second third : UInt8) :
    first ^^^ (second ^^^ third) = second ^^^ (first ^^^ third) := by
  rw [← UInt8.xor_assoc, UInt8.xor_comm first, UInt8.xor_assoc]

theorem xor_cancel_left (first second : UInt8) : first ^^^ (first ^^^ second) = second := by
  rw [← UInt8.xor_assoc, UInt8.xor_self, UInt8.zero_xor]

theorem double_xor (left right : UInt8) :
    double (left ^^^ right) = double left ^^^ double right := by
  rw [double_eq, double_eq, double_eq, UInt8.shiftLeft_xor, UInt8.shiftRight_xor]
  rcases shifted_out left with leftBit | leftBit <;>
    rcases shifted_out right with rightBit | rightBit <;>
    simp [leftBit, rightBit, UInt8.xor_assoc, UInt8.xor_comm, xor_left_comm]

/-- Multiply a column by the square of the mixing polynomial. -/
def mixColumnTwice : Word → Word
  | ⟨a, b, c, d⟩ =>
      let even := double (double (a ^^^ c))
      let odd := double (double (b ^^^ d))
      ⟨a ^^^ even, b ^^^ odd, c ^^^ even, d ^^^ odd⟩

theorem mixColumn_mixColumn (word : Word) : mixColumn (mixColumn word) = mixColumnTwice word := by
  simp only [mixColumn, mixColumnTwice, double_xor, UInt8.xor_assoc, UInt8.xor_comm, xor_left_comm,
    xor_cancel_left, UInt8.xor_self, UInt8.zero_xor]

theorem mixColumnTwice_mixColumnTwice (word : Word) :
    mixColumnTwice (mixColumnTwice word) = word := by
  simp [mixColumnTwice, double_xor, UInt8.xor_comm, xor_left_comm]

@[simp]
theorem unmixColumn_mixColumn (word : Word) : unmixColumn (mixColumn word) = word := by
  calc
    unmixColumn (mixColumn word) = mixColumn (mixColumnTwice (mixColumn word)) := rfl
    _ = mixColumn (mixColumn (mixColumn (mixColumn word))) := by rw [← mixColumn_mixColumn]
    _ = word := by simp only [mixColumn_mixColumn, mixColumnTwice_mixColumnTwice]

@[simp]
theorem mixColumn_unmixColumn (word : Word) : mixColumn (unmixColumn word) = word := by
  calc
    mixColumn (unmixColumn word) = mixColumn (mixColumn (mixColumnTwice word)) := rfl
    _ = word := by rw [mixColumn_mixColumn, mixColumnTwice_mixColumnTwice]

@[simp]
theorem unround_round (block : Block) : unround (round block) = block := by
  simp [round, unround, unsubstitute_substitute]

@[simp]
theorem round_unround (block : Block) : round (unround block) = block := by
  simp [round, unround, substitute_unsubstitute]

namespace Schedule

/-- The full rounds taken back, last round first. -/
theorem foldr_unround_foldl_round (keys : List Block) (block : Block) :
    keys.foldr (fun key state => unround (state.xor key))
      (keys.foldl (fun state key => (round state).xor key) block) = block := by
  induction keys generalizing block with
  | nil => rfl
  | cons key keys inductionHypothesis =>
      rw [List.foldl_cons, List.foldr_cons, inductionHypothesis, Block.xor_xor_cancel,
        unround_round]

theorem foldl_round_foldr_unround (keys : List Block) (block : Block) :
    keys.foldl (fun state key => (round state).xor key)
      (keys.foldr (fun key state => unround (state.xor key)) block) = block := by
  induction keys with
  | nil => rfl
  | cons key keys inductionHypothesis =>
      rw [List.foldr_cons, List.foldl_cons, round_unround, Block.xor_xor_cancel,
        inductionHypothesis]

/-- Decryption takes encryption back, under any schedule. -/
@[simp]
theorem decrypt_encrypt (schedule : Schedule) (block : Block) :
    schedule.decrypt (schedule.encrypt block) = block := by
  simp [encrypt, decrypt, unsubstitute_substitute, foldr_unround_foldl_round]

/-- Encryption takes decryption back, under any schedule. -/
@[simp]
theorem encrypt_decrypt (schedule : Schedule) (block : Block) :
    schedule.encrypt (schedule.decrypt block) = block := by
  simp [encrypt, decrypt, substitute_unsubstitute, foldl_round_foldr_unround]

end Schedule

end Aes

end VersionedKeys
