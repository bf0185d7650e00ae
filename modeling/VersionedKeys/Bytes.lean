/-!
# Byte strings

Byte strings are lists of bytes.  A number is written big-endian, either in a
given number of bytes or in as few as it needs.
-/

namespace VersionedKeys

/-- A string of bytes, first byte first. -/
abbrev Bytes := List UInt8

namespace Bytes

/-- The number whose big-endian digits in base 256 are the given bytes. -/
def toNat (bytes : Bytes) : Nat :=
  bytes.foldl (fun value byte => value * 256 + byte.toNat) 0

/-- The last `width` big-endian base-256 digits of a number. -/
def ofNat : (width value : Nat) → Bytes
  | 0, _ => []
  | width + 1, value => ofNat width (value / 256) ++ [UInt8.ofNat value]

/-- The number of binary digits of a number; zero has none. -/
def bitLength (value : Nat) : Nat :=
  if value = 0 then 0 else value.log2 + 1

/-- The number of base-256 digits of a number; zero has none. -/
def byteLength (value : Nat) : Nat :=
  (bitLength value + 7) / 8

/-- The big-endian bytes of a number without leading zeros. -/
def ofNatMinimal (value : Nat) : Bytes :=
  ofNat (byteLength value) value

def dropZeros (bytes : Bytes) : Bytes :=
  bytes.dropWhile (· == 0)

def xor (left right : Bytes) : Bytes :=
  List.zipWith (· ^^^ ·) left right

/-- Cut into pieces of `size` bytes, the last one possibly shorter.  The first
argument bounds the number of pieces. -/
def chunksWithin (size : Nat) : (bound : Nat) → Bytes → List Bytes
  | 0, _ => []
  | bound + 1, bytes =>
      if bytes.isEmpty then []
      else bytes.take size :: chunksWithin size bound (bytes.drop size)

/-- Cut into pieces of `size` bytes, the last one possibly shorter.  There are
no empty pieces, so no more of them than bytes. -/
def chunks (size : Nat) (bytes : Bytes) : List Bytes :=
  chunksWithin size bytes.length bytes

def hexDigit (value : Nat) : Char :=
  if value < 10 then Char.ofNat (value + 48) else Char.ofNat (value + 87)

def toHex (bytes : Bytes) : String :=
  String.ofList (bytes.flatMap fun byte =>
    [hexDigit (byte.toNat / 16), hexDigit (byte.toNat % 16)])

def hexValue? (digit : Char) : Option Nat :=
  if '0' ≤ digit ∧ digit ≤ '9' then some (digit.toNat - 48)
  else if 'a' ≤ digit ∧ digit ≤ 'f' then some (digit.toNat - 87)
  else if 'A' ≤ digit ∧ digit ≤ 'F' then some (digit.toNat - 55)
  else none

def ofHexDigits? : List Char → Option Bytes
  | [] => some []
  | [_] => none
  | high :: low :: digits =>
      match hexValue? high, hexValue? low, ofHexDigits? digits with
      | some high, some low, some bytes => some (UInt8.ofNat (high * 16 + low) :: bytes)
      | _, _, _ => none

def ofHex? (text : String) : Option Bytes := ofHexDigits? text.toList

@[simp]
theorem length_ofNat (width value : Nat) : (ofNat width value).length = width := by
  induction width generalizing value with
  | zero => rfl
  | succ width inductionHypothesis => simp [ofNat, inductionHypothesis]

end Bytes

end VersionedKeys
