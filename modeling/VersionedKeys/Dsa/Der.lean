import VersionedKeys.Bytes

/-!
# The form of DSA signatures

A signature is a sequence of two non-negative integers.  Lengths and integers
are written in the shortest way, and only that way is read.
-/

namespace VersionedKeys.Dsa.Der

/-- A length: one byte below 128, else the number of its bytes and the bytes. -/
def encodeLength (length : Nat) : Bytes :=
  if length < 0x80 then [UInt8.ofNat length]
  else
    let digits := Bytes.ofNatMinimal length
    UInt8.ofNat (0x80 + digits.length) :: digits

/-- The content of an integer: big-endian, with a zero in front if the highest
bit would be set, and at least one byte. -/
def integerContent (value : Nat) : Bytes :=
  Bytes.ofNat (Bytes.bitLength value / 8 + 1) value

def encodeInteger (value : Nat) : Bytes :=
  let content := integerContent value
  0x02 :: (encodeLength content.length ++ content)

def encode (first second : Nat) : Bytes :=
  let content := encodeInteger first ++ encodeInteger second
  0x30 :: (encodeLength content.length ++ content)

/-- The content of an item with a tag and a length in the shortest form, and
what follows it. -/
def decodeItem? (tag : UInt8) : Bytes → Option (Bytes × Bytes)
  | first :: lead :: rest =>
      let width := if lead < 0x80 then 0 else lead.toNat - 0x80
      let digits := rest.take width
      let length := if lead < 0x80 then lead.toNat else Bytes.toNat digits
      let content := rest.drop width
      if first = tag ∧ encodeLength length = lead :: digits ∧ length ≤ content.length then
        some (content.take length, content.drop length)
      else none
  | _ => none

/-- An integer, and what follows it. -/
def decodeInteger? (bytes : Bytes) : Option (Nat × Bytes) := do
  let (content, rest) ← decodeItem? 0x02 bytes
  let value := Bytes.toNat content
  if content = integerContent value then some (value, rest) else none

/-- The two integers of a sequence that is the whole input. -/
def decode? (bytes : Bytes) : Option (Nat × Nat) := do
  let (content, rest) ← decodeItem? 0x30 bytes
  let (first, content) ← decodeInteger? content
  let (second, content) ← decodeInteger? content
  if rest.isEmpty && content.isEmpty then some (first, second) else none

end VersionedKeys.Dsa.Der
