import VersionedKeys.Bytes

/-!
# CBOR headers

Every CBOR item begins with a header: three bits of major type, five bits that
are a small argument or say how many bytes of argument follow.  Headers are
written in the shortest form and read in any.
-/

namespace VersionedKeys.Cbor

/-- Why input is not CBOR. -/
inductive Fault where
  /-- The input ends within an item. -/
  | endOfInput
  /-- No item of the expected form begins at an offset. -/
  | malformed (offset : Nat)
  deriving DecidableEq, Repr

def Fault.message : Fault → String
  | endOfInput =>
      "Io(Error \x7b kind: UnexpectedEof, message: \"failed to fill whole buffer\" \x7d)"
  | malformed offset => s!"Syntax({offset})"

/-- The beginning of an item.  Where the length is absent, a stop ends the item. -/
inductive Header where
  | positive (value : Nat)
  /-- The number `-1 - value`. -/
  | negative (value : Nat)
  | bytes (length : Option Nat)
  | text (length : Option Nat)
  | array (length : Option Nat)
  /-- The length counts pairs of a key and a value. -/
  | map (length : Option Nat)
  | tag (number : Nat)
  | simple (value : Nat)
  /-- A floating point number given by its 2, 4 or 8 bytes. -/
  | float (width bits : Nat)
  /-- The end of an item without a length. -/
  | stop
  deriving DecidableEq, Repr

/-- Input that is being read, and how much of it has been read before. -/
structure Reader where
  rest : Bytes
  offset : Nat
  deriving DecidableEq, Repr

def Reader.ofBytes (bytes : Bytes) : Reader := ⟨bytes, 0⟩

/-- A reader some bytes further on. -/
def Reader.skip (reader : Reader) (count : Nat) : Reader :=
  ⟨reader.rest.drop count, reader.offset + count⟩

namespace Header

/-- A header of a major type below seven: the argument is absent if the header
has none. -/
def ofArgument? (major : Nat) (argument : Option Nat) : Option Header :=
  match major, argument with
  | 0, some value => some (positive value)
  | 1, some value => some (negative value)
  | 2, length => some (bytes length)
  | 3, length => some (text length)
  | 4, length => some (array length)
  | 5, length => some (map length)
  | 6, some number => some (tag number)
  | _, _ => none

/-- A header of major type seven, by the width of its argument. -/
def ofOther (width argument : Nat) : Header :=
  if width ≤ 1 then simple argument else float width argument

/-- How many bytes of argument follow a first byte with the given low bits. -/
def argumentWidth (low : Nat) : Nat :=
  if low = 24 then 1 else if low = 25 then 2 else if low = 26 then 4
  else if low = 27 then 8 else 0

end Header

def Reader.pull (reader : Reader) : Except Fault (Header × Reader) :=
  match reader.rest with
  | [] => .error .endOfInput
  | first :: rest =>
      let major := first.toNat / 32
      let low := first.toNat % 32
      let width := Header.argumentWidth low
      let digits := rest.take width
      let argument := if width = 0 then low else Bytes.toNat digits
      if 28 ≤ low ∧ low ≤ 30 then .error (.malformed reader.offset)
      else if digits.length < width then .error .endOfInput
      else
        let header? :=
          if major = 7 then
            some (if low = 31 then .stop else Header.ofOther width argument)
          else Header.ofArgument? major (if low = 31 then none else some argument)
        match header? with
        | none => .error (.malformed reader.offset)
        | some header => .ok (header, reader.skip (1 + width))

/-- How many bytes of argument the shortest header has. -/
def shortestWidth (argument : Nat) : Nat :=
  if argument < 24 then 0 else if argument < 0x100 then 1 else if argument < 0x10000 then 2
  else if argument < 0x100000000 then 4 else 8

/-- The shortest header of a major type with an argument below `2 ^ 64`. -/
def encodeHeader (major argument : Nat) : Bytes :=
  let first (low : Nat) : UInt8 := UInt8.ofNat (major * 32 + low)
  match shortestWidth argument with
  | 0 => [first argument]
  | 1 => first 24 :: Bytes.ofNat 1 argument
  | 2 => first 25 :: Bytes.ofNat 2 argument
  | 4 => first 26 :: Bytes.ofNat 4 argument
  | _ => first 27 :: Bytes.ofNat 8 argument

end VersionedKeys.Cbor
