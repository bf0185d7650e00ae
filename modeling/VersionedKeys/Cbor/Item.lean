import VersionedKeys.Cbor.Segments
import VersionedKeys.Cbor.Writer
import VersionedKeys.Error

/-!
# Items of containers

The containers of this library are definite arrays of byte strings, texts and
unsigned integers.  Errors name the element that was being read.
-/

namespace VersionedKeys.Cbor

/-- An item as it is written. -/
inductive Item where
  /-- The header of an array. -/
  | array (count : Nat)
  | bytes (value : Bytes)
  | text (value : String)
  | number (value : UInt64)
  deriving DecidableEq, Repr

def Item.write : Item → Bytes
  | array count => writeArray count
  | bytes value => writeBytes value
  | text value => writeText value
  | number value => writeNumber value

/-- Report a fault in an element. -/
def inElement {Value : Type} (element : String) (result : Except Fault Value) :
    Except Error Value :=
  result.mapError (.decoding element)

/-- Texts are taken in pieces of this many bytes. -/
def textCapacity : Nat := 256

/-- Read the header of an array of exactly `count` items. -/
def readArray (element : String) (count : Nat) (reader : Reader) : Except Error Reader := do
  let (header, next) ← inElement element reader.pull
  match header with
  | .array (some length) =>
      if length = count then .ok next else .error (.malformed (.expectedItems element count))
  | .array none => .error (.malformed (.expectedItems element count))
  | _ => .error (.malformed (.expectedArray element))

/-- The size in bytes of the largest buffer that can be asked for. -/
def maxCapacity : Nat := 0x7FFFFFFFFFFFFFFF

/-- A header announces more bytes than a buffer can have, and they do not follow.  Input is in
memory, so that many bytes never do. -/
def AnnouncesTooMuch (length? : Option Nat) (following : Bytes) : Prop :=
  maxCapacity < length?.getD 0 ∧ following.length < length?.getD 0

instance (length? : Option Nat) (following : Bytes) :
    Decidable (AnnouncesTooMuch length? following) :=
  inferInstanceAs (Decidable (_ ∧ _))

/-- Read a byte string.  A buffer for the announced bytes is asked for before any is read. -/
def readBytes (element : String) (reader : Reader) : Except Error (Bytes × Reader) := do
  let (header, next) ← inElement element reader.pull
  match header with
  | .bytes length? =>
      if AnnouncesTooMuch length? next.rest then .error (.stopped .capacityOverflow)
      else inElement element reader.bytes
  | _ => .error (.malformed (.expectedBytes element))

def readText (element : String) (reader : Reader) : Except Error (String × Reader) := do
  let (header, _) ← inElement element reader.pull
  match header with
  | .text _ => inElement element (reader.text textCapacity)
  | _ => .error (.malformed (.expectedText element))

def readNumber (element : String) (reader : Reader) : Except Error (UInt64 × Reader) := do
  let (header, next) ← inElement element reader.pull
  match header with
  | .positive value => .ok (UInt64.ofNat value, next)
  | _ => .error (.malformed (.expectedNumber element))

/-- Read a number of byte strings. -/
def readByteStrings (element : String) : (count : Nat) → Reader → Except Error (List Bytes)
  | 0, _ => .ok []
  | count + 1, reader => do
      let (part, next) ← readBytes element reader
      let parts ← readByteStrings element count next
      .ok (part :: parts)

/-- Decode an array of exactly `count` byte strings. -/
def decodeByteStrings (element : String) (bytes : Bytes) (count : Nat) :
    Except Error (List Bytes) := do
  let reader ← readArray element count (.ofBytes bytes)
  readByteStrings element count reader

end VersionedKeys.Cbor
