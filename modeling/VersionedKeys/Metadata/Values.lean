import VersionedKeys.Cbor.Segments
import VersionedKeys.Metadata.Fault
import VersionedKeys.Tagged

/-!
# Values in encoded metadata

Encoded metadata may come from other writers, so values are read leniently:
tags in front of them are passed over, maps and arrays may be of indefinite
length, and whatever is not known is ignored together with what it contains.
Nesting is limited.
-/

namespace VersionedKeys.Metadata

open Cbor

/-- Strings of up to this many bytes are taken at once. -/
def stringCapacity : Nat := 4096

/-- How deeply items may be nested. -/
def nestingLimit : Nat := 256

/-- Report a fault of the encoding. -/
def ofCbor {Value : Type} (result : Except Cbor.Fault Value) : Except Fault Value :=
  result.mapError .cbor

/-- The first header that is not a tag, the reader in front of it and the one
after it.  At most `bound` headers are read. -/
def untaggedWithin : (bound : Nat) → Reader → Except Cbor.Fault (Reader × Header × Reader)
  | 0, _ => .error .endOfInput
  | bound + 1, reader => do
      match ← reader.pull with
      | (.tag _, next) => untaggedWithin bound next
      | (header, next) => .ok (reader, header, next)

/-- The first header that is not a tag, the reader in front of it and the one
after it. -/
def untagged (reader : Reader) : Except Fault (Reader × Header × Reader) :=
  ofCbor (untaggedWithin (reader.rest.length + 1) reader)

def exactly (length : Nat) (reader : Reader) : Except Fault (Bytes × Reader) :=
  let content := reader.rest.take length
  if content.length < length then .error (.cbor .endOfInput)
  else .ok (content, reader.skip length)

/-- Go through the entries of a map or the items of an array: a number of them,
or all up to a stop.  Each is told whether its first header has been looked at
before.  Entries take at least a byte each, so `bound` need only exceed the
number of bytes. -/
def entriesWithin {State : Type}
    (entry : (seen : Bool) → State → Reader → Except Fault (State × Reader)) :
    (bound : Nat) → (length : Option Nat) → State → Reader → Except Fault (State × Reader)
  | _, some 0, state, reader => .ok (state, reader)
  | 0, _, _, _ => .error (.cbor .endOfInput)
  | bound + 1, some (length + 1), state, reader => do
      let (state, next) ← entry false state reader
      entriesWithin entry bound (some length) state next
  | bound + 1, none, state, reader => do
      match ← ofCbor reader.pull with
      | (.stop, next) => .ok (state, next)
      | _ =>
          let (state, next) ← entry true state reader
          entriesWithin entry bound none state next

/-- Go through the entries of a map or the items of an array. -/
def entries {State : Type}
    (entry : (seen : Bool) → State → Reader → Except Fault (State × Reader))
    (length : Option Nat) (state : State) (reader : Reader) : Except Fault (State × Reader) :=
  entriesWithin entry (reader.rest.length + 1) length state reader

/-- Pass over a big number of at most sixteen bytes after its tag, if there is
one.  A negative one must fit the 128-bit integers. -/
def skipBignum? (tag : Nat) (reader : Reader) : Except Fault (Option Reader) := do
  let (header, next) ← ofCbor reader.pull
  match header with
  | .bytes (some length) =>
      if 16 < length then .ok none
      else
        let (content, next) ← exactly length next
        if tag = 3 ∧ UInt64.size * UInt64.size ≤ 2 * content.toNat then .error .bignumTooLarge
        else .ok (some next)
  | _ => .ok none

/-- Pass over an item.  What it contains is passed over by `inner?`, which is
absent where nothing may be nested any more. -/
def skipItemWith (inner? : Option (Reader → Except Fault Reader)) (reader : Reader) :
    Except Fault Reader := do
  let (header, next) ← ofCbor reader.pull
  match header with
  | .positive _ | .negative _ | .float _ _ => .ok next
  | .simple value =>
      if 20 ≤ value ∧ value ≤ 23 then .ok next
      else .error (.unexpected header "known simple value")
  | .stop => .error (.unexpected header "non-break")
  | .bytes _ => return (← ofCbor reader.bytes).2
  | .text _ => return (← ofCbor (reader.text stringCapacity)).2
  | .array length =>
      match inner? with
      | none => .error .tooDeep
      | some inner =>
          let item (_ : Bool) (_ : Unit) (reader : Reader) := do return ((), ← inner reader)
          return (← entries item length () next).2
  | .map length =>
      match inner? with
      | none => .error .tooDeep
      | some inner =>
          let pair (_ : Bool) (_ : Unit) (reader : Reader) := do
            return ((), ← inner (← inner reader))
          return (← entries pair length () next).2
  | .tag number =>
      let skipped? ← if number = 2 ∨ number = 3 then skipBignum? number next else .ok none
      match skipped?, inner? with
      | some next, _ => .ok next
      | none, none => .error .tooDeep
      | none, some inner => inner next

/-- Pass over an item with at most `levels` levels of nesting in it. -/
def skipItem : (levels : Nat) → Reader → Except Fault Reader
  | 0 => skipItemWith none
  | levels + 1 => skipItemWith (some (skipItem levels))

/-- Read a short definite string of either kind: the key of a field, or the tag
of a choice.  Its kind does not matter, but a text must be valid.  The offset
reported for an invalid text is that of its header; one that was `seen` before
counts as if it had the shortest form. -/
def readLabel (seen : Bool) (reader : Reader) : Except Fault (Bytes × Reader) := do
  let (front, header, next) ← untagged reader
  match header with
  | .bytes (some length) =>
      if stringCapacity < length then .error (.unexpected header "str or bytes")
      else exactly length next
  | .text (some length) =>
      if stringCapacity < length then .error (.unexpected header "str or bytes")
      else
        let (content, after) ← exactly length next
        let start :=
          if seen ∧ front.offset = reader.offset then next.offset - (1 + shortestWidth length)
          else front.offset
        if (Utf8.decode? content).isSome then .ok (content, after)
        else .error (.cbor (.malformed start))
  | _ => .error (.unexpected header "str or bytes")

def readText (reader : Reader) : Except Fault (String × Reader) := do
  let (front, header, _) ← untagged reader
  match header with
  | .text _ => ofCbor (front.text stringCapacity)
  | _ => .error (.unexpected header "string")

def readBool (reader : Reader) : Except Fault (Bool × Reader) := do
  let (front, header, next) ← untagged reader
  match header with
  | .simple 20 => .ok (false, next)
  | .simple 21 => .ok (true, next)
  | _ => .error (.expectedBool front.offset)

/-- The tag of a choice as a definite string. -/
def readChoiceTag {Choice : Type} [Tagged Choice] (seen : Bool) (reader : Reader) :
    Except Fault (Choice × Reader) := do
  let (label, next) ← readLabel seen reader
  match (Tagged.all : List Choice).find? fun choice => Utf8.encode (Tagged.tag choice) == label with
  | some choice => .ok (choice, next)
  | none =>
      .error (.unknownVariant (Utf8.decodeLossy label)
        ((Tagged.all : List Choice).map Tagged.tag))

/-- Read a choice: its tag as a text, or after the header of a map with one
entry. -/
def readChoice {Choice : Type} [Tagged Choice] (reader : Reader) :
    Except Fault (Choice × Reader) := do
  let (front, header, next) ← untagged reader
  match header with
  | .map (some 1) => readChoiceTag false next
  | .text _ => readChoiceTag true front
  | _ => .error (.unexpected header "enum")

/-- The bytes of a segment that are taken sixteen at a time before its end, or
the end of the input, is met. -/
def Segment.available (segment : Segment) : Bytes :=
  if segment.content.length < segment.length then
    segment.content.take (segment.content.length / 16 * 16)
  else segment.content

/-- Read the bytes of a big number; zeros at its front do not count. -/
def readBignum (reader : Reader) : Except Fault (Nat × Reader) := do
  let (header, _) ← ofCbor reader.pull
  match header with
  | .bytes _ =>
      let (segments, rest) := scan .bytes reader
      let digits := Bytes.dropZeros (segments.flatMap Segment.available)
      if 16 < digits.length then .error .bignumTooLong
      else
        let next ← ofCbor rest
        .ok (digits.toNat, next)
  | _ => .error (.unexpected header "bytes")

/-- Read an integer, of which only the magnitude is kept, and say whether it is
negative.  At most `bound` headers are read. -/
def readIntegerWithin : (bound : Nat) → Reader → Except Fault ((Bool × Nat) × Reader)
  | 0, _ => .error (.cbor .endOfInput)
  | bound + 1, reader => do
      let (header, next) ← ofCbor reader.pull
      match header with
      | .positive value => .ok ((false, value), next)
      | .negative value => .ok ((true, value), next)
      | .tag 2 => return (← readBignum next).map (false, ·) id
      | .tag 3 => return (← readBignum next).map (true, ·) id
      | .tag _ => readIntegerWithin bound next
      | _ => .error (.unexpected header "integer")

/-- Read an unsigned integer of 32 bits. -/
def readNumber (reader : Reader) : Except Fault (UInt32 × Reader) := do
  let ((negative, value), next) ← readIntegerWithin (reader.rest.length + 1) reader
  if negative then .error .negativeNumber
  else if UInt64.size ≤ value then .error .bignumTooLarge
  else if UInt32.size ≤ value then .error (.numberOutOfRange value)
  else .ok (UInt32.ofNat value, next)

end VersionedKeys.Metadata
