import VersionedKeys.Cbor.Header
import VersionedKeys.Text.Utf8

/-!
# CBOR strings

A byte or text string is one definite segment, or a list of strings of its
kind between an opening header and a stop; such lists may nest.  Reading
first finds the segments, then takes their contents piece by piece, so that
of two faults the one that stands first is reported.
-/

namespace VersionedKeys.Cbor

/-- The two kinds of strings. -/
inductive StringKind where
  | bytes
  | text
  deriving DecidableEq, Repr

/-- The length announced by a header if it begins a string of the kind; the
length of a segmented string is not announced. -/
def StringKind.announced? : StringKind → Header → Option (Option Nat)
  | .bytes, .bytes length => some length
  | .text, .text length => some length
  | _, _ => none

/-- A definite part of a string. -/
structure Segment where
  /-- The offset that faults in the contents are reported at. -/
  start : Nat
  /-- The announced number of bytes. -/
  length : Nat
  /-- The bytes present, fewer than announced if the input ends among them. -/
  content : Bytes
  deriving DecidableEq, Repr

/-- The segments of a string, at most `bound` headers of it, and where reading
ended.  The depth counts the lists of segments that are open.  A segment that
is the whole string starts where its header would in the shortest form. -/
def scanWithin (kind : StringKind) :
    (bound depth : Nat) → Reader → List Segment × Except Fault Reader
  | 0, _, _ => ([], .error .endOfInput)
  | bound + 1, depth, reader =>
      match reader.pull with
      | .error fault => ([], .error fault)
      | .ok (header, next) =>
          match depth, header with
          | 1, .stop => ([], .ok next)
          | depth + 2, .stop => scanWithin kind bound (depth + 1) next
          | _, _ =>
              match kind.announced? header with
              | none => ([], .error (.malformed reader.offset))
              | some none => scanWithin kind bound (depth + 1) next
              | some (some length) =>
                  let start :=
                    if depth = 0 then next.offset - (1 + shortestWidth length) else reader.offset
                  let segment := ⟨start, length, next.rest.take length⟩
                  if segment.content.length < length then ([segment], .error .endOfInput)
                  else if depth = 0 then ([segment], .ok (next.skip length))
                  else
                    let (segments, rest) := scanWithin kind bound depth (next.skip length)
                    (segment :: segments, rest)

/-- The segments of the string at the front of the input, and where it ends.
Every header takes a byte, so there are no more of them than bytes. -/
def scan (kind : StringKind) (reader : Reader) : List Segment × Except Fault Reader :=
  scanWithin kind (reader.rest.length + 1) 0 reader

def Reader.bytes (reader : Reader) : Except Fault (Bytes × Reader) :=
  let (segments, rest) := scan .bytes reader
  rest.map fun next => (segments.flatMap (·.content), next)

/-- Decode the bytes of a segment in pieces of at most `capacity` bytes: the
bytes carried over from the piece before, at most three, and new ones.  At most
`bound` pieces are read. -/
def decodePieces (segment : Segment) (capacity : Nat) :
    (bound : Nat) → (carried : Bytes) → (remaining : Nat) → Bytes → Except Fault (List Char)
  | 0, _, _, _ => .error (.malformed segment.start)
  | bound + 1, carried, remaining, content =>
      if remaining = 0 then
        if carried.isEmpty then .ok [] else .error (.malformed segment.start)
      else
        let size := min remaining (capacity - carried.length)
        let piece := content.take size
        if piece.length < size then .error .endOfInput
        else
          let (chars, carried) := Utf8.decodePrefix (carried ++ piece)
          if 3 < carried.length then .error (.malformed segment.start)
          else do
            let following ←
              decodePieces segment capacity bound carried (remaining - size) (content.drop size)
            .ok (chars ++ following)

/-- The characters of a text segment.  Pieces have a capacity of at least four
bytes, so each takes at least one new byte. -/
def Segment.decode (segment : Segment) (capacity : Nat) : Except Fault (List Char) :=
  decodePieces segment capacity (segment.content.length + 2) [] segment.length segment.content

/-- Read a text string in pieces of at most `capacity` bytes. -/
def Reader.text (reader : Reader) (capacity : Nat) : Except Fault (String × Reader) := do
  let (segments, rest) := scan .text reader
  let parts ← segments.mapM fun segment => segment.decode capacity
  let next ← rest
  .ok (String.ofList parts.flatten, next)

end VersionedKeys.Cbor
