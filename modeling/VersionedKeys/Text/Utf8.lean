import VersionedKeys.Bytes

/-!
# UTF-8

Every byte string splits into its longest valid UTF-8 beginning and a rest.
The whole string is valid when the rest is empty.
-/

namespace VersionedKeys.Utf8

def encode (text : String) : Bytes :=
  text.toList.flatMap String.utf8EncodeChar

/-- The six bits of a continuation byte. -/
def continuation? (byte : UInt8) : Option Nat :=
  if byte.toNat / 64 = 2 then some (byte.toNat % 64) else none

/-- The character of a code point that is a scalar value and at least `least`,
the smallest one that needs as many bytes as were used. -/
def scalar? (least codePoint : Nat) : Option Char :=
  if least ≤ codePoint ∧ codePoint.isValidChar then some (Char.ofNat codePoint) else none

/-- The character at the front of a byte string, and what follows it. -/
def decodeChar? : Bytes → Option (Char × Bytes)
  | [] => none
  | lead :: rest =>
      let bits := lead.toNat
      if bits < 0x80 then some (Char.ofNat bits, rest)
      else if bits < 0xC0 then none
      else if bits < 0xE0 then
        match rest with
        | second :: rest => do
            let low ← continuation? second
            let char ← scalar? 0x80 (bits % 32 * 64 + low)
            some (char, rest)
        | [] => none
      else if bits < 0xF0 then
        match rest with
        | second :: third :: rest => do
            let high ← continuation? second
            let low ← continuation? third
            let char ← scalar? 0x800 (bits % 16 * 4096 + high * 64 + low)
            some (char, rest)
        | _ => none
      else if bits < 0xF8 then
        match rest with
        | second :: third :: fourth :: rest => do
            let high ← continuation? second
            let middle ← continuation? third
            let low ← continuation? fourth
            let char ← scalar? 0x10000 (bits % 8 * 262144 + high * 4096 + middle * 64 + low)
            some (char, rest)
        | _ => none
      else none

/-- The characters at the front of a byte string, at most `bound` of them. -/
def decodeWithin : (bound : Nat) → Bytes → List Char × Bytes
  | 0, bytes => ([], bytes)
  | bound + 1, bytes =>
      match decodeChar? bytes with
      | none => ([], bytes)
      | some (char, rest) =>
          let (chars, rest) := decodeWithin bound rest
          (char :: chars, rest)

/-- The characters of the longest valid beginning, and the bytes after it. -/
def decodePrefix (bytes : Bytes) : List Char × Bytes :=
  decodeWithin bytes.length bytes

/-- The text of a byte string that is valid as a whole. -/
def decode? (bytes : Bytes) : Option String :=
  match decodePrefix bytes with
  | (chars, []) => some (String.ofList chars)
  | _ => none

/-- Whether a byte can be the second of a character with the given lead byte
of three or four bytes. -/
def mayFollow (lead second : UInt8) : Bool :=
  if lead == 0xE0 then 0xA0 ≤ second && second ≤ 0xBF
  else if lead == 0xED then 0x80 ≤ second && second ≤ 0x9F
  else if lead == 0xF0 then 0x90 ≤ second && second ≤ 0xBF
  else if lead == 0xF4 then 0x80 ≤ second && second ≤ 0x8F
  else 0x80 ≤ second && second ≤ 0xBF

/-- How many bytes at the front of an invalid byte string stand for one
replacement character: the longest beginning of some character, or one byte. -/
def malformedLength : Bytes → Nat
  | [] => 0
  | lead :: rest =>
      if 0xE0 ≤ lead && lead ≤ 0xEF then
        match rest with
        | second :: _ => if mayFollow lead second then 2 else 1
        | [] => 1
      else if 0xF0 ≤ lead && lead ≤ 0xF4 then
        match rest with
        | second :: third :: _ =>
            if mayFollow lead second then
              if (continuation? third).isSome then 3 else 2
            else 1
        | [second] => if mayFollow lead second then 2 else 1
        | [] => 1
      else 1

/-- Decoding that puts U+FFFD for what is not valid, in at most `bound` runs. -/
def decodeLossyWithin : (bound : Nat) → Bytes → List Char
  | 0, _ => []
  | bound + 1, bytes =>
      match decodePrefix bytes with
      | (chars, []) => chars
      | (chars, rest) =>
          chars ++ Char.ofNat 0xFFFD :: decodeLossyWithin bound (rest.drop (malformedLength rest))

/-- Decoding that puts U+FFFD for each malformed sequence. -/
def decodeLossy (bytes : Bytes) : String :=
  String.ofList (decodeLossyWithin (bytes.length + 1) bytes)

end VersionedKeys.Utf8
