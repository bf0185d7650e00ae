import VersionedKeys.Digest.Basic

/-!
# SHA-1
-/

namespace VersionedKeys.Digest

/-- The chaining value of SHA-1: five words. -/
structure Sha1State where
  a : UInt32
  b : UInt32
  c : UInt32
  d : UInt32
  e : UInt32
  deriving DecidableEq, Repr

namespace Sha1State

/-- The sixteen words of a block and the 64 made from them. -/
def schedule (block : Array UInt8) : Array UInt32 :=
  (List.range 64).foldl (fun words (index : Nat) =>
    let word (back : Nat) : UInt32 := words.getD (index + 16 - back) 0
    words.push (rotateLeft (word 3 ^^^ word 8 ^^^ word 14 ^^^ word 16) 1)) (blockWords block)

/-- The function and the constant of a round, by its number. -/
def mix (index : Nat) (b c d : UInt32) : UInt32 :=
  if index < 20 then ((b &&& c) ||| (~~~b &&& d)) + 0x5A827999
  else if index < 40 then (b ^^^ c ^^^ d) + 0x6ED9EBA1
  else if index < 60 then ((b &&& c) ||| (b &&& d) ||| (c &&& d)) + 0x8F1BBCDC
  else (b ^^^ c ^^^ d) + 0xCA62C1D6

def round (s : Sha1State) (index : Nat) (word : UInt32) : Sha1State :=
  ⟨rotateLeft s.a 5 + mix index s.b s.c s.d + s.e + word, s.a, rotateLeft s.b 30, s.c, s.d⟩

/-- Take a block into a chaining value. -/
def compress (s : Sha1State) (block : Array UInt8) : Sha1State :=
  let words := schedule block
  let t := (List.range 80).foldl (fun (t : Sha1State) (index : Nat) =>
    t.round index (words.getD index 0)) s
  ⟨s.a + t.a, s.b + t.b, s.c + t.c, s.d + t.d, s.e + t.e⟩

end Sha1State

/-- SHA-1: digests of twenty bytes. -/
def sha1 : HashFunction Sha1State where
  initial := ⟨0x67452301, 0xEFCDAB89, 0x98BADCFE, 0x10325476, 0xC3D2E1F0⟩
  compress := Sha1State.compress
  output s := [s.a, s.b, s.c, s.d, s.e].flatMap wordBytes

def sha1Size : Nat := 20

@[simp]
theorem length_digest_sha1 (message : Bytes) : (sha1.digest message).length = sha1Size := rfl

end VersionedKeys.Digest
