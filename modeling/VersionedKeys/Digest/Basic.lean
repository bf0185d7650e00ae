import VersionedKeys.Bytes

/-!
# Iterated hash functions

A hash function takes blocks of 64 bytes into a chaining value.  The message is
absorbed byte by byte, so that absorbing two pieces is absorbing them joined
(`absorb_append`), and ends with a padding that holds its length.
-/

namespace VersionedKeys.Digest

/-- A hash function with blocks of 64 bytes. -/
structure HashFunction (Chaining : Type) where
  initial : Chaining
  /-- Take a block into a chaining value. -/
  compress : Chaining → Array UInt8 → Chaining
  /-- The bytes of the last chaining value. -/
  output : Chaining → Bytes

/-- A message that has been taken in. -/
structure Absorbed (Chaining : Type) where
  chaining : Chaining
  /-- The bytes after the last whole block. -/
  pending : Array UInt8
  /-- The number of bytes of the message. -/
  length : Nat

namespace HashFunction

variable {Chaining : Type} (hash : HashFunction Chaining)

def empty : Absorbed Chaining := ⟨hash.initial, #[], 0⟩

def push (absorbed : Absorbed Chaining) (byte : UInt8) : Absorbed Chaining :=
  let pending := absorbed.pending.push byte
  if pending.size = 64 then ⟨hash.compress absorbed.chaining pending, #[], absorbed.length + 1⟩
  else ⟨absorbed.chaining, pending, absorbed.length + 1⟩

def absorb (absorbed : Absorbed Chaining) (bytes : Bytes) : Absorbed Chaining :=
  bytes.foldl hash.push absorbed

/-- The padding after a message of a length: a one bit, zeros, and the length
in bits, up to the end of a block. -/
def padding (length : Nat) : Bytes :=
  0x80 :: (List.replicate ((119 - length % 64) % 64) 0 ++ Bytes.ofNat 8 (8 * length))

/-- The digest of what has been taken in. -/
def finish (absorbed : Absorbed Chaining) : Bytes :=
  hash.output (hash.absorb absorbed (padding absorbed.length)).chaining

def digest (message : Bytes) : Bytes :=
  hash.finish (hash.absorb hash.empty message)

theorem absorb_append (absorbed : Absorbed Chaining) (front back : Bytes) :
    hash.absorb absorbed (front ++ back) = hash.absorb (hash.absorb absorbed front) back :=
  List.foldl_append

end HashFunction

def rotateLeft (word count : UInt32) : UInt32 :=
  (word <<< count) ||| (word >>> (32 - count))

def rotateRight (word count : UInt32) : UInt32 :=
  (word >>> count) ||| (word <<< (32 - count))

def wordBytes (word : UInt32) : Bytes :=
  [(word >>> 24).toUInt8, (word >>> 16).toUInt8, (word >>> 8).toUInt8, word.toUInt8]

def blockWords (block : Array UInt8) : Array UInt32 :=
  (List.range 16).foldl (fun words (index : Nat) =>
    let byte (place : Nat) : UInt32 := (block.getD (4 * index + place) 0).toUInt32
    words.push ((byte 0 <<< 24) ||| (byte 1 <<< 16) ||| (byte 2 <<< 8) ||| byte 3)) #[]

end VersionedKeys.Digest
