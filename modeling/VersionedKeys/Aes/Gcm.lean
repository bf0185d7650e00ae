import VersionedKeys.Aes.Cipher

/-!
# Galois/counter mode

A message is combined with the encryption of consecutive counters and followed
by a tag over it and its associated data.  Opening recomputes the tag.
-/

namespace VersionedKeys.Aes.Gcm

def nonceSize : Nat := 12

def tagSize : Nat := 16

/-- An element of the field of `2 ^ 128` elements; the coefficient of the
constant term is the highest bit. -/
structure Element where
  high : UInt64
  low : UInt64
  deriving DecidableEq, Repr

namespace Element

def add (left right : Element) : Element :=
  ⟨left.high ^^^ right.high, left.low ^^^ right.low⟩

/-- The product with the unknown, reduced. -/
def shift (element : Element) : Element :=
  let reduction : UInt64 := if element.low &&& 1 = 1 then 0xE100000000000000 else 0
  ⟨(element.high >>> 1) ^^^ reduction, (element.low >>> 1) ||| (element.high <<< 63)⟩

/-- Add to `sum` the products of `factor` with the highest bits of a word, and
return the factor for the word after it. -/
def mulWord : (bits : Nat) → UInt64 → (factor sum : Element) → Element × Element
  | 0, _, factor, sum => (factor, sum)
  | bits + 1, word, factor, sum =>
      mulWord bits (word <<< 1) factor.shift
        (if word >>> 63 = 1 then sum.add factor else sum)

def mul (left right : Element) : Element :=
  let (factor, sum) := mulWord 64 left.high right ⟨0, 0⟩
  (mulWord 64 left.low factor sum).2

/-- The element whose bits are those of a block. -/
def ofBlock (block : Block) : Element :=
  ⟨UInt64.ofNat (Bytes.toNat (block.toBytes.take 8)),
    UInt64.ofNat (Bytes.toNat (block.toBytes.drop 8))⟩

/-- The block whose bits are those of an element. -/
def toBlock (element : Element) : Block :=
  Block.ofBytes (Bytes.ofNat 8 element.high.toNat ++ Bytes.ofNat 8 element.low.toNat)

end Element

/-- The blocks of a byte string, the last one filled up with zeros. -/
def paddedBlocks (bytes : Bytes) : List Block :=
  let (blocks, rest) := Block.splitAll bytes
  if rest.isEmpty then blocks else blocks ++ [Block.ofBytes rest]

/-- The hash of associated data and cipher text under a key: a polynomial in the
key with their blocks and their lengths in bits as coefficients. -/
def hash (key : Element) (associated cipher : Bytes) : Element :=
  let lengths := Bytes.ofNat 8 (8 * associated.length) ++ Bytes.ofNat 8 (8 * cipher.length)
  (paddedBlocks associated ++ paddedBlocks cipher ++ [Block.ofBytes lengths]).foldl
    (fun sum block => (sum.add (.ofBlock block)).mul key) ⟨0, 0⟩

/-- The block that a counter is encrypted as. -/
def counterBlock (nonce : Bytes) (counter : Nat) : Block :=
  Block.ofBytes (nonce ++ Bytes.ofNat 4 counter)

/-- At least `length` bytes of key stream; the counter 1 is left for the tag. -/
def keyStream (schedule : Schedule) (nonce : Bytes) (length : Nat) : Bytes :=
  (List.range ((length + 15) / 16)).flatMap fun index =>
    (schedule.encrypt (counterBlock nonce (index + 2))).toBytes

def apply (schedule : Schedule) (nonce message : Bytes) : Bytes :=
  Bytes.xor message (keyStream schedule nonce message.length)

def tag (schedule : Schedule) (nonce associated cipher : Bytes) : Bytes :=
  let key := Element.ofBlock (schedule.encrypt .zero)
  ((hash key associated cipher).toBlock.xor (schedule.encrypt (counterBlock nonce 1))).toBytes

def encrypt (schedule : Schedule) (nonce associated message : Bytes) : Bytes :=
  let cipher := apply schedule nonce message
  cipher ++ tag schedule nonce associated cipher

/-- Decrypt a message if its tag is right. -/
def decrypt? (schedule : Schedule) (nonce associated tagged : Bytes) : Option Bytes :=
  if tagged.length < tagSize then none
  else
    let length := tagged.length - tagSize
    let cipher := tagged.take length
    if tagged.drop length = tag schedule nonce associated cipher then
      some (apply schedule nonce cipher)
    else none

end VersionedKeys.Aes.Gcm
