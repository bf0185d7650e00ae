import VersionedKeys.Aes.Cipher

/-!
# Cipher block chaining

Each plain block is combined with the cipher block before it; the first one
with an initialization vector.  Messages are padded to whole blocks, by bytes
that each hold how many of them there are.
-/

namespace VersionedKeys.Aes.Cbc

/-- Encrypt blocks after the block `chain`.  The last cipher block is the chain
of the blocks to come. -/
def encryptBlocks (schedule : Schedule) : (chain : Block) → List Block → List Block
  | _, [] => []
  | chain, block :: blocks =>
      let cipher := schedule.encrypt (block.xor chain)
      cipher :: encryptBlocks schedule cipher blocks

def decryptBlocks (schedule : Schedule) : (chain : Block) → List Block → List Block
  | _, [] => []
  | chain, cipher :: blocks =>
      (schedule.decrypt cipher).xor chain :: decryptBlocks schedule cipher blocks

/-- The padding of a message: at least one byte. -/
def padding (length : Nat) : Bytes :=
  let count := Block.size - length % Block.size
  List.replicate count (UInt8.ofNat count)

/-- The bytes of the last block of a message without the padding, if it is
padding. -/
def unpad? (block : Block) : Option Bytes :=
  let bytes := block.toBytes
  let count := block.z.d.toNat
  let kept := Block.size - count
  if 1 ≤ count ∧ count ≤ Block.size ∧ (bytes.drop kept).all (· == block.z.d) then
    some (bytes.take kept)
  else none

end VersionedKeys.Aes.Cbc
