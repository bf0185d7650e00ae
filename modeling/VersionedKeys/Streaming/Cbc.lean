import VersionedKeys.Aes.Cbc
import VersionedKeys.Error
import VersionedKeys.Random

/-!
# Streams of chained blocks

Bytes may arrive in any pieces.  An encryptor keeps what does not fill a block;
a decryptor keeps the last block, which carries the padding, until it is
finished.  The initialization vector travels in front of the cipher text, or
is known to both sides.
-/

namespace VersionedKeys.Streaming

open Aes

/-- Encryption in progress. -/
structure CbcEncryptor where
  schedule : Schedule
  /-- What goes out before anything else: the initialization vector, until it
  has gone out. -/
  lead : Bytes
  /-- The last cipher block. -/
  chain : Block
  /-- Plain bytes that do not fill a block yet. -/
  pending : Bytes
  finished : Bool

namespace CbcEncryptor

/-- An encryptor with the given initialization vector, or with a random one.
With `ciphertextOnly` the vector does not go out. -/
def start (key : Bytes) (iv? : Option Block) (ciphertextOnly : Bool) (random : Random) :
    Except Error CbcEncryptor × Random :=
  let (iv, random) :=
    match iv? with
    | some iv => (iv, random)
    | none =>
        let (bytes, random) := random.draw Block.size
        (Block.ofBytes bytes, random)
  match Key.ofBytes? key with
  | none => (.error (.key (.aesLength key.length)), random)
  | some key =>
      (.ok ⟨.ofKey key, if ciphertextOnly then [] else iv.toBytes, iv, [], false⟩, random)

/-- Encrypt the whole blocks among the bytes that are there. -/
def advance (stream : CbcEncryptor) (input : Bytes) : CbcEncryptor × Bytes :=
  let (blocks, rest) := Block.splitAll (stream.pending ++ input)
  let cipher := Cbc.encryptBlocks stream.schedule stream.chain blocks
  ({ stream with lead := [], chain := cipher.getLastD stream.chain, pending := rest },
    stream.lead ++ Block.join cipher)

/-- Take in bytes; put out what they complete. -/
def write (stream : CbcEncryptor) (input : Bytes) : CbcEncryptor × Except Error Bytes :=
  if stream.finished then (stream, .error .streamFinished)
  else
    let (stream, output) := stream.advance input
    (stream, .ok output)

/-- Pad and put out the last block.  Only the first time does anything. -/
def finish (stream : CbcEncryptor) : CbcEncryptor × Except Error Bytes :=
  if stream.finished then (stream, .ok [])
  else
    let (stream, output) := stream.advance (Cbc.padding stream.pending.length)
    ({ stream with finished := true }, .ok output)

end CbcEncryptor

/-- How far a decryptor has come. -/
inductive CbcStage where
  /-- The initialization vector is not complete. -/
  | collecting (iv : Bytes)
  /-- The last cipher block decrypted, and the bytes after it. -/
  | decrypting (schedule : Schedule) (chain : Block) (pending : Bytes)

/-- Decryption in progress. -/
structure CbcDecryptor where
  key : Bytes
  stage : CbcStage
  finished : Bool

namespace CbcDecryptor

/-- A decryptor with the given initialization vector, or one that takes it from
the front of its input; the key of the latter is checked when it is there. -/
def start (key : Bytes) : (iv? : Option Block) → Except Error CbcDecryptor
  | none => .ok ⟨key, .collecting [], false⟩
  | some iv =>
      match Key.ofBytes? key with
      | none => .error (.key (.aesLength key.length))
      | some aes => .ok ⟨key, .decrypting (.ofKey aes) iv [], false⟩

/-- Decrypt all whole blocks but the last of the bytes that are there. -/
def advance (schedule : Schedule) (chain : Block) (bytes : Bytes) : CbcStage × Bytes :=
  let ready := (bytes.length - 1) / Block.size * Block.size
  let blocks := (Block.splitAll (bytes.take ready)).1
  (.decrypting schedule (blocks.getLastD chain) (bytes.drop ready),
    Block.join (Cbc.decryptBlocks schedule chain blocks))

/-- Take in bytes; put out the blocks that cannot be the last. -/
def write (stream : CbcDecryptor) (input : Bytes) : CbcDecryptor × Except Error Bytes :=
  if stream.finished then (stream, .error .streamFinished)
  else
    match stream.stage with
    | .collecting iv =>
        let missing := Block.size - iv.length
        let iv := iv ++ input.take missing
        if iv.length < Block.size then ({ stream with stage := .collecting iv }, .ok [])
        else
          match Key.ofBytes? stream.key with
          | none =>
              ({ stream with stage := .collecting iv },
                .error (.key (.aesLength stream.key.length)))
          | some key =>
              let (stage, output) := advance (.ofKey key) (.ofBytes iv) (input.drop missing)
              ({ stream with stage := stage }, .ok output)
    | .decrypting schedule chain pending =>
        let (stage, output) := advance schedule chain (pending ++ input)
        ({ stream with stage := stage }, .ok output)

/-- The plain bytes of the last block. -/
def final (stage : CbcStage) : Except Error Bytes :=
  match stage with
  | .collecting _ => .error .invalidCryptoData
  | .decrypting schedule chain pending =>
      match Block.ofBytes? pending with
      | none => .error .invalidCryptoData
      | some block =>
          match Cbc.unpad? ((schedule.decrypt block).xor chain) with
          | none => .error .invalidCryptoData
          | some bytes => .ok bytes

/-- Put out the last block without its padding.  Only the first time does
anything. -/
def finish (stream : CbcDecryptor) : CbcDecryptor × Except Error Bytes :=
  if stream.finished then (stream, .ok [])
  else ({ stream with finished := true }, final stream.stage)

end CbcDecryptor

end VersionedKeys.Streaming
