import VersionedKeys.Error
import VersionedKeys.Random
import VersionedKeys.Rsa.Oaep

/-!
# Streams of one RSA block

Bytes are collected and transformed at the end.  What does not fit in one block
is refused, and a refused write leaves the stream as it was.
-/

namespace VersionedKeys.Streaming

open Rsa

/-- Encryption in progress. -/
structure OaepEncryptor where
  key : PublicKey
  buffer : Bytes
  finished : Bool

namespace OaepEncryptor

def start (key : PublicKey) : OaepEncryptor := ⟨key, [], false⟩

/-- Take in bytes that still fit. -/
def write (stream : OaepEncryptor) (input : Bytes) : OaepEncryptor × Except Error Bytes :=
  if stream.finished then (stream, .error .streamFinished)
  else if Oaep.capacity stream.key.length < stream.buffer.length + input.length then
    (stream, .error (.malformed .longPlaintext))
  else ({ stream with buffer := stream.buffer ++ input }, .ok [])

/-- Put out the block, with a random seed.  Only the first time does anything. -/
def finish (stream : OaepEncryptor) (random : Random) :
    (OaepEncryptor × Except Error Bytes) × Random :=
  if stream.finished then ((stream, .ok []), random)
  else
    let (seed, random) := random.draw Digest.sha1Size
    let block? := Oaep.encrypt? stream.key seed stream.buffer
    (({ stream with finished := true }, block?.elim (.error .invalidCryptoData) .ok), random)

end OaepEncryptor

/-- Decryption in progress. -/
structure OaepDecryptor where
  key : PrivateKey
  buffer : Bytes
  finished : Bool

namespace OaepDecryptor

def start (key : PrivateKey) : OaepDecryptor := ⟨key, [], false⟩

def write (stream : OaepDecryptor) (input : Bytes) : OaepDecryptor × Except Error Bytes :=
  if stream.finished then (stream, .error .streamFinished)
  else if stream.key.publicKey.length < stream.buffer.length + input.length then
    (stream, .error .invalidCryptoData)
  else ({ stream with buffer := stream.buffer ++ input }, .ok [])

/-- Put out the message of the block.  Only the first time does anything. -/
def finish (stream : OaepDecryptor) : OaepDecryptor × Except Error Bytes :=
  if stream.finished then (stream, .ok [])
  else
    ({ stream with finished := true },
      (Oaep.decrypt? stream.key stream.buffer).elim (.error .invalidCryptoData) .ok)

end OaepDecryptor

end VersionedKeys.Streaming
