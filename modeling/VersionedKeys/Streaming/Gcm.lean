import VersionedKeys.Aes.Gcm
import VersionedKeys.Key.Reading
import VersionedKeys.Random

/-!
# Streams in Galois/counter mode

The whole message is kept until the end, as nothing of it may be released
before its tag has been checked.  Only the nonce goes out at once.
-/

namespace VersionedKeys.Streaming

open Aes

/-- Encryption in progress. -/
structure GcmEncryptor where
  schedule : Schedule
  associated : Bytes
  nonce : Bytes
  /-- The nonce, until it has gone out. -/
  lead : Bytes
  buffer : Bytes
  finished : Bool

namespace GcmEncryptor

/-- An encryptor with a random nonce. -/
def start (key associated : Bytes) (random : Random) : Except Error GcmEncryptor × Random :=
  let (nonce, random) := random.draw Gcm.nonceSize
  ((Aes.Key.ofBytes key).map fun key => ⟨.ofKey key, associated, nonce, nonce, [], false⟩, random)

def write (stream : GcmEncryptor) (input : Bytes) : GcmEncryptor × Except Error Bytes :=
  if stream.finished then (stream, .error .streamFinished)
  else ({ stream with lead := [], buffer := stream.buffer ++ input }, .ok stream.lead)

/-- Put out the encrypted message and its tag.  Only the first time does
anything. -/
def finish (stream : GcmEncryptor) : GcmEncryptor × Except Error Bytes :=
  if stream.finished then (stream, .ok [])
  else
    ({ stream with lead := [], finished := true },
      .ok (stream.lead ++ Gcm.encrypt stream.schedule stream.nonce stream.associated stream.buffer))

end GcmEncryptor

/-- Decryption in progress. -/
structure GcmDecryptor where
  schedule : Schedule
  associated : Bytes
  buffer : Bytes
  finished : Bool

namespace GcmDecryptor

/-- A decryptor, which takes the nonce from the front of its input. -/
def start (key associated : Bytes) : Except Error GcmDecryptor :=
  (Aes.Key.ofBytes key).map fun key => ⟨.ofKey key, associated, [], false⟩

def write (stream : GcmDecryptor) (input : Bytes) : GcmDecryptor × Except Error Bytes :=
  if stream.finished then (stream, .error .streamFinished)
  else ({ stream with buffer := stream.buffer ++ input }, .ok [])

/-- Put out the message if its tag is right.  Only the first time does
anything. -/
def finish (stream : GcmDecryptor) : GcmDecryptor × Except Error Bytes :=
  if stream.finished then (stream, .ok [])
  else
    let nonce := stream.buffer.take Gcm.nonceSize
    let message? :=
      if nonce.length < Gcm.nonceSize then none
      else
        Gcm.decrypt? stream.schedule nonce stream.associated (stream.buffer.drop Gcm.nonceSize)
    ({ stream with finished := true }, message?.elim (.error .invalidCryptoData) .ok)

end GcmDecryptor

end VersionedKeys.Streaming
