import VersionedKeys.Streaming.Cbc
import VersionedKeys.Streaming.Gcm
import VersionedKeys.Streaming.Oaep

/-!
# Cipher streams

The streams that turn plain bytes into cipher text, and back.
-/

namespace VersionedKeys.Streaming

/-- A stream that encrypts. -/
inductive Encryptor where
  | cbc (stream : CbcEncryptor)
  | gcm (stream : GcmEncryptor)
  | oaep (stream : OaepEncryptor)

def Encryptor.write : Encryptor → Bytes → Encryptor × Except Error Bytes
  | cbc stream, input => (stream.write input).map .cbc id
  | gcm stream, input => (stream.write input).map .gcm id
  | oaep stream, input => (stream.write input).map .oaep id

def Encryptor.finish : Encryptor → Random → (Encryptor × Except Error Bytes) × Random
  | cbc stream, random => (stream.finish.map .cbc id, random)
  | gcm stream, random => (stream.finish.map .gcm id, random)
  | oaep stream, random => (stream.finish random).map (·.map .oaep id) id

/-- A stream that decrypts. -/
inductive Decryptor where
  | cbc (stream : CbcDecryptor)
  | gcm (stream : GcmDecryptor)
  | oaep (stream : OaepDecryptor)

def Decryptor.write : Decryptor → Bytes → Decryptor × Except Error Bytes
  | cbc stream, input => (stream.write input).map .cbc id
  | gcm stream, input => (stream.write input).map .gcm id
  | oaep stream, input => (stream.write input).map .oaep id

/-- Put out the rest of the plain text, or say that there is none. -/
def Decryptor.finish : Decryptor → Decryptor × Except Error Bytes
  | cbc stream => stream.finish.map .cbc id
  | gcm stream => stream.finish.map .gcm id
  | oaep stream => stream.finish.map .oaep id

end VersionedKeys.Streaming
