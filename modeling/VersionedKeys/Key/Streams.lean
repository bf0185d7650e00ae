import VersionedKeys.Key.Reading
import VersionedKeys.Streaming.Cipher
import VersionedKeys.Streaming.Tag

/-!
# The streams of a key

What a key can do depends on its type.  Keys that encrypt have a cipher, and a
tag stream beside it unless the cipher authenticates what it makes.
-/

namespace VersionedKeys

/-- The streams of one encryption. -/
structure Encryption where
  encryptor : Streaming.Encryptor
  mac : Option Streaming.TagStream

/-- The streams of one decryption.  There is no decryptor if no key is known. -/
structure Decryption where
  decryptor : Option Streaming.Decryptor
  mac : Option Streaming.TagStream

/-- The streams that take the place of those of an unknown key. -/
def Decryption.decoy : Decryption := ⟨none, some .startDecoy⟩

/-- The length of the tag at the end of what is decrypted. -/
def Decryption.tagLength (decryption : Decryption) : Nat :=
  decryption.mac.elim 0 (·.tagLength)

namespace Key

open Streaming

def unsupported (key : Key) (use : KeyUse) : Error :=
  .key (.unsupported key.keyType use)

/-- The streams that make an artifact with the given header. -/
def startEncryption (key : Key) (header : Bytes) (random : Random) :
    Except Error Encryption × Random :=
  match key.material with
  | .aes aes =>
      let (stream, random) := CbcEncryptor.start aes.aes.bytes none false random
      (stream.map fun stream => ⟨.cbc stream, some (.hmac (.start aes.mac))⟩, random)
  | .aesAead aes =>
      let (stream, random) := GcmEncryptor.start aes.bytes header random
      (stream.map fun stream => ⟨.gcm stream, none⟩, random)
  | .rsaPrivate rsa => (.ok ⟨.oaep (.start rsa.publicKey), none⟩, random)
  | .rsaPublic rsa => (.ok ⟨.oaep (.start rsa), none⟩, random)
  | _ => (.error (key.unsupported .encryption), random)

/-- The streams that open an artifact with the given header. -/
def startDecryption (key : Key) (header : Bytes) : Except Error Decryption :=
  match key.material with
  | .aes aes =>
      (CbcDecryptor.start aes.aes.bytes none).map fun stream =>
        ⟨some (.cbc stream), some (.hmac (.start aes.mac))⟩
  | .aesAead aes =>
      (GcmDecryptor.start aes.bytes header).map fun stream => ⟨some (.gcm stream), none⟩
  | .rsaPrivate rsa => .ok ⟨some (.oaep (.start rsa)), none⟩
  | _ => .error (key.unsupported .decryption)

def startSigning (key : Key) : Except Error TagStream :=
  match key.material with
  | .hmacSha1 mac => .ok (.hmac (.start mac))
  | .rsaPrivate rsa => .ok (.signature (.signing (.rsa rsa)))
  | .dsaPrivate dsa => .ok (.signature (.signing (.dsa dsa)))
  | _ => .error (key.unsupported .signing)

def startVerifying (key : Key) : Except Error TagStream :=
  match key.material with
  | .hmacSha1 mac => .ok (.hmac (.start mac))
  | .rsaPrivate rsa => .ok (.signature (.verifying (.rsa rsa.publicKey)))
  | .rsaPublic rsa => .ok (.signature (.verifying (.rsa rsa)))
  | .dsaPrivate dsa => .ok (.signature (.verifying (.dsa dsa.publicKey)))
  | .dsaPublic dsa => .ok (.signature (.verifying (.dsa dsa)))
  | _ => .error (key.unsupported .verification)

end Key

end VersionedKeys
