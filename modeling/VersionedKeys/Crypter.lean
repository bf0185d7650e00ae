import VersionedKeys.Artifact.Opening
import VersionedKeys.KeyRing

/-!
# Encryption and decryption

An encrypter uses the primary key of its ring.  A crypter also decrypts, with
the candidates for the key hash of an artifact.
-/

namespace VersionedKeys

/-- Encrypts with the primary key of a key set. -/
structure Encrypter where
  ring : KeyRing

/-- Encrypts with the primary key of a key set, and decrypts with any that is
usable. -/
structure Crypter where
  ring : KeyRing

/-- What can encrypt. -/
class Encrypts (Holder : Type) where
  /-- The key for everything new. -/
  encryptionKey : Holder → Except Error Key

/-- What can decrypt. -/
class Decrypts (Holder : Type) where
  /-- The keys to try on an artifact with a key hash, in order. -/
  decryptionKeys : Holder → KeyHash → List Key

instance : Encrypts Encrypter := ⟨fun encrypter => encrypter.ring.primary⟩

instance : Encrypts Crypter := ⟨fun crypter => crypter.ring.primary⟩

instance : Decrypts Crypter := ⟨fun crypter => crypter.ring.candidates⟩

namespace Encrypts

variable {Holder : Type} [Encrypts Holder]

/-- The artifact of a message. -/
def encrypt (holder : Holder) (message : Bytes) (random : Random) :
    Except Error Bytes × Random :=
  match encryptionKey holder with
  | .error error => (.error error, random)
  | .ok key => Artifact.encrypt key message random

def encryptStream (holder : Holder) (source : Source) (sink : Sink) (random : Random) :
    (Except Error Unit × Sink) × Random :=
  match encryptionKey holder with
  | .error error => ((.error error, sink), random)
  | .ok key => Artifact.encryptStream key source sink random

end Encrypts

namespace Decrypts

variable {Holder : Type} [Decrypts Holder]

/-- The message of an artifact. -/
def decrypt (holder : Holder) (artifact : Bytes) : Except Error Bytes :=
  Artifact.decrypt (decryptionKeys holder) artifact

/-- Decrypt a source to a sink.  Nothing is written before all of the artifact
has been authenticated. -/
def decryptStream (holder : Holder) (source : Source) (sink : Sink) :
    Except Error Unit × Sink :=
  match source.readAll.bind (decrypt holder) with
  | .error error => (.error error, sink)
  | .ok message =>
      match sink.write message with
      | (.error error, sink) => (.error error, sink)
      | (.ok (), sink) => sink.flush

end Decrypts

end VersionedKeys
