import VersionedKeys.Dsa.Signature
import VersionedKeys.Error
import VersionedKeys.Rsa.Signature

/-!
# Streams that sign

Bytes are digested as they arrive.  At the end the digest is signed, if the
stream has a private key; verification needs the public key only.
-/

namespace VersionedKeys.Streaming

open Digest

/-- A private key that signs. -/
inductive SigningKey where
  | rsa (key : Rsa.PrivateKey)
  | dsa (key : Dsa.PrivateKey)

/-- A public key that verifies. -/
inductive VerifyingKey where
  | rsa (key : Rsa.PublicKey)
  | dsa (key : Dsa.PublicKey)

/-- The signature of a digest.  For some digests a key has none. -/
def SigningKey.sign : SigningKey → Bytes → Except Error Bytes
  | rsa key, digest => (Rsa.sign? key digest).elim (.error .invalidCryptoData) .ok
  | dsa key, digest =>
      match key.nonce? digest with
      | none => .error (.stopped .endlessSearch)
      | some (nonce, inverse) =>
          (key.signWith? digest nonce inverse).elim (.error .invalidCryptoData) .ok

def VerifyingKey.verify : VerifyingKey → (digest signature : Bytes) → Bool
  | rsa key, digest, signature => Rsa.verify key digest signature
  | dsa key, digest, signature => Dsa.verify key digest signature

def SigningKey.verifyingKey : SigningKey → VerifyingKey
  | rsa key => .rsa key.publicKey
  | dsa key => .dsa key.publicKey

/-- The longest signature of a key: a modulus for RSA, 48 bytes for DSA with a
small modulus of 160 bits. -/
def VerifyingKey.tagLength : VerifyingKey → Nat
  | rsa key => key.length
  | dsa _ => 48

/-- A signature, or the verification of one, in progress. -/
structure SignatureStream where
  signer? : Option SigningKey
  verifier : VerifyingKey
  absorbed : Absorbed Sha1State
  finished : Bool
  /-- The signature, once there is one. -/
  signature : Bytes

namespace SignatureStream

def verifying (key : VerifyingKey) : SignatureStream := ⟨none, key, sha1.empty, false, []⟩

/-- A stream that signs, and verifies with the public half of the key. -/
def signing (key : SigningKey) : SignatureStream :=
  ⟨some key, key.verifyingKey, sha1.empty, false, []⟩

def write (stream : SignatureStream) (input : Bytes) : SignatureStream × Except Error Unit :=
  if stream.finished then (stream, .error .streamFinished)
  else ({ stream with absorbed := sha1.absorb stream.absorbed input }, .ok ())

/-- Sign the digest, if there is a key to sign with.  Only the first time does
anything. -/
def finish (stream : SignatureStream) : SignatureStream × Except Error Unit :=
  if stream.finished then (stream, .ok ())
  else
    let stream := { stream with finished := true }
    match stream.signer? with
    | none => (stream, .ok ())
    | some key =>
        match key.sign (sha1.finish stream.absorbed) with
        | .error error => (stream, .error error)
        | .ok signature => ({ stream with signature := signature }, .ok ())

/-- Finish, and check a signature. -/
def verify (stream : SignatureStream) (candidate : Bytes) :
    SignatureStream × Except Error Bool :=
  let (stream, result) := stream.finish
  (stream, result.map fun _ => stream.verifier.verify (sha1.finish stream.absorbed) candidate)

end SignatureStream

end VersionedKeys.Streaming
