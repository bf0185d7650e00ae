import VersionedKeys.Artifact.Sealing
import VersionedKeys.KeySource

/-!
# Signatures

There are three forms.  A plain signature is a header and the signature.  An
attached signature carries the message, after its length, and also covers
hidden data that both sides know.  A timed signature carries the time after
which it is no longer valid.

What is signed ends in the version byte, and each form has its own function
from the data to the bytes that are signed.
-/

namespace VersionedKeys

/-- Signs with the primary key of a key set, and verifies. -/
structure Signer where
  ring : KeyRing

/-- Verifies signatures of any usable key of a key set. -/
structure Verifier where
  ring : KeyRing

/-- What can verify signatures. -/
class Verifies (Holder : Type) where
  ring : Holder → KeyRing

instance : Verifies Signer := ⟨Signer.ring⟩

instance : Verifies Verifier := ⟨Verifier.ring⟩

def Signer.load (source : KeySource) : Except Error Signer × KeySource :=
  (source.loadRing [.signAndVerify]).map (·.map .mk) id

def Verifier.load (source : KeySource) (allowInactive : Bool) :
    Except Error Verifier × KeySource :=
  (source.loadRing [.signAndVerify, .verify]).map
    (·.map fun ring => ⟨{ ring with allowInactive }⟩) id

/-- The time, and how often it has been looked at. -/
structure Clock where
  /-- Milliseconds since the epoch. -/
  now : Int64
  reads : Nat := 0

def Clock.read (clock : Clock) : Int64 × Clock :=
  (clock.now, { clock with reads := clock.reads + 1 })

namespace Signed

def lengthSize : Nat := 4

def timeSize : Nat := 8

def lengthPrefix (bytes : Bytes) : Except Error Bytes :=
  if bytes.length < UInt32.size then .ok (Bytes.ofNat lengthSize bytes.length)
  else .error (.malformed .longSignedData)

def timeBytes (time : Int64) : Bytes := Bytes.ofNat timeSize time.toUInt64.toNat

def ofTimeBytes (bytes : Bytes) : Int64 := (UInt64.ofNat bytes.toNat).toInt64

/-- The bytes that are signed for plain data. -/
def plain (data : Bytes) : Bytes := data ++ [Artifact.formatVersion]

/-- The bytes that are signed for a message with hidden data. -/
def attached (hidden message : Bytes) : Except Error Bytes := do
  .ok ((← lengthPrefix hidden) ++ hidden ++ message ++ [Artifact.formatVersion])

/-- The bytes that are signed for data with a time. -/
def timed (expiry data : Bytes) : Bytes := expiry ++ data ++ [Artifact.formatVersion]

/-- The message at the front of a body, and the signature after it. -/
def splitAttached (body : Bytes) : Except Error (Bytes × Bytes) :=
  let announced : Bytes := body.take lengthSize
  let rest := body.drop lengthSize
  if announced.length < lengthSize ∨ rest.length < announced.toNat then
    .error .invalidCryptoData
  else .ok (rest.take announced.toNat, rest.drop announced.toNat)

/-- The message in an attached signature, which is not checked. -/
def attachedData (blob : Bytes) : Except Error Bytes := do
  let (_, body) ← Artifact.parse blob
  let (message, _) ← splitAttached body
  .ok message

end Signed

namespace KeyRing

/-- A header, some bytes to be sent, and the signature of the bytes signed. -/
def sign (ring : KeyRing) (signed sent : Bytes) : Except Error Bytes := do
  let key ← ring.primary
  let (stream, written) := (← key.startSigning).write signed
  written
  let (stream, finished) := stream.finish
  finished
  .ok (Artifact.header key.hash ++ sent ++ stream.tag)

/-- Whether the signature of some bytes is one of a key. -/
def accepts (key : Key) (signed signature : Bytes) : Except Error Bool := do
  let (stream, written) := (← key.startVerifying).write signed
  written
  (stream.verify signature).2

/-- Check a signature with keys in turn, up to the first that accepts it. -/
def checkWith (signed signature : Bytes) : List Key → Except Error Unit
  | [] => .error .invalidCryptoData
  | key :: keys => do
      if ← accepts key signed signature then .ok () else checkWith signed signature keys

/-- Do the work of checking a signature, which is never accepted. -/
def checkDecoy (signed signature : Bytes) : Except Error Unit := do
  let (stream, written) := Streaming.TagStream.startDecoy.write signed
  written
  let _ ← (stream.verify signature).2
  .error .invalidCryptoData

def check (ring : KeyRing) (hash : KeyHash) (signed signature : Bytes) : Except Error Unit :=
  match ring.candidates hash with
  | [] => checkDecoy signed signature
  | keys => checkWith signed signature keys

end KeyRing

namespace Signer

def sign (signer : Signer) (data : Bytes) : Except Error Bytes :=
  signer.ring.sign (Signed.plain data) []

/-- A message together with its signature, which also covers hidden data. -/
def attachedSign (signer : Signer) (message hidden : Bytes) : Except Error Bytes := do
  let signed ← Signed.attached hidden message
  let length ← Signed.lengthPrefix message
  signer.ring.sign signed (length ++ message)

def timeoutSign (signer : Signer) (data : Bytes) (expiry : Int64) : Except Error Bytes :=
  let expiry := Signed.timeBytes expiry
  signer.ring.sign (Signed.timed expiry data) expiry

end Signer

namespace Verifies

variable {Holder : Type} [Verifies Holder]

def verify (holder : Holder) (data signature : Bytes) : Except Error Unit := do
  let (hash, body) ← Artifact.parse signature
  (ring holder).check hash (Signed.plain data) body

/-- Check an attached signature, and give the message in it. -/
def attachedVerify (holder : Holder) (blob hidden : Bytes) : Except Error Bytes := do
  let (hash, body) ← Artifact.parse blob
  let (message, signature) ← Signed.splitAttached body
  (ring holder).check hash (← Signed.attached hidden message) signature
  .ok message

/-- Check a timed signature.  The time is looked at if the blob holds one to
compare with. -/
def timeoutVerify (holder : Holder) (data signature : Bytes) (clock : Clock) :
    Except Error Unit × Clock :=
  match Artifact.parse signature with
  | .error error => (.error error, clock)
  | .ok (hash, body) =>
      let expiry := body.take Signed.timeSize
      if expiry.length < Signed.timeSize then (.error .invalidCryptoData, clock)
      else
        let (now, clock) := clock.read
        if Signed.ofTimeBytes expiry < now then (.error .invalidCryptoData, clock)
        else
          ((ring holder).check hash (Signed.timed expiry data) (body.drop Signed.timeSize), clock)

end Verifies

end VersionedKeys
