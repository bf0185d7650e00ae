import VersionedKeys.Artifact.Sealing

/-!
# Opening artifacts

The tag at the end is held back from the cipher and checked after everything
else.  Both checks always run, and every failure is the same error, so that an
unknown key, a wrong tag and a wrong padding cannot be told apart.
-/

namespace VersionedKeys.Artifact

open Streaming

/-- An artifact being opened. -/
structure Opener where
  decryptor : Option Decryptor
  mac : Option TagStream
  tagLength : Nat
  /-- Bytes that may be part of the tag. -/
  held : Bytes
  message : Bytes

namespace Opener

/-- Begin with the header of the artifact. -/
def start (streams : Decryption) (head : Bytes) : Except Error Opener := do
  let mac ← feed streams.mac head
  .ok ⟨streams.decryptor, mac, streams.tagLength, [], []⟩

def decrypt : Option Decryptor → Bytes → Except Error (Option Decryptor × Bytes)
  | none, _ => .ok (none, [])
  | some decryptor, bytes =>
      match decryptor.write bytes with
      | (decryptor, .ok output) => .ok (some decryptor, output)
      | (_, .error error) => .error error

/-- Take in bytes; those that cannot be part of the tag are decrypted. -/
def write (opener : Opener) (bytes : Bytes) : Except Error Opener := do
  let held := opener.held ++ bytes
  if held.length ≤ opener.tagLength then .ok { opener with held := held }
  else
    let body := held.take (held.length - opener.tagLength)
    let mac ← feed opener.mac body
    let (decryptor, output) ← decrypt opener.decryptor body
    .ok ⟨decryptor, mac, opener.tagLength, held.drop (held.length - opener.tagLength),
      opener.message ++ output⟩

/-- The rest of the message, unless the cipher fails or is missing. -/
def rest? : Option Decryptor → Option Bytes
  | none => none
  | some decryptor =>
      match decryptor.finish with
      | (_, .ok output) => some output
      | (_, .error _) => none

/-- Whether the bytes held back are the tag. -/
def verify (opener : Opener) : Except Error Bool :=
  match opener.mac with
  | none => .ok true
  | some mac => (mac.verify opener.held).2.map (· && opener.held.length == opener.tagLength)

/-- The message, if both the cipher and the tag are in order. -/
def finish (opener : Opener) : Except Error Bytes := do
  let rest := rest? opener.decryptor
  let valid ← opener.verify
  match rest, valid with
  | some rest, true => .ok (opener.message ++ rest)
  | _, _ => .error .invalidCryptoData

end Opener

/-- Take a body through an opener, a chunk at a time. -/
def openBody (streams : Decryption) (head body : Bytes) : Except Error Bytes := do
  let opener ← Opener.start streams head
  let opener ← (body.chunks chunkSize).foldlM Opener.write opener
  opener.finish

def decryptWith (key : Key) (head body : Bytes) : Except Error Bytes := do
  openBody (← key.startDecryption head) head body

/-- The message of the first key that opens an artifact. -/
def firstOpened (head body : Bytes) : List Key → Except Error Bytes
  | [] => .error .invalidCryptoData
  | key :: keys =>
      match decryptWith key head body with
      | .ok message => .ok message
      | .error _ => firstOpened head body keys

/-- Open an artifact with one of the candidates for its key hash, in order.  If
there are none, the body still goes through a decoy. -/
def decrypt (candidates : KeyHash → List Key) (artifact : Bytes) : Except Error Bytes := do
  let (hash, body) ← parse artifact
  let head := header hash
  match candidates hash with
  | [] => openBody .decoy head body
  | keys => firstOpened head body keys

end VersionedKeys.Artifact
