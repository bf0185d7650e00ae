import VersionedKeys.Artifact.Header
import VersionedKeys.Artifact.Transfer
import VersionedKeys.Key.Streams

/-!
# Making artifacts

What the cipher puts out goes into the artifact and into the tag, so that the
tag covers exactly what was sent, the header included.
-/

namespace VersionedKeys.Artifact

open Streaming

/-- Give bytes to a tag stream, if there is one. -/
def feed : Option TagStream → Bytes → Except Error (Option TagStream)
  | none, _ => .ok none
  | some mac, bytes =>
      match mac.write bytes with
      | (mac, .ok ()) => .ok (some mac)
      | (_, .error error) => .error error

/-- An artifact in the making. -/
structure Sealer where
  encryptor : Encryptor
  /-- The tag over what has been sent. -/
  mac : Option TagStream

namespace Sealer

/-- Begin an artifact: its header is sent first. -/
def start (key : Key) (random : Random) : Except Error (Sealer × Bytes) × Random :=
  let head := header key.hash
  let (streams, random) := key.startEncryption head random
  let begun := do
    let streams ← streams
    let mac ← feed streams.mac head
    .ok (⟨streams.encryptor, mac⟩, head)
  (begun, random)

/-- Encrypt some bytes, and say what is to be sent. -/
def write (sealer : Sealer) (bytes : Bytes) : Except Error (Sealer × Bytes) := do
  let (encryptor, output) := sealer.encryptor.write bytes
  let output ← output
  let mac ← feed sealer.mac output
  .ok (⟨encryptor, mac⟩, output)

/-- The tag over what has been sent. -/
def tag : Option TagStream → Except Error Bytes
  | none => .ok []
  | some mac =>
      match mac.finish with
      | (mac, .ok ()) => .ok mac.tag
      | (_, .error error) => .error error

/-- Say what is to be sent at the end: the rest of the cipher text, and the
tag. -/
def finish (sealer : Sealer) (random : Random) : Except Error Bytes × Random :=
  let ((_, output), random) := sealer.encryptor.finish random
  let ending := do
    let output ← output
    let mac ← feed sealer.mac output
    let tag ← tag mac
    .ok (output ++ tag)
  (ending, random)

/-- Encrypt the outcomes of reads up to the end, and send everything to a sink.
An interruption is an error like any other. -/
def transfer (sealer : Sealer) : List Read → Sink → Random → (Except Error Unit × Sink) × Random
  | .data bytes :: reads, sink, random =>
      match sealer.write bytes with
      | .error error => ((.error error, sink), random)
      | .ok (sealer, output) =>
          match sink.write output with
          | (.error error, sink) => ((.error error, sink), random)
          | (.ok (), sink) => transfer sealer reads sink random
  | .failed fault :: _, sink, random => ((.error (.transfer fault), sink), random)
  | .ended :: _, sink, random | [], sink, random =>
      match sealer.finish random with
      | (.error error, random) => ((.error error, sink), random)
      | (.ok output, random) =>
          match sink.write output with
          | (.error error, sink) => ((.error error, sink), random)
          | (.ok (), sink) => (sink.flush, random)

end Sealer

def encryptStream (key : Key) (source : Source) (sink : Sink) (random : Random) :
    (Except Error Unit × Sink) × Random :=
  match Sealer.start key random with
  | (.error error, random) => ((.error error, sink), random)
  | (.ok (sealer, head), random) =>
      match sink.write head with
      | (.error error, sink) => ((.error error, sink), random)
      | (.ok (), sink) => sealer.transfer (source.reads chunkSize) sink random

/-- The artifact of a message. -/
def encrypt (key : Key) (message : Bytes) (random : Random) : Except Error Bytes × Random :=
  let ((result, sink), random) := encryptStream key (.ofBytes message) {} random
  (result.map fun _ => sink.written, random)

end VersionedKeys.Artifact
