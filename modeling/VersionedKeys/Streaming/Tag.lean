import VersionedKeys.Streaming.Hmac
import VersionedKeys.Streaming.Signature

/-!
# Tag streams

The streams that take bytes in and end in a tag or signature.  The decoy does
the work of an authentication and never verifies.
-/

namespace VersionedKeys.Streaming

/-- A stream that ends in a tag or signature. -/
inductive TagStream where
  | hmac (stream : HmacStream)
  | decoy (stream : HmacStream)
  | signature (stream : SignatureStream)

namespace TagStream

/-- A stream that does the work of an authentication and never verifies. -/
def startDecoy : TagStream := .decoy (.start decoyKey)

def tagLength : TagStream → Nat
  | hmac _ | decoy _ => Digest.sha1Size
  | signature stream => stream.verifier.tagLength

/-- The tag or signature: empty until the stream is finished, and always for
streams that do not make one. -/
def tag : TagStream → Bytes
  | hmac stream => stream.tag
  | decoy _ => []
  | signature stream => stream.signature

def write : TagStream → Bytes → TagStream × Except Error Unit
  | hmac stream, input => (stream.write input).map .hmac id
  | decoy stream, input => (stream.write input).map .decoy id
  | signature stream, input => (stream.write input).map .signature id

def finish : TagStream → TagStream × Except Error Unit
  | hmac stream => (.hmac stream.finish, .ok ())
  | decoy stream => (.decoy stream.finish, .ok ())
  | signature stream => stream.finish.map .signature id

def verify : TagStream → (candidate : Bytes) → TagStream × Except Error Bool
  | hmac stream, candidate =>
      let (stream, valid) := stream.verify candidate
      (.hmac stream, .ok valid)
  | decoy stream, candidate =>
      let (stream, _) := stream.verify candidate
      (.decoy stream, .ok false)
  | signature stream, candidate => (stream.verify candidate).map .signature id

end TagStream

end VersionedKeys.Streaming
