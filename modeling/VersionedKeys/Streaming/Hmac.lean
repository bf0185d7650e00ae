import VersionedKeys.Digest.Hmac
import VersionedKeys.Error

/-!
# Streams that authenticate

Bytes go in and none come out; at the end there is a tag over them.
-/

namespace VersionedKeys.Streaming

open Digest

/-- An authentication by HMAC-SHA1. -/
inductive HmacStream where
  | running (mac : Digest.Hmac Sha1State)
  | finished (tag : Bytes)

namespace HmacStream

def start (key : Bytes) : HmacStream := .running (sha1.startHmac key)

def write : HmacStream → Bytes → HmacStream × Except Error Unit
  | running mac, input => (.running (sha1.updateHmac mac input), .ok ())
  | finished tag, _ => (.finished tag, .error .streamFinished)

def finish : HmacStream → HmacStream
  | running mac => .finished (sha1.finishHmac mac)
  | finished tag => .finished tag

/-- The tag, once there is one. -/
def tag : HmacStream → Bytes
  | running _ => []
  | finished tag => tag

/-- Finish, and compare the tag with the front of a candidate.  What follows
the first twenty bytes is not looked at. -/
def verify (stream : HmacStream) (candidate : Bytes) : HmacStream × Bool :=
  let stream := stream.finish
  let front := candidate.take sha1Size
  (stream, front.length == sha1Size && front == stream.tag)

end HmacStream

/-- The key of authentications that never verify. -/
def decoyKey : Bytes := List.replicate 64 0x5C

end VersionedKeys.Streaming
