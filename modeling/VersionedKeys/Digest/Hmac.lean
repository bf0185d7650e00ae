import VersionedKeys.Digest.Sha1
import VersionedKeys.Digest.Sha256

/-!
# HMAC

The tag of a message under a key is the digest, after one key block, of the
digest of the message after another key block.
-/

namespace VersionedKeys.Digest

/-- A message authentication in progress. -/
structure Hmac (Chaining : Type) where
  /-- The inner key block and the message so far. -/
  inner : Absorbed Chaining
  /-- The outer key block. -/
  outer : Absorbed Chaining

namespace HashFunction

variable {Chaining : Type} (hash : HashFunction Chaining)

/-- A key as a block of 64 bytes: a longer one is hashed first. -/
def keyBlock (key : Bytes) : Bytes :=
  let short := if 64 < key.length then hash.digest key else key
  short ++ List.replicate (64 - short.length) 0

def startHmac (key : Bytes) : Hmac Chaining :=
  let block := hash.keyBlock key
  ⟨hash.absorb hash.empty (block.map (· ^^^ 0x36)), hash.absorb hash.empty (block.map (· ^^^ 0x5C))⟩

def updateHmac (mac : Hmac Chaining) (bytes : Bytes) : Hmac Chaining :=
  { mac with inner := hash.absorb mac.inner bytes }

def finishHmac (mac : Hmac Chaining) : Bytes :=
  hash.finish (hash.absorb mac.outer (hash.finish mac.inner))

/-- The tag of a message under a key. -/
def hmac (key message : Bytes) : Bytes :=
  hash.finishHmac (hash.updateHmac (hash.startHmac key) message)

theorem updateHmac_append (mac : Hmac Chaining) (front back : Bytes) :
    hash.updateHmac mac (front ++ back) = hash.updateHmac (hash.updateHmac mac front) back := by
  simp [updateHmac, absorb_append]

end HashFunction

theorem length_hmac_sha1 (key message : Bytes) : (sha1.hmac key message).length = sha1Size := rfl

end VersionedKeys.Digest
