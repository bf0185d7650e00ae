import VersionedKeys.Digest.Hmac

/-!
# Keys from passwords

Each block of the derived key is the exclusive or of a chain of tags under the
password, the first of them of the salt and the number of the block.
-/

namespace VersionedKeys.Digest.HashFunction

variable {Chaining : Type} (hash : HashFunction Chaining)

/-- The exclusive or of `total` and the next `rounds` tags after `previous`. -/
def stretch (mac : Hmac Chaining) : (rounds : Nat) → (previous total : Bytes) → Bytes
  | 0, _, total => total
  | rounds + 1, previous, total =>
      let next := hash.finishHmac (hash.updateHmac mac previous)
      stretch mac rounds next (Bytes.xor total next)

/-- A key of `length` bytes from a password.  No rounds count as one. -/
def pbkdf2 (password salt : Bytes) (rounds length : Nat) : Bytes :=
  let mac := hash.startHmac password
  let size := (hash.output hash.initial).length
  let blocks := (List.range ((length + size - 1) / size)).flatMap fun index =>
    let first := hash.finishHmac (hash.updateHmac mac (salt ++ Bytes.ofNat 4 (index + 1)))
    hash.stretch mac (rounds - 1) first first
  blocks.take length

end VersionedKeys.Digest.HashFunction
