import VersionedKeys.Aes.Cbc
import VersionedKeys.Cbor.Item
import VersionedKeys.Digest.Pbkdf2
import VersionedKeys.Digest.Sha1
import VersionedKeys.Digest.Sha256
import VersionedKeys.Streaming.Cbc

/-!
# Key data under a password

A key is derived from the password, and encrypts the key data in chained
blocks.  Salt and initialization vector travel in the store.  There is no tag:
a wrong password shows up as wrong padding, or as data that is not a key.
-/

namespace VersionedKeys

/-- The cipher that key data is encrypted with. -/
inductive PasswordCipher where
  | aes128
  deriving DecidableEq, Repr

instance : Tagged PasswordCipher where
  all := [.aes128]
  tag
    | .aes128 => "AES128"
  noun := "PBE cipher"

def PasswordCipher.keyLength : PasswordCipher → Nat
  | aes128 => 16

/-- The function that stretches a password. -/
inductive PasswordHash where
  | hmacSha1
  | hmacSha256
  deriving DecidableEq, Repr

instance : Tagged PasswordHash where
  all := [.hmacSha1, .hmacSha256]
  tag
    | .hmacSha1 => "HMAC_SHA1"
    | .hmacSha256 => "HMAC_SHA256"
  noun := "PBE hmac"

def PasswordHash.derive (hash : PasswordHash) (password salt : Bytes) (rounds length : Nat) :
    Bytes :=
  match hash with
  | hmacSha1 => Digest.sha1.pbkdf2 password salt rounds length
  | hmacSha256 => Digest.sha256.pbkdf2 password salt rounds length

/-- Key data encrypted under a password, with all that is needed to decrypt it
but the password. -/
structure PasswordStore where
  cipher : PasswordCipher
  hash : PasswordHash
  iterations : UInt32
  salt : Bytes
  iv : Block
  /-- The encrypted key data. -/
  key : Bytes
  deriving DecidableEq, Repr

namespace PasswordStore

open Streaming

def saltSize : Nat := 16

def derivedKey (cipher : PasswordCipher) (hash : PasswordHash) (iterations : UInt32)
    (salt : Bytes) (password : String) : Bytes :=
  hash.derive (Utf8.encode password) salt iterations.toNat cipher.keyLength

/-- Encrypt key data under a password in a given way, with new salt and a new
initialization vector. -/
def encryptWith (cipher : PasswordCipher) (hash : PasswordHash) (data : Bytes)
    (password : String) (iterations : UInt32) (random : Random) :
    Except Error PasswordStore × Random :=
  if iterations = 0 then (.error (.keySet .noIterations), random)
  else
    let (salt, random) := random.draw saltSize
    let (iv, random) := random.draw Block.size
    let iv := Block.ofBytes iv
    let (stream, random) :=
      CbcEncryptor.start (derivedKey cipher hash iterations salt password) (some iv) true random
    let store := do
      let (stream, front) := (← stream).write data
      let front ← front
      let back ← stream.finish.2
      .ok ⟨cipher, hash, iterations, salt, iv, front ++ back⟩
    (store, random)

/-- Encrypt key data under a password, in the way that stands unless another is
asked for. -/
def encrypt : (data : Bytes) → (password : String) → (iterations : UInt32) → Random →
    Except Error PasswordStore × Random :=
  encryptWith .aes128 .hmacSha1

/-- The key data, if the password does not prove wrong. -/
def decrypt (store : PasswordStore) (password : String) : Except Error Bytes := do
  let key := derivedKey store.cipher store.hash store.iterations store.salt password
  let (stream, front) := (← CbcDecryptor.start key (some store.iv)).write store.key
  let front ← front
  let back ← stream.finish.2
  .ok (front ++ back)

def toBytes (store : PasswordStore) : Bytes :=
  Cbor.writeArray 6 ++ Cbor.writeText (Tagged.tag store.cipher) ++
    Cbor.writeText (Tagged.tag store.hash) ++ Cbor.writeNumber store.iterations.toUInt64 ++
    Cbor.writeBytes store.salt ++ Cbor.writeBytes store.iv.toBytes ++ Cbor.writeBytes store.key

def read (reader : Cbor.Reader) : Except Error (PasswordStore × Cbor.Reader) := do
  let reader ← Cbor.readArray "PBE key store" 6 reader
  let (cipher, reader) ← Cbor.readText "PBE cipher" reader
  let cipher ← Tagged.parse cipher
  let (hash, reader) ← Cbor.readText "PBE hmac" reader
  let hash ← Tagged.parse hash
  let (iterations, reader) ← Cbor.readNumber "PBE iteration count" reader
  if UInt32.size ≤ iterations.toNat then .error (.malformed .iterationsOutOfRange)
  else
    let (salt, reader) ← Cbor.readBytes "PBE salt" reader
    let (iv, reader) ← Cbor.readBytes "PBE IV" reader
    match Block.ofBytes? iv with
    | none => .error (.malformed .ivLength)
    | some iv =>
        let (key, reader) ← Cbor.readBytes "PBE key" reader
        if iterations = 0 then .error (.keySet .noIterations)
        else .ok (⟨cipher, hash, iterations.toUInt32, salt, iv, key⟩, reader)

/-- The store that is encoded at the front of a byte string. -/
def ofBytes (bytes : Bytes) : Except Error PasswordStore :=
  (read (.ofBytes bytes)).map (·.1)

end PasswordStore

end VersionedKeys
