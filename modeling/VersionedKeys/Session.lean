import VersionedKeys.Key.Generation
import VersionedKeys.Signer

/-!
# Sessions

One side makes up a key, packs it and encrypts it for the other side, which
unpacks it.  From then on both encrypt and decrypt with that key.
-/

namespace VersionedKeys

def KeyType.checkSession : KeyType → Except Error Unit
  | .aes | .aesAead => .ok ()
  | keyType => .error (.key (.noSessionKey keyType))

/-- How a session key is written. -/
inductive KeyPacking where
  /-- An array of the type, the size and the stored form of the key. -/
  | cbor
  /-- The number of parts, and each part after its length: an AES key and its
  HMAC key. -/
  | aesHmac
  deriving DecidableEq, Repr

namespace KeyPacking

def packCbor (key : Key) : Except Error Bytes := do
  key.keyType.checkSession
  .ok (Cbor.writeArray 3 ++ Cbor.writeText (Tagged.tag key.keyType) ++
    Cbor.writeNumber (UInt64.ofNat key.size) ++ Cbor.writeBytes key.toBytes)

/-- Unpack a key from an array.  Bytes after it are ignored. -/
def unpackCbor (packed : Bytes) : Except Error Key := do
  let reader ← Cbor.readArray "packed key" 3 (.ofBytes packed)
  let (keyType, reader) ← Cbor.readText "packed key type" reader
  let keyType : KeyType ← Tagged.parse keyType
  keyType.checkSession
  let (size, reader) ← Cbor.readNumber "packed key size" reader
  let (material, _) ← Cbor.readBytes "packed key material" reader
  let key ← Key.read keyType material
  if size.toNat = key.size then .ok key else .error (.malformed (.packedSize size key.size))

def packAesHmac (key : Key) : Except Error Bytes :=
  match key.material with
  | .aes aes => .ok (Bytes.ofNat 4 2 ++ KeyHash.lengthPrefixed [aes.aes.bytes, aes.mac])
  | _ => .error (.key (.unpackable key.keyType))

def takeNumber (bytes : Bytes) : Except Error (Nat × Bytes) :=
  let digits : Bytes := bytes.take 4
  if digits.length < 4 then .error (.malformed .packedTruncated)
  else .ok (digits.toNat, bytes.drop 4)

def takePart (bytes : Bytes) : Except Error (Bytes × Bytes) := do
  let (length, rest) ← takeNumber bytes
  if rest.length < length then .error (.malformed .packedAesTruncated)
  else .ok (rest.take length, rest.drop length)

def unpackAesHmac (packed : Bytes) : Except Error Key := do
  let (count, rest) ← takeNumber packed
  if count ≠ 2 then .error (.malformed (.packedParts (UInt32.ofNat count)))
  else
    let (cipherKey, rest) ← takePart rest
    let (macKey, rest) ← takePart rest
    if rest.isEmpty then Key.ofMaterial (.aes (← AesHmacKey.ofParts cipherKey macKey))
    else .error (.malformed .packedTrailing)

def pack : KeyPacking → Key → Except Error Bytes
  | cbor => packCbor
  | aesHmac => packAesHmac

def unpack : KeyPacking → Bytes → Except Error Key
  | cbor => unpackCbor
  | aesHmac => unpackAesHmac

end KeyPacking

/-- How session keys are made and packed. -/
structure SessionOptions where
  keyType : KeyType := .aesAead
  /-- The size in bits, or zero for the default size. -/
  keySize : Nat := 0
  packing : KeyPacking := .cbor
  deriving DecidableEq, Repr

/-- Session keys of AES in chained blocks, authenticated by HMAC. -/
def SessionOptions.aesHmac : SessionOptions := ⟨.aes, 0, .aesHmac⟩

/-- What is sent to set up a session. -/
structure SessionMaterial where
  /-- The packed key, encrypted. -/
  material : Bytes
  signature : Option Bytes
  deriving DecidableEq, Repr

/-- One end of a session. -/
structure Session where
  key : Key

instance : Encrypts Session := ⟨fun session => .ok session.key⟩

instance : Decrypts Session :=
  ⟨fun session hash => if session.key.hash = hash then [session.key] else []⟩

namespace Session

/-- The signature of the material, if there is someone to sign it. -/
def signMaterial (signer? : Option Signer) (material : Bytes) :
    Except Error (Option Bytes) :=
  match signer? with
  | none => .ok none
  | some signer => (signer.sign material).map some

def originate {Holder : Type} [Encrypts Holder] (encrypter : Holder) (options : SessionOptions)
    (signer? : Option Signer) (random : Random) :
    Except Error (Session × SessionMaterial) × Random :=
  match options.keyType.checkSession with
  | .error error => (.error error, random)
  | .ok () =>
      match Key.generate options.keyType options.keySize random with
      | (.error error, random) => (.error error, random)
      | (.ok key, random) =>
          match options.packing.pack key with
          | .error error => (.error error, random)
          | .ok packed =>
              match Encrypts.encrypt encrypter packed random with
              | (.error error, random) => (.error error, random)
              | (.ok material, random) =>
                  ((signMaterial signer? material).map fun signature =>
                    (⟨key⟩, ⟨material, signature⟩), random)

/-- Check the signature of the material, if there is someone to verify it. -/
def checkMaterial (verifier? : Option Verifier) (material : SessionMaterial) :
    Except Error Unit :=
  match verifier?, material.signature with
  | none, _ => .ok ()
  | some _, none => .error .invalidCryptoData
  | some verifier, some signature => Verifies.verify verifier material.material signature

/-- The session key in a packed form; whatever is wrong with it is not told. -/
def unpackKey (packing : KeyPacking) (packed : Bytes) : Except Error Key :=
  (do
    let key ← packing.unpack packed
    key.keyType.checkSession
    .ok key).mapError (Error.handle fun _ => .invalidCryptoData)

def accept (crypter : Crypter) (material : SessionMaterial) (options : SessionOptions)
    (verifier? : Option Verifier) : Except Error Session := do
  checkMaterial verifier? material
  let packed ← Decrypts.decrypt crypter material.material
  let key ← unpackKey options.packing packed
  .ok ⟨key⟩

end Session

end VersionedKeys
