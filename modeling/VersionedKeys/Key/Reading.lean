import VersionedKeys.Key.Material

/-!
# Reading keys

A key is stored as an array of byte strings.  Numbers may have zeros in front;
they are dropped when the key is stored again.
-/

namespace VersionedKeys

def AesHmacKey.ofParts (aes mac : Bytes) : Except Error AesHmacKey :=
  match Aes.Key.ofBytes? aes with
  | none => .error (.key (.aesLength aes.length))
  | some aes =>
      if length_mac : mac.length = 32 then .ok ⟨aes, mac, length_mac⟩
      else .error (.key (.hmacLength mac.length))

/-- A key of AES in Galois/counter mode from its bytes. -/
def Aes.Key.ofBytes (bytes : Bytes) : Except Error Aes.Key :=
  match Aes.Key.ofBytes? bytes with
  | some key => .ok key
  | none => .error (.key (.aesLength bytes.length))

namespace Material

def dsaPublicKey (prime order generator value : Bytes) : Except Error Dsa.PublicKey :=
  (Dsa.PublicKey.ofNumbers prime.toNat order.toNat generator.toNat value.toNat).mapError
    fun fault => .key (.badDsa fault)

/-- Read the stored form of a key of a type, of whatever size. -/
def read (keyType : KeyType) (bytes : Bytes) : Except Error Material := do
  match keyType with
  | .aes =>
      match ← Cbor.decodeByteStrings "AES key" bytes 2 with
      | [cipherKey, macKey] => .aes <$> AesHmacKey.ofParts cipherKey macKey
      | _ => .error (.malformed (.expectedItems "AES key" 2))
  | .hmacSha1 =>
      match ← Cbor.decodeByteStrings "HMAC key" bytes 1 with
      | [key] => .ok (.hmacSha1 key)
      | _ => .error (.malformed (.expectedItems "HMAC key" 1))
  | .aesAead =>
      match ← Cbor.decodeByteStrings "AEAD key" bytes 1 with
      | [key] => .aesAead <$> Aes.Key.ofBytes key
      | _ => .error (.malformed (.expectedItems "AEAD key" 1))
  | .rsaPrivate =>
      match ← Cbor.decodeByteStrings "RSA private key" bytes 5 with
      | [modulus, exponent, secret, first, second] =>
          .rsaPrivate <$> (Rsa.PrivateKey.ofNumbers modulus.toNat exponent.toNat secret.toNat
            first.toNat second.toNat).mapError fun fault => .key (.badRsaPrivate fault)
      | _ => .error (.malformed (.expectedItems "RSA private key" 5))
  | .rsaPublic =>
      match ← Cbor.decodeByteStrings "RSA public key" bytes 2 with
      | [modulus, exponent] =>
          .rsaPublic <$> (Rsa.PublicKey.ofNumbers modulus.toNat exponent.toNat).mapError
            fun fault => .key (.badRsaPublic fault)
      | _ => .error (.malformed (.expectedItems "RSA public key" 2))
  | .dsaPrivate =>
      match ← Cbor.decodeByteStrings "DSA private key" bytes 5 with
      | [prime, order, generator, value, secret] =>
          let publicKey ← dsaPublicKey prime order generator value
          .dsaPrivate <$> (Dsa.PrivateKey.ofNumbers publicKey secret.toNat).mapError
            fun fault => .key (.badDsa fault)
      | _ => .error (.malformed (.expectedItems "DSA private key" 5))
  | .dsaPublic =>
      match ← Cbor.decodeByteStrings "DSA public key" bytes 4 with
      | [prime, order, generator, value] =>
          .dsaPublic <$> dsaPublicKey prime order generator value
      | _ => .error (.malformed (.expectedItems "DSA public key" 4))

end Material

namespace Key

def read (keyType : KeyType) (bytes : Bytes) : Except Error Key := do
  Key.ofMaterial (← Material.read keyType bytes)

/-- Read a key out of a buffer.  Whether or not there is one, the buffer is all
zeros afterwards. -/
def consume (keyType : KeyType) (buffer : Bytes) : Except Error Key × Bytes :=
  (read keyType buffer, List.replicate buffer.length 0)

end Key

end VersionedKeys
