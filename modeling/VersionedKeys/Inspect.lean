import VersionedKeys.Session

/-!
# Inspection

The texts that show keys, key sets and their users to a programmer.  Key
material is never part of them: a key shows its type, size and hash.
-/

namespace VersionedKeys

/-- What can be shown to a programmer. -/
class Inspect (Value : Type) where
  inspect : Value → String

export Inspect (inspect)

namespace Inspect

/-- A name, and fields in braces.  Two dots stand for fields that are kept
back. -/
def record (name : String) (fields : List (String × String)) (complete : Bool) : String :=
  let shown := fields.map fun (field, value) => s!"{field}: {value}"
  let shown := if complete then shown else shown ++ [".."]
  name ++ " \x7b " ++ ", ".intercalate shown ++ " \x7d"

def listed (values : List String) : String :=
  "[" ++ ", ".intercalate values ++ "]"

end Inspect

instance : Inspect String := ⟨Text.quoted⟩

instance : Inspect Bool := ⟨fun value => if value then "true" else "false"⟩

instance : Inspect Nat := ⟨fun value => toString value⟩

instance {Value : Type} [Inspect Value] : Inspect (List Value) :=
  ⟨fun values => Inspect.listed (values.map inspect)⟩

instance {First Second : Type} [Inspect First] [Inspect Second] : Inspect (First × Second) :=
  ⟨fun (first, second) => s!"({inspect first}, {inspect second})"⟩

instance : Inspect KeyType where
  inspect
    | .aes => "Aes"
    | .hmacSha1 => "HmacSha1"
    | .dsaPrivate => "DsaPrivate"
    | .dsaPublic => "DsaPublic"
    | .rsaPrivate => "RsaPrivate"
    | .rsaPublic => "RsaPublic"
    | .aesAead => "AesAead"

instance : Inspect KeyPurpose where
  inspect
    | .encrypt => "Encrypt"
    | .decryptAndEncrypt => "DecryptAndEncrypt"
    | .signAndVerify => "SignAndVerify"
    | .verify => "Verify"

instance : Inspect KeyStatus where
  inspect
    | .primary => "Primary"
    | .active => "Active"
    | .inactive => "Inactive"

instance : Inspect KeyHash :=
  ⟨fun hash => s!"KeyHash({inspect (hash.toBytes.map (·.toNat))})"⟩

instance : Inspect Key :=
  ⟨fun key =>
    Inspect.record "Key"
      [("type", inspect key.keyType), ("size", inspect key.size), ("hash", inspect key.hash)]
      true⟩

instance : Inspect KeyVersion :=
  ⟨fun version =>
    Inspect.record "KeyVersion"
      [("version_number", inspect version.number.toNat), ("status", inspect version.status),
        ("exportable", inspect version.exportable)]
      true⟩

instance : Inspect Metadata :=
  ⟨fun metadata =>
    Inspect.record "KeyMetadata"
      [("name", inspect metadata.name), ("purpose", inspect metadata.purpose),
        ("key_type", inspect metadata.keyType), ("encrypted", inspect metadata.encrypted),
        ("versions", inspect metadata.versions)]
      true⟩

instance : Inspect KeyRing :=
  ⟨fun ring =>
    Inspect.record "KeyRing"
      [("name", inspect ring.name), ("purpose", inspect ring.purpose),
        ("keys", inspect ring.keys), ("allow_inactive", inspect ring.allowInactive)]
      true⟩

instance : Inspect Encrypter :=
  ⟨fun encrypter => Inspect.record "Encrypter" [("ring", inspect encrypter.ring)] true⟩

instance : Inspect Crypter :=
  ⟨fun crypter => Inspect.record "Crypter" [("ring", inspect crypter.ring)] true⟩

instance : Inspect Signer :=
  ⟨fun signer => Inspect.record "Signer" [("ring", inspect signer.ring)] true⟩

instance : Inspect Verifier :=
  ⟨fun verifier => Inspect.record "Verifier" [("ring", inspect verifier.ring)] true⟩

instance : Inspect Session :=
  ⟨fun session => Inspect.record "SessionCrypter" [("key", inspect session.key)] true⟩

instance : Inspect KeySet :=
  ⟨fun keySet =>
    Inspect.record "MemoryKeySet" [("metadata", inspect keySet.metadata)] false⟩

/-- A key set as it is seen through its layers. -/
def KeySource.inspect : KeySource → String
  | stored keySet => Inspect.inspect keySet
  | wrapped inner crypter =>
      Inspect.record "EncryptedKeySet"
        [("inner", inner.inspect), ("crypter", Inspect.inspect crypter)] true
  | locked _ _ => Inspect.record "PbeKeySet" [] false

instance : Inspect KeySource := ⟨KeySource.inspect⟩

end VersionedKeys
