import VersionedKeys.Dsa.Key
import VersionedKeys.Metadata.Basic
import VersionedKeys.Metadata.Fault
import VersionedKeys.Rsa.Key

/-!
# Errors

An error is a cause.  Causes belong to kinds, which are what callers act on;
the wording of every cause stands here.  A cause may also be that the program
does not come back at all; then no caller acts on anything.
-/

namespace VersionedKeys

/-- What is wrong with a key set, or with an operation on one. -/
inductive KeySetFault where
  /-- A text is not one of the tags of a choice. -/
  | unknownTag (noun text : String)
  /-- Keys of a type cannot serve a purpose. -/
  | unsuitedPurpose (keyType : KeyType) (purpose : KeyPurpose)
  | severalPrimaries
  | versionZero
  | duplicateVersion (number : UInt32)
  | versionsExhausted
  | undecodableMetadata (fault : Metadata.Fault)
  /-- A listed version has no data. -/
  | missingData (number : UInt32)
  | unknownVersion (number : UInt32)
  /-- A plain key is added to a set of encrypted keys. -/
  | plainKeyInEncryptedSet
  /-- An encrypted key is added to a set of plain keys. -/
  | encryptedKeyInPlainSet
  /-- A key is of another type than the set. -/
  | foreignKey (keyType setType : KeyType)
  /-- A version that is not inactive is removed. -/
  | versionInUse (number : UInt32) (status : KeyStatus)
  /-- Encryption is switched while there are versions. -/
  | encryptionFixed
  /-- A key set has another purpose than an operation needs. -/
  | otherPurpose (name : String) (purpose : KeyPurpose)
  /-- A key set with encrypted data is used without being unwrapped. -/
  | stillEncrypted (name : String)
  /-- A password is to be stretched in no rounds at all. -/
  | noIterations
  deriving DecidableEq, Repr

/-- What keys are asked to do. -/
inductive KeyUse where
  | encryption
  | decryption
  | signing
  | verification
  deriving DecidableEq, Repr

/-- What is wrong with a key, or with an operation on one. -/
inductive KeyFault where
  | invalidSize (size : Nat) (keyType : KeyType)
  /-- An AES key has a length that AES does not know. -/
  | aesLength (length : Nat)
  /-- The HMAC key that belongs to an AES key is not 32 bytes long. -/
  | hmacLength (length : Nat)
  /-- A public key was to be generated. -/
  | publicKeyGenerated
  /-- The search for the numbers of a key found none. -/
  | generationFailed (algorithm : String)
  | badRsaPrivate (fault : Rsa.Fault)
  | badRsaPublic (fault : Rsa.Fault)
  | badDsa (fault : Dsa.Fault)
  | unsupported (keyType : KeyType) (use : KeyUse)
  /-- A key of another type is packed as an AES key with its HMAC key. -/
  | unpackable (keyType : KeyType)
  | noSessionKey (keyType : KeyType)
  deriving DecidableEq, Repr

/-- In which way data does not have its form. -/
inductive Malformation where
  | expectedItems (element : String) (count : Nat)
  | expectedArray (element : String)
  | expectedBytes (element : String)
  | expectedText (element : String)
  | expectedNumber (element : String)
  | longPlaintext
  | longSignedData
  | packedParts (count : UInt32)
  /-- A packed key ends within a number. -/
  | packedTruncated
  /-- A packed AES key ends within a part. -/
  | packedAesTruncated
  | packedTrailing
  | packedSize (claimed : UInt64) (size : Nat)
  | iterationsOutOfRange
  | ivLength
  deriving DecidableEq, Repr

/-- Why bytes could not be read or written. -/
inductive TransferFault where
  | readFailed (reason : String)
  | interrupted
  | writeFailed
  | flushFailed
  deriving DecidableEq, Repr

/-- Why a program does not come back from an operation. -/
inductive Stop where
  /-- It asks for a larger buffer than there are addresses for, and panics. -/
  | capacityOverflow
  /-- It looks for a nonce and never finds one. -/
  | endlessSearch
  deriving DecidableEq, Repr

/-- Everything that can go wrong. -/
inductive Error where
  /-- Data that cannot be decrypted or verified, for whatever reason. -/
  | invalidCryptoData
  | keySet (fault : KeySetFault)
  /-- The data of a version is not a key. -/
  | unreadableVersion (number : UInt32) (cause : Error)
  | key (fault : KeyFault)
  | missingPrimary
  /-- An element of a container is not CBOR. -/
  | decoding (element : String) (fault : Cbor.Fault)
  | streamFinished
  | malformed (form : Malformation)
  | transfer (fault : TransferFault)
  /-- No error is returned: the program does not come back. -/
  | stopped (reason : Stop)
  deriving DecidableEq, Repr

/-- The kinds of errors that are returned. -/
inductive Error.Kind where
  | invalidCryptoData
  | invalidKeySet
  | invalidKey
  | missingPrimary
  | decoding
  | streamFinished
  | malformed
  | transfer
  deriving DecidableEq, Repr

/-- How an operation ends that has no result. -/
inductive Error.Ending where
  | returned (kind : Error.Kind)
  | stopped (reason : Stop)
  deriving DecidableEq, Repr

def Error.ending : Error → Error.Ending
  | invalidCryptoData => .returned .invalidCryptoData
  | keySet _ => .returned .invalidKeySet
  | unreadableVersion _ _ => .returned .invalidKeySet
  | key _ => .returned .invalidKey
  | missingPrimary => .returned .missingPrimary
  | decoding _ _ => .returned .decoding
  | streamFinished => .returned .streamFinished
  | malformed _ => .returned .malformed
  | transfer _ => .returned .transfer
  | stopped reason => .stopped reason

/-- The kind under which an error is reported.  That a program does not come back is reported by
the system, like its faults in moving bytes. -/
def Error.kind (error : Error) : Error.Kind :=
  match error.ending with
  | .returned kind => kind
  | .stopped _ => .transfer

/-- Put another error in the place of one that is returned.  Nothing handles a stop. -/
def Error.handle (change : Error → Error) : Error → Error
  | stopped reason => stopped reason
  | error => change error

open Tagged

def KeySetFault.message : KeySetFault → String
  | unknownTag noun text => s!"unknown {noun} {Text.quoted text}"
  | unsuitedPurpose keyType purpose => s!"{tag keyType} keys cannot be used for {tag purpose}"
  | severalPrimaries => "more than one primary version"
  | versionZero => "version numbers start at 1"
  | duplicateVersion number => s!"duplicate version {number}"
  | versionsExhausted => "version numbers exhausted"
  | undecodableMetadata fault => s!"could not decode metadata: {fault.message}"
  | missingData number => s!"no key data for version {number}"
  | unknownVersion number => s!"no version {number}"
  | plainKeyInEncryptedSet => "key set is encrypted, so plaintext keys can't be added"
  | encryptedKeyInPlainSet => "key set is not marked as encrypted"
  | foreignKey keyType setType => s!"{tag keyType} key in a {tag setType} key set"
  | versionInUse number status =>
      s!"version {number} is {tag status}; only inactive versions can be removed"
  | encryptionFixed => "can't change encryption of a key set that already has keys"
  | otherPurpose name purpose => s!"key set {Text.quoted name} is for {tag purpose}"
  | stillEncrypted name => s!"key set {Text.quoted name} is encrypted, and needs unwrapping first"
  | noIterations => "PBE iteration count must be positive"

def KeyUse.message : KeyUse → String
  | encryption => "encryption"
  | decryption => "decryption"
  | signing => "signing"
  | verification => "verification"

def KeyFault.message : KeyFault → String
  | invalidSize size keyType => s!"{size} is not a valid size for {tag keyType} keys"
  | aesLength length => s!"{length} byte AES key"
  | hmacLength length => s!"{length} byte HMAC key"
  | publicKeyGenerated => "public keys are derived from a private key, not generated"
  | generationFailed algorithm => s!"{algorithm} key generation failed: no key found"
  | badRsaPrivate fault => s!"bad RSA private key: {fault.message}"
  | badRsaPublic fault => s!"bad RSA public key: {fault.message}"
  | badDsa fault => fault.message
  | unsupported keyType use => s!"{tag keyType} keys cannot be used for {use.message}"
  | unpackable keyType => s!"{tag keyType} keys cannot be packed as AES+HMAC"
  | noSessionKey keyType => s!"{tag keyType} keys cannot be used as session keys"

def Malformation.message : Malformation → String
  | expectedItems element count => s!"{element}: expected {count} items"
  | expectedArray element => s!"{element}: expected array"
  | expectedBytes element => s!"{element}: expected byte string"
  | expectedText element => s!"{element}: expected text"
  | expectedNumber element => s!"{element}: expected unsigned integer"
  | longPlaintext => "plaintext does not fit in one RSA block"
  | longSignedData => "signed data longer than 4GiB"
  | packedParts count => s!"packed AES key has {count} parts, not 2"
  | packedTruncated => "packed key is truncated"
  | packedAesTruncated => "packed AES key is truncated"
  | packedTrailing => "trailing data after packed AES key"
  | packedSize claimed size => s!"packed key claims {claimed} bits, but has {size}"
  | iterationsOutOfRange => "PBE iteration count out of range"
  | ivLength => "PBE IV is not one block long"

def TransferFault.message : TransferFault → String
  | readFailed reason => reason
  | interrupted => "operation interrupted"
  | writeFailed => "write failed"
  | flushFailed => "flush failed"

def Stop.message : Stop → String
  | capacityOverflow => "capacity overflow"
  | endlessSearch => "no nonce"

def Error.message : Error → String
  | invalidCryptoData => "invalid crypto data"
  | keySet fault => s!"invalid key set: {fault.message}"
  | unreadableVersion number cause =>
      s!"invalid key set: version {number}: {Error.message cause}"
  | key fault => s!"invalid key: {fault.message}"
  | missingPrimary => "key set has no primary key"
  | decoding element fault => s!"decoding failure on {element}: {fault.message}"
  | streamFinished => "stream already finished"
  | malformed form => s!"malformed {form.message}"
  | transfer fault => s!"I/O error: {fault.message}"
  | stopped reason => reason.message

def Tagged.parse {Choice : Type} [Tagged Choice] (text : String) : Except Error Choice :=
  match ofTag? text with
  | some choice => .ok choice
  | none => .error (.keySet (.unknownTag (noun Choice) text))

end VersionedKeys
