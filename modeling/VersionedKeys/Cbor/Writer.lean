import VersionedKeys.Cbor.Header
import VersionedKeys.Text.Utf8

/-!
# Writing CBOR

Items are written with the shortest headers and definite lengths.
-/

namespace VersionedKeys.Cbor

def writeArray (count : Nat) : Bytes := encodeHeader 4 count

def writeMap (count : Nat) : Bytes := encodeHeader 5 count

def writeBytes (bytes : Bytes) : Bytes := encodeHeader 2 bytes.length ++ bytes

def writeText (text : String) : Bytes :=
  let bytes := Utf8.encode text
  encodeHeader 3 bytes.length ++ bytes

def writeNumber (value : UInt64) : Bytes := encodeHeader 0 value.toNat

def writeBool (value : Bool) : Bytes := [if value then 0xF5 else 0xF4]

/-- An array of byte strings: the form in which all key material is stored. -/
def writeByteStrings (parts : List Bytes) : Bytes :=
  writeArray parts.length ++ parts.flatMap writeBytes

end VersionedKeys.Cbor
