import VersionedKeys.Cbor.Writer
import VersionedKeys.Metadata.Basic

/-!
# Encoded metadata

Metadata is written as a map from the names of its fields to their values, and
so is each version in it.
-/

namespace VersionedKeys

/-- A map from texts to encoded values. -/
def Cbor.writeFields (fields : List (String × Bytes)) : Bytes :=
  writeMap fields.length ++ fields.flatMap fun (name, value) => writeText name ++ value

open Cbor Tagged

def KeyVersion.fields (version : KeyVersion) : List (String × Bytes) :=
  [("versionNumber", writeNumber version.number.toUInt64),
    ("status", writeText (tag version.status)),
    ("exportable", writeBool version.exportable)]

namespace Metadata

def fields (metadata : Metadata) : List (String × Bytes) :=
  [("name", writeText metadata.name),
    ("purpose", writeText (tag metadata.purpose)),
    ("type", writeText (tag metadata.keyType)),
    ("encrypted", writeBool metadata.encrypted),
    ("versions", writeArray metadata.versions.length ++
      metadata.versions.flatMap fun version => writeFields version.fields)]

def toBytes (metadata : Metadata) : Bytes := writeFields metadata.fields

end Metadata

end VersionedKeys
