import VersionedKeys.Cbor.Header
import VersionedKeys.Text.Decimal
import VersionedKeys.Text.Quoted

/-!
# Faults in encoded metadata

What keeps CBOR input from being the metadata of a key set, and how it is
worded.
-/

namespace VersionedKeys

/-- What kind of item a header begins, in the words of messages.  A negative
number beyond 64 bits is shown wrapped around. -/
def Cbor.Header.describe : Cbor.Header → String
  | positive value => s!"integer `{value}`"
  | negative value =>
      let magnitude : Int := value + 1
      let shown := if 2 * value < UInt64.size then -magnitude else UInt64.size - magnitude
      s!"integer `{shown}`"
  | bytes _ => "bytes"
  | text _ => "string"
  | array _ => "sequence"
  | map _ => "map"
  | tag _ => "tag"
  | simple 20 => "boolean `false`"
  | simple 21 => "boolean `true`"
  | simple 22 => "null"
  | simple 23 => "undefined"
  | simple _ => "simple"
  | float width bits => s!"floating point `{(Text.BinaryNumber.ofBits width bits).text}`"
  | stop => "break"

/-- Why input is not encoded metadata. -/
inductive Metadata.Fault where
  /-- It is not CBOR. -/
  | cbor (fault : Cbor.Fault)
  /-- It is nested too deeply. -/
  | tooDeep
  /-- The item at an offset is no boolean. -/
  | expectedBool (offset : Nat)
  | missingField (field : String)
  | duplicateField (field : String)
  /-- A text is not among the tags of a choice. -/
  | unknownVariant (found : String) (tags : List String)
  /-- An item is of another kind than the one expected. -/
  | unexpected (found : Cbor.Header) (expected : String)
  /-- A version number does not fit 32 bits. -/
  | numberOutOfRange (value : Nat)
  | negativeNumber
  /-- The versions are a byte string that begins with a byte. -/
  | byteAsVersion (first : UInt8)
  /-- A big number has more than sixteen bytes. -/
  | bignumTooLong
  /-- A big number does not fit the integers of its place. -/
  | bignumTooLarge
  deriving DecidableEq, Repr

namespace Metadata.Fault

/-- What is wrong with an item that is CBOR. -/
def reason : Fault → String
  | missingField field => s!"missing field `{field}`"
  | duplicateField field => s!"duplicate field `{field}`"
  | unknownVariant found tags =>
      let listed := ", ".intercalate (tags.map fun tag => s!"`{tag}`")
      s!"unknown variant `{found}`, expected one of {listed}"
  | unexpected found expected => s!"invalid type: {found.describe}, expected {expected}"
  | numberOutOfRange value => s!"invalid value: integer `{value}`, expected u32"
  | negativeNumber => "unexpected negative integer"
  | byteAsVersion first => s!"invalid type: integer `{first}`, expected struct KeyVersion"
  | bignumTooLong => "bigint too large"
  | bignumTooLarge => "integer too large"
  | expectedBool _ => "expected bool"
  | cbor fault => fault.message
  | tooDeep => "RecursionLimitExceeded"

def message : Fault → String
  | cbor fault => fault.message
  | tooDeep => "RecursionLimitExceeded"
  | expectedBool offset => s!"Semantic(Some({offset}), \"expected bool\")"
  | fault => s!"Semantic(None, {Text.quoted fault.reason})"

end Metadata.Fault

end VersionedKeys
