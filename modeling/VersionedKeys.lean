import VersionedKeys.Aes.Block
import VersionedKeys.Aes.Cbc
import VersionedKeys.Aes.Cipher
import VersionedKeys.Aes.Gcm
import VersionedKeys.Aes.Substitution
import VersionedKeys.Artifact.Header
import VersionedKeys.Artifact.Opening
import VersionedKeys.Artifact.Sealing
import VersionedKeys.Artifact.Transfer
import VersionedKeys.Bytes
import VersionedKeys.Cbor.Header
import VersionedKeys.Cbor.Item
import VersionedKeys.Cbor.Segments
import VersionedKeys.Cbor.Writer
import VersionedKeys.Crypter
import VersionedKeys.Digest.Basic
import VersionedKeys.Digest.Hmac
import VersionedKeys.Digest.Pbkdf2
import VersionedKeys.Digest.Sha1
import VersionedKeys.Digest.Sha256
import VersionedKeys.Dsa.Der
import VersionedKeys.Dsa.Generation
import VersionedKeys.Dsa.Key
import VersionedKeys.Dsa.Signature
import VersionedKeys.Error
import VersionedKeys.Inspect
import VersionedKeys.Key.Generation
import VersionedKeys.Key.Material
import VersionedKeys.Key.Reading
import VersionedKeys.Key.Streams
import VersionedKeys.KeyHash
import VersionedKeys.KeyRing
import VersionedKeys.KeySet
import VersionedKeys.KeySource
import VersionedKeys.KeyType
import VersionedKeys.Metadata.Basic
import VersionedKeys.Metadata.Decoding
import VersionedKeys.Metadata.Encoding
import VersionedKeys.Metadata.Fault
import VersionedKeys.Metadata.Validation
import VersionedKeys.Metadata.Values
import VersionedKeys.Number.Modular
import VersionedKeys.Number.Power
import VersionedKeys.Number.Prime
import VersionedKeys.PasswordStore
import VersionedKeys.Proofs.Aes.Chaining
import VersionedKeys.Proofs.Aes.Counter
import VersionedKeys.Proofs.Aes.Inverse
import VersionedKeys.Proofs.Artifact.Abandoned
import VersionedKeys.Proofs.Artifact.Acceptance
import VersionedKeys.Proofs.Artifact.Bounds
import VersionedKeys.Proofs.Artifact.Composition
import VersionedKeys.Proofs.Artifact.Failure
import VersionedKeys.Proofs.Artifact.Interruption
import VersionedKeys.Proofs.Artifact.Layout
import VersionedKeys.Proofs.Artifact.OneBlock
import VersionedKeys.Proofs.Artifact.Pieces
import VersionedKeys.Proofs.Artifact.Seamless
import VersionedKeys.Proofs.Artifact.Transfer
import VersionedKeys.Proofs.Authenticity
import VersionedKeys.Proofs.Bytes
import VersionedKeys.Proofs.Cbor.Bounds
import VersionedKeys.Proofs.Cbor.Headers
import VersionedKeys.Proofs.Cbor.Items
import VersionedKeys.Proofs.Cbor.Overflow
import VersionedKeys.Proofs.Cbor.Reading
import VersionedKeys.Proofs.Cbor.Sequences
import VersionedKeys.Proofs.Cbor.Strings
import VersionedKeys.Proofs.Cbor.Truncation
import VersionedKeys.Proofs.Digest.Schedule
import VersionedKeys.Proofs.Dsa.Der
import VersionedKeys.Proofs.Dsa.Nonce
import VersionedKeys.Proofs.Dsa.Signature
import VersionedKeys.Proofs.Holders
import VersionedKeys.Proofs.Key.Checks
import VersionedKeys.Proofs.Key.Codec
import VersionedKeys.Proofs.Key.Generation
import VersionedKeys.Proofs.Key.Identity
import VersionedKeys.Proofs.Key.Parts
import VersionedKeys.Proofs.Key.Reading
import VersionedKeys.Proofs.Key.Separation
import VersionedKeys.Proofs.KeyHash
import VersionedKeys.Proofs.KeyRing.Inactive
import VersionedKeys.Proofs.KeyRing.Loading
import VersionedKeys.Proofs.KeyRing.Ordering
import VersionedKeys.Proofs.KeySet.Frame
import VersionedKeys.Proofs.KeySet.Invariant
import VersionedKeys.Proofs.KeySet.Leftovers
import VersionedKeys.Proofs.KeySet.Mirrors
import VersionedKeys.Proofs.KeySet.Numbering
import VersionedKeys.Proofs.KeySet.Operations
import VersionedKeys.Proofs.KeySet.Validity
import VersionedKeys.Proofs.KeySource.Layers
import VersionedKeys.Proofs.KeySource.Prompting
import VersionedKeys.Proofs.KeySource.Queries
import VersionedKeys.Proofs.Kinds
import VersionedKeys.Proofs.Metadata.Codec
import VersionedKeys.Proofs.Metadata.Entries
import VersionedKeys.Proofs.Metadata.Forms
import VersionedKeys.Proofs.Metadata.Ignored
import VersionedKeys.Proofs.Metadata.Lenient
import VersionedKeys.Proofs.Metadata.Maps
import VersionedKeys.Proofs.Metadata.Order
import VersionedKeys.Proofs.Metadata.Values
import VersionedKeys.Proofs.Number.Inverse
import VersionedKeys.Proofs.Opening
import VersionedKeys.Proofs.Outcomes
import VersionedKeys.Proofs.Pairs
import VersionedKeys.Proofs.PasswordStore
import VersionedKeys.Proofs.PasswordStore.Codec
import VersionedKeys.Proofs.Recognition
import VersionedKeys.Proofs.Release
import VersionedKeys.Proofs.Rotation
import VersionedKeys.Proofs.RoundTrip
import VersionedKeys.Proofs.Rsa.Inverse
import VersionedKeys.Proofs.Rsa.Oaep
import VersionedKeys.Proofs.Rsa.Signature
import VersionedKeys.Proofs.Session.Acceptance
import VersionedKeys.Proofs.Session.Agreement
import VersionedKeys.Proofs.Session.Overflow
import VersionedKeys.Proofs.Session.Packing
import VersionedKeys.Proofs.Session.Unpacking
import VersionedKeys.Proofs.SignatureSizes
import VersionedKeys.Proofs.Signatures
import VersionedKeys.Proofs.SignedForms
import VersionedKeys.Proofs.Signing
import VersionedKeys.Proofs.Streaming.Bounds
import VersionedKeys.Proofs.Streaming.Ending
import VersionedKeys.Proofs.Streaming.Pieces
import VersionedKeys.Proofs.Streaming.Seamless
import VersionedKeys.Proofs.Streaming.Vector
import VersionedKeys.Proofs.Streaming.Whole
import VersionedKeys.Proofs.Tagged
import VersionedKeys.Proofs.Text.Utf8
import VersionedKeys.Proofs.Verdict
import VersionedKeys.Proofs.Verification
import VersionedKeys.Random
import VersionedKeys.Rsa.Generation
import VersionedKeys.Rsa.Key
import VersionedKeys.Rsa.Oaep
import VersionedKeys.Rsa.Signature
import VersionedKeys.Session
import VersionedKeys.Signer
import VersionedKeys.Streaming.Cbc
import VersionedKeys.Streaming.Cipher
import VersionedKeys.Streaming.Gcm
import VersionedKeys.Streaming.Hmac
import VersionedKeys.Streaming.Oaep
import VersionedKeys.Streaming.Signature
import VersionedKeys.Streaming.Tag
import VersionedKeys.Tagged
import VersionedKeys.Text.Decimal
import VersionedKeys.Text.Quoted
import VersionedKeys.Text.Unprintable
import VersionedKeys.Text.Utf8
