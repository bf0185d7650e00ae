import VersionedKeys.Proofs.Artifact.Layout
import VersionedKeys.Proofs.KeyRing.Loading

/-!
# Round trips

A crypter opens what it makes, whatever other keys its ring holds: the primary
key is the first candidate for its hash, and it opens its own artifacts.
-/

namespace VersionedKeys

namespace Artifact

theorem decrypt_of_first {candidates : KeyHash → List Key} {key : Key} {rest : List Key}
    {body message : Bytes} (first : candidates key.hash = key :: rest)
    (opened : decryptWith key (header key.hash) body = .ok message) :
    decrypt candidates (header key.hash ++ body) = .ok message := by
  rw [decrypt, parse_eq_ok_iff.mpr rfl, Outcome.ok_bind]
  simp only [first, firstOpened, opened]

end Artifact

namespace Crypter

/-- The same crypter, with or without inactive keys among the candidates. -/
def allowing (crypter : Crypter) (allowInactive : Bool) : Crypter :=
  ⟨{ crypter.ring with allowInactive }⟩

theorem loads_of_load {source : KeySource} {allowInactive : Bool} {crypter : Crypter}
    (loaded : (load source allowInactive).1 = .ok crypter) :
    source.Loads [.decryptAndEncrypt] crypter.ring := by
  obtain ⟨ring, found, rfl⟩ := Outcome.map_eq_ok.mp loaded
  exact (KeySource.loads_of_loadRing found).allowing allowInactive

theorem allowInactive_of_load {source : KeySource} {allowInactive : Bool} {crypter : Crypter}
    (loaded : (load source allowInactive).1 = .ok crypter) :
    crypter.ring.allowInactive = allowInactive := by
  obtain ⟨ring, -, rfl⟩ := Outcome.map_eq_ok.mp loaded
  rfl

theorem supports_of_load {source : KeySource} {allowInactive : Bool} {crypter : Crypter}
    (loaded : (load source allowInactive).1 = .ok crypter) {entry : KeyVersion × Key}
    (membership : entry ∈ crypter.ring.keys) :
    entry.2.keyType.supports .decryptAndEncrypt = true := by
  have loads := loads_of_load loaded
  have purpose : source.metadata.purpose = .decryptAndEncrypt := by simpa using loads.purpose
  rw [← purpose]
  exact loads.supports membership

end Crypter

namespace Sample

def key : Key :=
  ⟨.aes ⟨⟨List.replicate 16 1, .inl rfl⟩, List.replicate 32 2, rfl⟩, by decide⟩

/-- A key that authenticates, and neither encrypts nor decrypts. -/
def macKey : Key := ⟨.hmacSha1 (List.replicate 32 3), by decide⟩

/-- A key set with the same key twice, of which the newer version is primary. -/
def keySet : KeySet :=
  ⟨{ name := "sample", purpose := .decryptAndEncrypt, keyType := .aes,
     versions := [⟨1, .active, false⟩, ⟨2, .primary, false⟩] },
    [(1, key.toBytes), (2, key.toBytes)]⟩

def crypter : Crypter :=
  ⟨{ name := "sample", purpose := .decryptAndEncrypt,
     keys := [(⟨2, .primary, false⟩, key), (⟨1, .active, false⟩, key)] }⟩

theorem sortedVersions :
    keySet.metadata.sortedVersions = [⟨2, .primary, false⟩, ⟨1, .active, false⟩] :=
  Metadata.sortedVersions_of_pair rfl (by decide)

theorem load_crypter : (Crypter.load (.stored keySet) false).1 = .ok crypter := by
  simp only [Crypter.load, KeySource.loadRing, KeySource.metadata, sortedVersions]
  rfl

theorem isSymmetric : key.IsSymmetric := .inl rfl

theorem reversible : key.Reversible := isSymmetric.reversible

theorem exists_opened (message : Bytes) :
    ∃ body, Artifact.decryptWith key (Artifact.header key.hash) body = .ok message := by
  obtain ⟨body, made⟩ := Artifact.exists_layout isSymmetric (List.replicate 16 0) message
  exact ⟨body, (Artifact.decryptWith_eq_ok_iff isSymmetric).mpr ⟨_, rfl, made⟩⟩

end Sample

end VersionedKeys
