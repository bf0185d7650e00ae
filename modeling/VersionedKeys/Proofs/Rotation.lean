import VersionedKeys.Proofs.Authenticity
import VersionedKeys.Proofs.KeySet.Operations
import VersionedKeys.Proofs.Signing

/-!
# Rotation

What a key made outlives the operations on its key set.  As long as the version
is there its status decides whether the key is tried, and the key is what it was
(`KeySet.rotation`).
-/

namespace VersionedKeys

namespace KeySource.Loads

variable {keySet : KeySet} {purposes : List KeyPurpose} {ring : KeyRing}
  (loads : (KeySource.stored keySet).Loads purposes ring)

include loads

theorem mem_versions {version : KeyVersion} :
    version ∈ keySet.metadata.versions ↔ ∃ key, (version, key) ∈ ring.keys := by
  rw [← Metadata.mem_sortedVersions]
  change version ∈ (KeySource.stored keySet).metadata.sortedVersions ↔ _
  rw [← loads.versions, List.mem_map]
  constructor
  · rintro ⟨⟨_, key⟩, membership, rfl⟩
    exact ⟨key, membership⟩
  · rintro ⟨key, membership⟩
    exact ⟨_, membership, rfl⟩

theorem holds_of_mem {version : KeyVersion} {key : Key} (membership : (version, key) ∈ ring.keys) :
    keySet.Holds version.number key :=
  ⟨Metadata.mem_numbers.mpr ⟨version, loads.mem_versions.mpr ⟨key, membership⟩, rfl⟩,
    loads.keys keySet rfl _ membership⟩

theorem mem_keys_of_holds {version : KeyVersion} {key : Key}
    (listed : version ∈ keySet.metadata.versions) (holds : keySet.Holds version.number key) :
    (version, key) ∈ ring.keys := by
  obtain ⟨other, membership⟩ := loads.mem_versions.mp listed
  rwa [holds.key_eq (loads.holds_of_mem membership)]

theorem primary_eq {version : KeyVersion} {key : Key}
    (primary : keySet.metadata.primary? = some version)
    (holds : keySet.Holds version.number key) : ring.primary = .ok key := by
  have listed := List.mem_of_find?_eq_some primary
  have status : version.status = .primary := by simpa using List.find?_some primary
  have membership := loads.mem_keys_of_holds listed holds
  rw [KeyRing.primary]
  split
  · next other otherKey found =>
      have otherMembership := List.mem_of_find?_eq_some found
      have otherStatus : other.status = .primary := by simpa using List.find?_some found
      obtain rfl := Metadata.eq_of_primary loads.valid listed
        (loads.mem_versions.mpr ⟨_, otherMembership⟩) status otherStatus
      rw [holds.key_eq (loads.holds_of_mem otherMembership)]
  · next missing =>
      rw [List.find?_eq_none] at missing
      simpa [status] using missing _ membership

theorem candidates_eq_nil {hash : KeyHash}
    (unheld : ∀ number key, keySet.Holds number key → key.hash ≠ hash) :
    ring.candidates hash = [] := by
  apply List.eq_nil_iff_forall_not_mem.mpr
  intro key candidate
  obtain ⟨same, version, membership, -⟩ := KeyRing.mem_candidates.mp candidate
  exact unheld _ _ (loads.holds_of_mem membership) same

/-- The key of a version whose hash no other version has is the first candidate
for it, if the version is usable, and else there is none. -/
theorem candidates_of_alone {version : KeyVersion} {key : Key}
    (listed : version ∈ keySet.metadata.versions) (holds : keySet.Holds version.number key)
    (alone : ∀ number other, keySet.Holds number other → other.hash = key.hash →
      number = version.number) :
    (ring.isUsable version = true → ∃ rest, ring.candidates key.hash = key :: rest) ∧
      (ring.isUsable version = false → ring.candidates key.hash = []) := by
  -- All candidates are the same key, since they are all read from the same version.
  have only : ∀ candidate ∈ ring.candidates key.hash,
      candidate = key ∧ ring.isUsable version = true := by
    intro candidate membership
    obtain ⟨same, other, entry, usable⟩ := KeyRing.mem_candidates.mp membership
    have number := alone _ _ (loads.holds_of_mem entry) same
    obtain rfl := Metadata.eq_of_number loads.valid (loads.mem_versions.mpr ⟨_, entry⟩) listed
      number
    exact ⟨(loads.holds_of_mem entry).key_eq holds, usable⟩
  constructor
  · intro usable
    have membership := KeyRing.mem_candidates.mpr
      ⟨rfl, version, loads.mem_keys_of_holds listed holds, usable⟩
    cases candidates : ring.candidates key.hash with
    | nil => simp [candidates] at membership
    | cons first rest =>
        obtain ⟨rfl, -⟩ := only first (candidates ▸ List.mem_cons_self)
        exact ⟨rest, rfl⟩
  · intro unusable
    apply List.eq_nil_iff_forall_not_mem.mpr
    intro candidate membership
    rw [(only candidate membership).2] at unusable
    cases unusable

end KeySource.Loads

namespace KeySet

/-- How opening or verifying ends, after a run of operations, for what the key
of a version made before. -/
structure FollowsStatus {Result : Type} (start : KeySet) (number : UInt32) (key : Key)
    (operations : List Operation) (allowInactive : Bool) (outcome : Except Error Result)
    (expected : Result) : Prop where
  /-- If the version was kept, and no other one has a key with the hash, its
  status decides. -/
  kept : start.Keeps number operations →
    (∀ other otherKey, (start.run operations).Holds other otherKey → otherKey.hash = key.hash →
      other = number) →
    ∃ version, (start.run operations).metadata.version? number = some version ∧
      outcome =
        if version.status = .inactive ∧ allowInactive = false then .error .invalidCryptoData
        else .ok expected
  /-- If there is no key with the hash, it is as if the key had never been. -/
  forgotten : (∀ other otherKey, (start.run operations).Holds other otherKey →
      otherKey.hash ≠ key.hash) →
    outcome = .error .invalidCryptoData

/-- What ends well exactly if the key comes first among the candidates follows
the status of its version. -/
theorem followsStatus {Result : Type} {start : KeySet} {number : UInt32} {key : Key}
    (holds : start.Holds number key) {operations : List Operation} {purposes : List KeyPurpose}
    {ring : KeyRing} (loads : (KeySource.stored (start.run operations)).Loads purposes ring)
    {outcome : List Key → Except Error Result} {expected : Result}
    (refused : outcome [] = .error .invalidCryptoData)
    (accepted : ∀ rest, outcome (key :: rest) = .ok expected) :
    FollowsStatus start number key operations ring.allowInactive
      (outcome (ring.candidates key.hash)) expected := by
  constructor
  · intro keeps alone
    have later := holds.run keeps
    obtain ⟨version, listed, rfl⟩ := Metadata.mem_numbers.mp later.1
    refine ⟨version, Metadata.version?_eq_some_of_mem loads.valid listed, ?_⟩
    obtain ⟨tried, skipped⟩ := loads.candidates_of_alone listed later alone
    by_cases unusable : version.status = .inactive ∧ ring.allowInactive = false
    · rw [if_pos unusable, skipped (by simp [KeyRing.isUsable, unusable]), refused]
    · have usable : ring.isUsable version = true := by
        simpa [KeyRing.isUsable, imp_iff_or_not, or_comm] using unusable
      obtain ⟨rest, first⟩ := tried usable
      rw [if_neg unusable, first, accepted rest]
  · intro unheld
    rw [loads.candidates_eq_nil unheld, refused]

/-- Artifacts and signatures outlive any run of operations, whether or not these
succeed.  What the primary key makes begins with its hash, and opens in a
crypter or verifies in a verifier that is loaded after the run exactly if the
status of its version still allows that. -/
theorem rotation {start : KeySet} {version : KeyVersion} {key : Key}
    (primary : start.metadata.primary? = some version)
    (holds : start.Holds version.number key) :
    (∀ allowInactive crypter, (Crypter.load (.stored start) allowInactive).1 = .ok crypter →
      key.IsSymmetric → ∀ message random, ∃ artifact,
        (Encrypts.encrypt crypter message random).1 = .ok artifact ∧
        artifact.take Artifact.headerSize = 0 :: key.hash.toBytes ∧
        ∀ operations allowed later,
          (Crypter.load (.stored (start.run operations)) allowed).1 = .ok later →
          FollowsStatus start version.number key operations allowed
            (Decrypts.decrypt later artifact) message) ∧
    ∀ signer, (Signer.load (.stored start)).1 = .ok signer →
      key.keyType = .hmacSha1 → ∀ data, ∃ signature,
        signer.sign data = .ok signature ∧
        signature.take Artifact.headerSize = 0 :: key.hash.toBytes ∧
        ∀ operations allowed later,
          (Verifier.load (.stored (start.run operations)) allowed).1 = .ok later →
          FollowsStatus start version.number key operations allowed
            (Verifies.verify later data signature) () := by
  constructor
  · intro allowInactive crypter loaded symmetric message random
    have primaryKey := (Crypter.loads_of_load loaded).primary_eq primary holds
    obtain ⟨body, made⟩ := Artifact.exists_layout symmetric (random.draw key.drawSize).1 message
    have opened := (Artifact.decryptWith_eq_ok_iff symmetric).mpr ⟨_, Random.length_draw _ _, made⟩
    refine ⟨Artifact.header key.hash ++ body, ?_, rfl, ?_⟩
    · simp only [Encrypts.encrypt, Encrypts.encryptionKey, primaryKey,
        Artifact.encrypt_eq_layout made]
    · intro operations allowed later reloaded
      rw [Crypter.decrypt_eq_firstOpened (Artifact.parse_eq_ok_iff.mpr rfl),
        ← Crypter.allowInactive_of_load reloaded]
      refine followsStatus holds (Crypter.loads_of_load reloaded) rfl ?_
      intro rest
      rw [Artifact.firstOpened, opened]
  · intro signer loaded authenticates data
    have primaryKey := (Signer.loads_of_load loaded).primary_eq primary holds
    obtain ⟨mac, material⟩ : ∃ mac, key.material = .hmacSha1 mac := by
      cases material : key.material with
      | hmacSha1 mac => exact ⟨mac, rfl⟩
      | _ => simp [Key.keyType, material, Material.keyType] at authenticates
    refine ⟨_, KeyRing.sign_hmac material primaryKey _ _, rfl, ?_⟩
    intro operations allowed later reloaded
    rw [List.append_nil, Verifies.verify_eq_checkWith (Artifact.parse_eq_ok_iff.mpr rfl),
      ← Verifier.allowInactive_of_load reloaded]
    refine followsStatus holds (Verifier.loads_of_load reloaded) rfl ?_
    exact KeyRing.checkWith_of_first (KeyRing.accepts_hmac_self material _)

end KeySet

namespace Sample

def single (purpose : KeyPurpose) (key : Key) (status : KeyStatus) : KeySet :=
  ⟨{ name := "sample", purpose, keyType := key.keyType, versions := [⟨1, status, false⟩] },
    [(1, key.toBytes)]⟩

def singleRing (purpose : KeyPurpose) (key : Key) (status : KeyStatus) : KeyRing :=
  { name := "sample", purpose, keys := [(⟨1, status, false⟩, key)] }

theorem loadRing_single {purpose : KeyPurpose} {key : Key}
    (suited : key.keyType.supports purpose = true)
    (read : Key.read key.keyType key.toBytes = .ok key) {purposes : List KeyPurpose}
    (allowed : purposes.contains purpose = true) (status : KeyStatus) :
    ((KeySource.stored (single purpose key status)).loadRing purposes).1 =
      .ok (singleRing purpose key status) := by
  have valid : (single purpose key status).metadata.validate = .ok () := by
    rw [Metadata.validate_eq_ok_iff]
    exact ⟨suited, List.countP_le_length, by simp [single, Metadata.numbers],
      List.nodup_singleton 1⟩
  have checked : KeySource.checkUse (single purpose key status).metadata purposes = .ok () :=
    KeySource.checkUse_eq_ok_iff.mpr ⟨valid, allowed, rfl⟩
  have sorted : (single purpose key status).metadata.sortedVersions = [⟨1, status, false⟩] :=
    List.mergeSort_singleton _
  have keys : KeySource.readKeys key.keyType [⟨1, status, false⟩]
      (.stored (single purpose key status)) =
        (.ok [(⟨1, status, false⟩, key)], .stored (single purpose key status)) := by
    have found : (single purpose key status).keyData 1 = .ok key.toBytes := rfl
    simp [KeySource.readKeys, KeySource.keyData, found, read]
  have keyType : (single purpose key status).metadata.keyType = key.keyType := rfl
  simp only [KeySource.loadRing, KeySource.metadata, checked, sorted, keyType, keys]
  rfl

theorem load_crypter_single (status : KeyStatus) :
    (Crypter.load (.stored (single .decryptAndEncrypt key status)) false).1 =
      .ok ⟨singleRing .decryptAndEncrypt key status⟩ := by
  rw [Crypter.load, Prod.map_fst, loadRing_single rfl rfl rfl]
  rfl

theorem load_signer_single (status : KeyStatus) :
    (Signer.load (.stored (single .signAndVerify macKey status))).1 =
      .ok ⟨singleRing .signAndVerify macKey status⟩ := by
  rw [Signer.load, Prod.map_fst, loadRing_single rfl rfl rfl]
  rfl

theorem load_verifier_single (status : KeyStatus) :
    (Verifier.load (.stored (single .signAndVerify macKey status)) true).1 =
      .ok ⟨{ singleRing .signAndVerify macKey status with allowInactive := true }⟩ := by
  rw [Verifier.load, Prod.map_fst, loadRing_single rfl rfl rfl]
  rfl

theorem follows_single {Result : Type} {purpose : KeyPurpose} {key : Key} {allowInactive : Bool}
    {outcome : Except Error Result} {expected : Result}
    (follows : KeySet.FollowsStatus (single purpose key .primary) 1 key [.setStatus 1 .inactive]
      allowInactive outcome expected) :
    outcome = if allowInactive = false then .error .invalidCryptoData else .ok expected := by
  have keeps : (single purpose key .primary).Keeps 1 [.setStatus 1 .inactive] := by
    intro before after equality
    cases before with
    | nil => cases equality
    | cons operation before => simp at equality
  obtain ⟨version, found, result⟩ := follows.kept keeps fun other otherKey held _ => by
    simpa [Metadata.numbers, single, KeySet.run, KeySet.Operation.apply, KeySet.setStatus,
      Metadata.version?, KeySet.makeRoom] using held.1
  have inactive : version.status = .inactive := by
    cases found
    rfl
  simpa [inactive] using result

end Sample

namespace KeySet

/-- An artifact and a signature whose version has become inactive. -/
theorem rotation_sample :
    (∃ artifact,
      (Encrypts.encrypt (Crypter.mk (Sample.singleRing .decryptAndEncrypt Sample.key .primary))
        [104, 105] {}).1 = .ok artifact ∧
      Decrypts.decrypt (Crypter.mk (Sample.singleRing .decryptAndEncrypt Sample.key .inactive))
        artifact = .error .invalidCryptoData) ∧
    ∃ signature,
      (Signer.mk (Sample.singleRing .signAndVerify Sample.macKey .primary)).sign [104, 105] =
        .ok signature ∧
      Verifies.verify
        (Verifier.mk { Sample.singleRing .signAndVerify Sample.macKey .inactive with
          allowInactive := true }) [104, 105] signature = .ok () := by
  constructor
  · have holds : (Sample.single .decryptAndEncrypt Sample.key .primary).Holds 1 Sample.key :=
      ⟨by decide, _, rfl, rfl⟩
    have primary : (Sample.single .decryptAndEncrypt Sample.key .primary).metadata.primary? =
        some ⟨1, .primary, false⟩ := rfl
    obtain ⟨artifact, made, -, follows⟩ :=
      (rotation primary holds).1 false _ (Sample.load_crypter_single .primary) (.inl rfl)
        [104, 105] {}
    have outcome := follows [.setStatus 1 .inactive] false _ (Sample.load_crypter_single .inactive)
    exact ⟨artifact, made, Sample.follows_single outcome⟩
  · have holds : (Sample.single .signAndVerify Sample.macKey .primary).Holds 1 Sample.macKey :=
      ⟨by decide, _, rfl, rfl⟩
    have primary : (Sample.single .signAndVerify Sample.macKey .primary).metadata.primary? =
        some ⟨1, .primary, false⟩ := rfl
    obtain ⟨signature, made, -, follows⟩ :=
      (rotation primary holds).2 _ (Sample.load_signer_single .primary) rfl [104, 105]
    have outcome := follows [.setStatus 1 .inactive] true _ (Sample.load_verifier_single .inactive)
    exact ⟨signature, made, Sample.follows_single outcome⟩

end KeySet

end VersionedKeys
