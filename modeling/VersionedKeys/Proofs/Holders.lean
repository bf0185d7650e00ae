import VersionedKeys.Proofs.Artifact.Composition
import VersionedKeys.Proofs.Opening
import VersionedKeys.Proofs.Pairs

/-!
# What opening and using key sets raises

However a key set has come about, opening it returns no errors but those of key sets, and fails
only if it is for another purpose, is encrypted or holds data that is not a key.  What has been
opened is fit for all that is asked of it: a missing primary key is reported exactly if there is
none, and apart from that each use has one kind of error (`KeySet.Reachable.raises_documented`).
-/

namespace VersionedKeys

open Outcome

namespace KeySet

/-- A key set lists a primary version. -/
def HasPrimary (keySet : KeySet) : Prop :=
  ∃ version ∈ keySet.metadata.versions, version.status = .primary

end KeySet

namespace KeySource

section Stored

variable {keySet : KeySet}

namespace Loads

variable {purposes : List KeyPurpose} {ring : KeyRing}
  (loads : (stored keySet).Loads purposes ring)

include loads

theorem hasPrimary_iff :
    keySet.HasPrimary ↔ ∃ entry ∈ ring.keys, entry.1.status = .primary := by
  have versions : ring.keys.map (·.1) = keySet.metadata.sortedVersions := loads.versions
  simp only [KeySet.HasPrimary, ← Metadata.mem_sortedVersions, ← versions, List.mem_map,
    exists_exists_and_eq_and]

/-- The primary key is one of the ring, unless the set lists no primary version. -/
theorem primary_eq_or :
    ((∃ entry ∈ ring.keys, ring.primary = .ok entry.2) ∧ keySet.HasPrimary) ∨
      ring.primary = .error .missingPrimary ∧ ¬ keySet.HasPrimary := by
  rw [loads.hasPrimary_iff, KeyRing.primary]
  cases found : ring.keys.find? fun entry => entry.1.status == .primary with
  | none =>
      refine .inr ⟨rfl, ?_⟩
      rintro ⟨entry, membership, status⟩
      exact absurd status (by simpa using List.find?_eq_none.mp found entry membership)
  | some entry =>
      have membership := List.mem_of_find?_eq_some found
      have status : entry.1.status = .primary := by simpa using List.find?_some found
      exact .inl ⟨⟨entry, membership, rfl⟩, entry, membership, status⟩

end Loads

end Stored

end KeySource

/-- An operation with the primary key has a result or ends in some ways if there is one, and
reports its absence exactly if there is none. -/
structure UsesPrimary (keySet : KeySet) (endings : List Error.Ending)
    (outcome : Except Error Bytes) : Prop where
  endings : RaisesOnly (.returned .missingPrimary :: endings) outcome
  missing_iff : outcome = .error .missingPrimary ↔ ¬ keySet.HasPrimary

theorem UsesPrimary.of_loads {keySet : KeySet} {purposes : List KeyPurpose} {ring : KeyRing}
    (loads : (KeySource.stored keySet).Loads purposes ring) {endings : List Error.Ending}
    (other : .returned .missingPrimary ∉ endings) {outcome : Except Error Bytes}
    (missing : ring.primary = .error .missingPrimary → outcome = .error .missingPrimary)
    (raises : ∀ entry ∈ ring.keys, ring.primary = .ok entry.2 → RaisesOnly endings outcome) :
    UsesPrimary keySet endings outcome := by
  rcases loads.primary_eq_or with ⟨⟨entry, membership, primary⟩, present⟩ | ⟨primary, absent⟩
  · have raised := raises entry membership primary
    refine ⟨raised.mono (List.subset_cons_self _ _), ?_⟩
    exact iff_of_false (raised.ne other) (not_not.mpr present)
  · rw [missing primary]
    exact ⟨raisesOnly_error.mpr List.mem_cons_self, iff_of_true rfl absent⟩

/-- What a holder raises when it encrypts with the primary key of a key set. -/
structure Encrypts.Documented {Holder : Type} [Encrypts Holder] (holder : Holder)
    (keySet : KeySet) : Prop where
  encrypt : ∀ message random,
    UsesPrimary keySet [.returned .malformed] (encrypt holder message random).1

/-- What a holder raises when it decrypts. -/
structure Decrypts.Documented {Holder : Type} [Decrypts Holder] (holder : Holder) : Prop where
  decrypt : ∀ artifact, RaisesOnly [.returned .invalidCryptoData] (decrypt holder artifact)

/-- What a signer raises when it signs with the primary key of a key set. -/
structure Signer.Documented (signer : Signer) (keySet : KeySet) : Prop where
  sign : ∀ data, UsesPrimary keySet keySet.metadata.keyType.signingEndings (signer.sign data)
  attachedSign : ∀ message hidden, message.length < 2 ^ 32 → hidden.length < 2 ^ 32 →
    UsesPrimary keySet keySet.metadata.keyType.signingEndings
      (signer.attachedSign message hidden)
  timeoutSign : ∀ data expiry,
    UsesPrimary keySet keySet.metadata.keyType.signingEndings (signer.timeoutSign data expiry)

/-- What a holder raises when it verifies. -/
structure Verifies.Documented {Holder : Type} [Verifies Holder] (holder : Holder) : Prop where
  verify : ∀ data signature,
    RaisesOnly [.returned .invalidCryptoData] (verify holder data signature)
  attachedVerify : ∀ blob hidden, hidden.length < 2 ^ 32 →
    RaisesOnly [.returned .invalidCryptoData] (attachedVerify holder blob hidden)
  timeoutVerify : ∀ data signature clock,
    RaisesOnly [.returned .invalidCryptoData] (timeoutVerify holder data signature clock).1

section Uses

/-- A key that can encrypt refuses no more than messages that are too long. -/
theorem Artifact.raisesOnly_encrypt {key : Key}
    (encrypts : key.keyType.supports .decryptAndEncrypt = true ∨
      key.keyType.supports .encrypt = true) (message : Bytes) (random : Random) :
    RaisesOnly [.returned .malformed] (encrypt key message random).1 := by
  cases made : layout? key (random.draw key.drawSize).1 message with
  | some artifact =>
      rw [encrypt_eq_layout made]
      exact raisesOnly_ok _
  | none =>
      have long : key.keyType = .rsaPrivate ∨ key.keyType = .rsaPublic := by
        by_contra other
        obtain ⟨body, laid⟩ := exists_layout_of_encrypts encrypts
          (fun asymmetric => absurd asymmetric other) (random.draw key.drawSize).1
        cases made.symm.trans laid
      obtain ⟨rsa, asymmetric⟩ := exists_encryptsBy long
      rw [encrypt_of_long asymmetric (long_of_unmade asymmetric made)]
      exact raisesOnly_error.mpr List.mem_cons_self

variable {keySet : KeySet} {ring : KeyRing}

theorem Encrypts.documented_of_loads {Holder : Type} [Encrypts Holder] {holder : Holder}
    {purposes : List KeyPurpose} (loads : (KeySource.stored keySet).Loads purposes ring)
    (suited : ∀ purpose ∈ purposes, purpose = .decryptAndEncrypt ∨ purpose = .encrypt)
    (primary : Encrypts.encryptionKey holder = ring.primary) :
    Encrypts.Documented holder keySet where
  encrypt message random := by
    refine .of_loads loads (by decide) ?_ ?_
    · intro missing
      rw [Encrypts.encrypt, primary, missing]
    · intro entry membership found
      have purpose := suited _ (List.contains_iff_mem.mp loads.purpose)
      have supported := loads.supports membership
      rw [Encrypts.encrypt, primary, found]
      refine Artifact.raisesOnly_encrypt ?_ message random
      rcases purpose with purpose | purpose
      · exact .inl (purpose ▸ supported)
      · exact .inr (purpose ▸ supported)

theorem Decrypts.documented {Holder : Type} [Decrypts Holder] (holder : Holder) :
    Decrypts.Documented holder where
  decrypt artifact :=
    raisesOnly_of_eq_or (Artifact.decrypt_eq_ok_or (Decrypts.decryptionKeys holder) artifact)

theorem KeyRing.usesPrimary_sign
    (loads : (KeySource.stored keySet).Loads [.signAndVerify] ring) (signed sent : Bytes) :
    UsesPrimary keySet keySet.metadata.keyType.signingEndings (ring.sign signed sent) := by
  have purpose := List.mem_singleton.mp (List.contains_iff_mem.mp loads.purpose)
  have other : .returned .missingPrimary ∉ keySet.metadata.keyType.signingEndings := by
    cases keySet.metadata.keyType <;> decide
  refine .of_loads loads other ?_ ?_
  · intro missing
    rw [KeyRing.sign, missing, error_bind]
  · intro entry membership found
    have supported := purpose ▸ loads.supports membership
    have raises := (KeyRing.signingEnds found supported signed sent).endings
    rwa [loads.keyTypes entry membership] at raises

theorem Signer.documented_of_loads {signer : Signer}
    (loads : (KeySource.stored keySet).Loads [.signAndVerify] signer.ring) :
    signer.Documented keySet where
  sign data := KeyRing.usesPrimary_sign loads _ _
  attachedSign message hidden short hiddenShort := by
    rw [Signer.attachedSign, Signed.attached_eq hiddenShort, Signed.lengthPrefix_of_short short]
    exact KeyRing.usesPrimary_sign loads _ _
  timeoutSign data expiry := KeyRing.usesPrimary_sign loads _ _

theorem Verifies.documented_of_verifying {Holder : Type} [Verifies Holder] {holder : Holder}
    (verifying : (Verifies.ring holder).Verifying) : Verifies.Documented holder where
  verify data signature :=
    raisesOnly_of_eq_or
      ((Verifies.verify_eq_ok_or verifying data signature).imp_left fun accepted => ⟨(), accepted⟩)
  attachedVerify blob _ short :=
    raisesOnly_of_eq_or (Verifies.attachedVerify_eq_ok_or verifying blob short)
  timeoutVerify data signature clock :=
    raisesOnly_of_eq_or
      ((Verifies.timeoutVerify_eq_ok_or verifying data signature clock).imp_left fun accepted =>
        ⟨(), accepted⟩)

end Uses

/-- Every holder is opened from a key set that serves one of its purposes, and from others
the error is one of key sets.  What has been opened raises only errors that its uses are
documented to raise: that there is no primary key, exactly if there is none, and that a message
is too long for its key or that data is not what it is taken for. -/
theorem KeySet.Reachable.raises_documented {keySet : KeySet} (reachable : Reachable keySet) :
    (keySet.Opens [.encrypt, .decryptAndEncrypt] (Encrypter.load (.stored keySet)).1 ∧
      ∀ encrypter, (Encrypter.load (.stored keySet)).1 = .ok encrypter →
        Encrypts.Documented encrypter keySet) ∧
    (∀ allowInactive,
      keySet.Opens [.decryptAndEncrypt] (Crypter.load (.stored keySet) allowInactive).1 ∧
      ∀ crypter, (Crypter.load (.stored keySet) allowInactive).1 = .ok crypter →
        Encrypts.Documented crypter keySet ∧ Decrypts.Documented crypter) ∧
    (keySet.Opens [.signAndVerify] (Signer.load (.stored keySet)).1 ∧
      ∀ signer, (Signer.load (.stored keySet)).1 = .ok signer →
        signer.Documented keySet ∧ Verifies.Documented signer) ∧
    ∀ allowInactive,
      keySet.Opens [.signAndVerify, .verify] (Verifier.load (.stored keySet) allowInactive).1 ∧
      ∀ verifier, (Verifier.load (.stored keySet) allowInactive).1 = .ok verifier →
        Verifies.Documented verifier := by
  have opens := KeySource.opens_loadRing reachable.sound.valid
  refine ⟨⟨(opens _).map _, ?_⟩, fun allowInactive => ⟨(opens _).map _, ?_⟩,
    ⟨(opens _).map _, ?_⟩, fun allowInactive => ⟨(opens _).map _, ?_⟩⟩
  · intro encrypter loaded
    obtain ⟨ring, found, rfl⟩ := map_eq_ok.mp loaded
    exact Encrypts.documented_of_loads (KeySource.loads_of_loadRing found) (by simp) rfl
  · intro crypter loaded
    exact ⟨Encrypts.documented_of_loads (Crypter.loads_of_load loaded) (by simp) rfl,
      Decrypts.documented crypter⟩
  · intro signer loaded
    exact ⟨Signer.documented_of_loads (Signer.loads_of_load loaded),
      Verifies.documented_of_verifying (Signer.verifying_of_load loaded)⟩
  · intro verifier loaded
    exact Verifies.documented_of_verifying (Verifier.verifying_of_load loaded)

namespace Sample

theorem reachable_keySet : KeySet.Reachable keySet := by
  have restored : KeySet.ofParts keySet.metadata [(2, key.toBytes), (1, key.toBytes)] =
      .ok keySet := rfl
  exact .made (.restored restored)

/-- A key set whose only key is announced to have all the bytes that 64 bits can count. -/
def excessiveKeySet : KeySet :=
  ⟨{ name := "sample", purpose := .signAndVerify, keyType := .hmacSha1,
     versions := [⟨1, .primary, false⟩] },
    [(1, [0x81, 0x5B, 255, 255, 255, 255, 255, 255, 255, 255])]⟩

theorem reachable_excessiveKeySet : KeySet.Reachable excessiveKeySet := by
  have restored : KeySet.ofParts excessiveKeySet.metadata excessiveKeySet.data =
      .ok excessiveKeySet := rfl
  exact .made (.restored restored)

theorem overflows_excessiveKeySet : excessiveKeySet.Overflows [.signAndVerify] where
  purpose := List.mem_cons_self
  plain := rfl
  exceeds := by
    have stopped : Cbor.decodeByteStrings "HMAC key"
        [0x81, 0x5B, 255, 255, 255, 255, 255, 255, 255, 255] 1 =
          .error (.stopped .capacityOverflow) := rfl
    exact ⟨[], ⟨1, .primary, false⟩, [], List.mergeSort_singleton _, by simp, _, rfl,
      (Cbor.decodeByteStrings_eq_stopped_iff.mp stopped).2⟩

end Sample

/-- Opening a key set in which a key announces more than a buffer can hold neither succeeds nor
reports an error of key sets: it does not come back. -/
theorem KeySet.opening_of_excessive :
    Reachable Sample.excessiveKeySet ∧
      (Signer.load (.stored Sample.excessiveKeySet)).1 = .error (.stopped .capacityOverflow) ∧
      ¬ RaisesOnly [.returned .invalidKeySet] (Signer.load (.stored Sample.excessiveKeySet)).1 := by
  have opens := KeySource.opens_loadRing Sample.reachable_excessiveKeySet.sound.valid
    [.signAndVerify]
  have stopped : (Signer.load (.stored Sample.excessiveKeySet)).1 =
      .error (.stopped .capacityOverflow) :=
    (opens.map Signer.mk).stops_iff.mpr Sample.overflows_excessiveKeySet
  refine ⟨Sample.reachable_excessiveKeySet, stopped, ?_⟩
  simp [stopped, Error.ending]

/-- A key set for encryption has a primary key for it, and none to sign with.  One for signing in
which a key announces too much is not opened, and not refused either. -/
theorem KeySet.Reachable.raises_documented_sample :
    (Reachable Sample.keySet ∧
      (∀ message random,
        RaisesOnly [.returned .missingPrimary, .returned .malformed]
          (Encrypts.encrypt Sample.crypter message random).1 ∧
        (Encrypts.encrypt Sample.crypter message random).1 ≠ .error .missingPrimary) ∧
      ∀ signer, (Signer.load (.stored Sample.keySet)).1 ≠ .ok signer) ∧
    Reachable Sample.excessiveKeySet ∧
      (Signer.load (.stored Sample.excessiveKeySet)).1 = .error (.stopped .capacityOverflow) := by
  obtain ⟨-, crypters, ⟨signers, -⟩, -⟩ := Sample.reachable_keySet.raises_documented
  obtain ⟨encrypts, -⟩ := (crypters false).2 Sample.crypter Sample.load_crypter
  obtain ⟨-, -, ⟨excessive, -⟩, -⟩ := Sample.reachable_excessiveKeySet.raises_documented
  refine ⟨⟨Sample.reachable_keySet, ?_, ?_⟩, Sample.reachable_excessiveKeySet,
    excessive.stops_iff.mpr Sample.overflows_excessiveKeySet⟩
  · intro message random
    have used := encrypts.encrypt message random
    refine ⟨used.endings, fun missing => used.missing_iff.mp missing ?_⟩
    exact ⟨⟨2, .primary, false⟩, List.mem_cons_of_mem _ List.mem_cons_self, rfl⟩
  · intro signer loaded
    have serves := signers.ok_iff.mp ⟨signer, loaded⟩
    exact absurd serves.purpose (by decide)

end VersionedKeys
