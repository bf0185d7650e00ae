import VersionedKeys.Proofs.Pairs
import VersionedKeys.Proofs.Session.Overflow

/-!
# Accepting a session

Material is accepted exactly if its signature verifies, where one is asked for, and what
the crypter decrypts is unpacked to a key that a session may have.  Everything else is
refused with one error, except a packed key that announces more than a buffer can hold: then
accepting it does not come back (`Session.accept_fails_closed`).
-/

namespace VersionedKeys

open Outcome

namespace Session

theorem checkMaterial_eq_ok_iff {verifier? : Option Verifier} {material : SessionMaterial} :
    checkMaterial verifier? material = .ok () ↔
      ∀ verifier, verifier? = some verifier →
        ∃ signature, material.signature = some signature ∧
          Verifies.verify verifier material.material signature = .ok () := by
  cases verifier? with
  | none => simp [checkMaterial]
  | some verifier =>
      cases signature : material.signature with
      | none => simp [checkMaterial, signature]
      | some signature => simp [checkMaterial, signature]

theorem checkMaterial_eq_ok_or {verifier? : Option Verifier}
    (verifying : ∀ verifier, verifier? = some verifier → verifier.ring.Verifying)
    (material : SessionMaterial) :
    checkMaterial verifier? material = .ok () ∨
      checkMaterial verifier? material = .error .invalidCryptoData := by
  cases verifier? with
  | none => exact .inl rfl
  | some verifier =>
      have capable : (Verifies.ring verifier).Verifying := verifying verifier rfl
      cases signed : material.signature with
      | none => exact .inr (by simp only [checkMaterial, signed])
      | some signature =>
          simp only [checkMaterial, signed]
          exact Verifies.verify_eq_ok_or capable material.material signature

theorem unpackKey_eq_ok_iff {packing : KeyPacking} {packed : Bytes} {key : Key} :
    unpackKey packing packed = .ok key ↔
      packing.unpack packed = .ok key ∧ (key.keyType = .aes ∨ key.keyType = .aesAead) := by
  simp only [unpackKey, mapError_eq_ok, bind_eq_ok, Except.ok.injEq,
    ← KeyType.checkSession_eq_ok_iff]
  constructor
  · rintro ⟨found, unpacked, nothing, suits, rfl⟩
    exact ⟨unpacked, suits⟩
  · rintro ⟨unpacked, suits⟩
    exact ⟨key, unpacked, (), suits, rfl⟩

theorem unpackKey_eq_stopped_iff {packing : KeyPacking} {packed : Bytes} {reason : Stop} :
    unpackKey packing packed = .error (.stopped reason) ↔
      reason = .capacityOverflow ∧ packing = .cbor ∧ KeyPacking.Overflows packed := by
  rw [← KeyPacking.unpack_eq_stopped_iff, unpackKey, mapError_eq_error_iff]
  constructor
  · rintro ⟨error, failed, replaced⟩
    obtain rfl := (Error.handle_eq_stopped_iff (by simp)).mp replaced
    rcases bind_eq_stopped_iff.mp failed with stopped | ⟨key, -, checked⟩
    · exact stopped
    · exact absurd checked ((KeyPacking.returns_checkSession _).bind (by simp) reason)
  · intro stopped
    exact ⟨_, by rw [stopped, error_bind], rfl⟩

theorem unpackKey_eq_ok_or (packing : KeyPacking) (packed : Bytes) :
    (∃ key, unpackKey packing packed = .ok key) ∨
      unpackKey packing packed = .error .invalidCryptoData ∨
      unpackKey packing packed = .error (.stopped .capacityOverflow) := by
  cases unpacked : unpackKey packing packed with
  | ok key => exact .inl ⟨key, rfl⟩
  | error error =>
      obtain ⟨cause, -, replaced⟩ := mapError_eq_error_iff.mp unpacked
      rcases cause.handle_eq_or fun _ => .invalidCryptoData with
        ⟨reason, -, kept⟩ | ⟨-, collapsed⟩
      · obtain rfl : .stopped reason = error := kept.symm.trans replaced
        obtain ⟨rfl, -⟩ := unpackKey_eq_stopped_iff.mp unpacked
        exact .inr (.inr rfl)
      · exact .inr (.inl (by rw [← replaced, collapsed]))

variable {crypter : Crypter} {material : SessionMaterial} {options : SessionOptions}
  {verifier? : Option Verifier}

/-- Each of the three steps has to succeed. -/
theorem accept_eq_ok_iff {session : Session} :
    accept crypter material options verifier? = .ok session ↔
      checkMaterial verifier? material = .ok () ∧
        ∃ packed, Decrypts.decrypt crypter material.material = .ok packed ∧
          unpackKey options.packing packed = .ok session.key := by
  simp only [accept, bind_eq_ok, Except.ok.injEq]
  constructor
  · rintro ⟨nothing, checked, packed, decrypted, key, unpacked, rfl⟩
    exact ⟨checked, packed, decrypted, unpacked⟩
  · rintro ⟨checked, packed, decrypted, unpacked⟩
    exact ⟨(), checked, packed, decrypted, session.key, unpacked, rfl⟩

/-- The last of the three steps is the only one that may not come back. -/
theorem accept_eq_stopped_iff
    (verifying : ∀ verifier, verifier? = some verifier → verifier.ring.Verifying)
    {reason : Stop} :
    accept crypter material options verifier? = .error (.stopped reason) ↔
      checkMaterial verifier? material = .ok () ∧
        ∃ packed, Decrypts.decrypt crypter material.material = .ok packed ∧
          unpackKey options.packing packed = .error (.stopped reason) := by
  have checks : Returns (checkMaterial verifier? material) := by
    rcases checkMaterial_eq_ok_or verifying material with checked | refused
    · simp [checked]
    · simp [refused]
  have decrypts : Returns (Decrypts.decrypt crypter material.material) := by
    rcases Artifact.decrypt_eq_ok_or (Decrypts.decryptionKeys crypter) material.material with
      ⟨packed, decrypted⟩ | refused
    · simp [Decrypts.decrypt, decrypted]
    · simp [Decrypts.decrypt, refused]
  simp only [accept, checks.bind_eq_stopped_iff, decrypts.bind_eq_stopped_iff,
    bind_eq_stopped_iff, reduceCtorEq, and_false, exists_false, or_false]
  constructor
  · rintro ⟨nothing, checked, unpacks⟩
    exact ⟨checked, unpacks⟩
  · rintro ⟨checked, unpacks⟩
    exact ⟨(), checked, unpacks⟩

theorem accept_eq_ok_or
    (verifying : ∀ verifier, verifier? = some verifier → verifier.ring.Verifying) :
    (∃ session, accept crypter material options verifier? = .ok session) ∨
      accept crypter material options verifier? = .error .invalidCryptoData ∨
      accept crypter material options verifier? = .error (.stopped .capacityOverflow) := by
  rw [accept]
  rcases checkMaterial_eq_ok_or verifying material with checked | refused
  · rw [checked, ok_bind]
    rcases Artifact.decrypt_eq_ok_or (Decrypts.decryptionKeys crypter) material.material with
      ⟨packed, decrypted⟩ | refused
    · rw [Decrypts.decrypt, decrypted, ok_bind]
      rcases unpackKey_eq_ok_or options.packing packed with ⟨key, unpacked⟩ | refused | stopped
      · exact .inl ⟨⟨key⟩, by rw [unpacked, ok_bind]⟩
      · exact .inr (.inl (by rw [refused, error_bind]))
      · exact .inr (.inr (by rw [stopped, error_bind]))
    · exact .inr (.inl (by rw [Decrypts.decrypt, refused, error_bind]))
  · exact .inr (.inl (by rw [refused, error_bind]))

/-- Whatever the material is, accepting it gives a session, ends in one error or does not come
back.  It gives a session exactly if there is a signature that verifies, should there be a
verifier, and the key of the session is one for sessions, of a size of its type, which is unpacked
from what the crypter decrypts.  It does not come back exactly if the signature verifies but what
the crypter decrypts is an array for a key that announces more than a buffer can hold. -/
theorem accept_fails_closed (crypter : Crypter) (material : SessionMaterial)
    (options : SessionOptions) {verifier? : Option Verifier}
    (loaded : ∀ verifier, verifier? = some verifier →
      ∃ source allowInactive, (Verifier.load source allowInactive).1 = .ok verifier) :
    ((∃ session, accept crypter material options verifier? = .ok session) ∨
      accept crypter material options verifier? = .error .invalidCryptoData ∨
      accept crypter material options verifier? = .error (.stopped .capacityOverflow)) ∧
    (accept crypter material options verifier? = .error (.stopped .capacityOverflow) ↔
      (∀ verifier, verifier? = some verifier →
        ∃ signature, material.signature = some signature ∧
          Verifies.verify verifier material.material signature = .ok ()) ∧
      options.packing = .cbor ∧
      ∃ packed, Decrypts.decrypt crypter material.material = .ok packed ∧
        KeyPacking.Overflows packed) ∧
    ∀ session : Session, accept crypter material options verifier? = .ok session ↔
      (∀ verifier, verifier? = some verifier →
        ∃ signature, material.signature = some signature ∧
          Verifies.verify verifier material.material signature = .ok ()) ∧
      (session.key.keyType = .aes ∨ session.key.keyType = .aesAead) ∧
      session.key.size ∈ session.key.keyType.sizes ∧
      ∃ packed, Decrypts.decrypt crypter material.material = .ok packed ∧
        options.packing.unpack packed = .ok session.key := by
  have verifying : ∀ verifier, verifier? = some verifier → verifier.ring.Verifying := by
    intro verifier given
    obtain ⟨source, allowInactive, found⟩ := loaded verifier given
    exact Verifier.verifying_of_load found
  refine ⟨accept_eq_ok_or verifying, ?_, ?_⟩
  · rw [accept_eq_stopped_iff verifying, checkMaterial_eq_ok_iff]
    simp only [unpackKey_eq_stopped_iff, true_and]
    constructor
    · rintro ⟨signed, packed, decrypted, packing, overflows⟩
      exact ⟨signed, packing, packed, decrypted, overflows⟩
    · rintro ⟨signed, packing, packed, decrypted, overflows⟩
      exact ⟨signed, packed, decrypted, packing, overflows⟩
  · intro session
    rw [accept_eq_ok_iff, checkMaterial_eq_ok_iff]
    simp only [unpackKey_eq_ok_iff]
    constructor
    · rintro ⟨signed, packed, decrypted, unpacked, suits⟩
      exact ⟨signed, suits, session.key.size_mem_sizes, packed, decrypted, unpacked⟩
    · rintro ⟨signed, suits, -, packed, decrypted, unpacked⟩
      exact ⟨signed, packed, decrypted, unpacked, suits⟩

end Session

namespace Sample

def signer : Signer := ⟨singleRing .signAndVerify macKey .primary⟩

def verifier : Verifier :=
  ⟨{ singleRing .signAndVerify macKey .primary with allowInactive := true }⟩

theorem load_verifier :
    (Verifier.load (.stored (single .signAndVerify macKey .primary)) true).1 = .ok verifier :=
  load_verifier_single .primary

theorem exists_candidates : ∃ others, crypter.ring.candidates key.hash = key :: others :=
  KeyRing.candidates_of_primary (Crypter.loads_of_load load_crypter).canonical rfl

theorem primary_signer : signer.ring.primary = .ok macKey := rfl

theorem exists_sign (data : Bytes) : ∃ signature, signer.sign data = .ok signature :=
  ⟨_, (Signer.sign_eq_ok_iff primary_signer).mpr ⟨_, rfl, rfl⟩⟩

theorem verifiable : macKey.Verifiable := by
  intro dsa material
  cases material

theorem knows : verifier.Knows macKey :=
  ⟨⟨_, _, load_verifier⟩, _, macKey, .inl rfl, List.mem_cons_self, .inl rfl⟩

theorem loaded_verifier : ∀ given, some verifier = some given →
    ∃ source allowInactive, (Verifier.load source allowInactive).1 = .ok given := by
  rintro given ⟨⟩
  exact ⟨_, _, load_verifier⟩

/-- Of every message the crypter makes an artifact that it decrypts. -/
theorem exists_decrypt (message : Bytes) :
    ∃ artifact, (Encrypts.encrypt crypter message {}).1 = .ok artifact ∧
      Decrypts.decrypt crypter artifact = .ok message := by
  obtain ⟨body, layout⟩ := Artifact.exists_layout isSymmetric
    (Random.draw key.drawSize {}).1 message
  have made : (Encrypts.encrypt crypter message {}).1 =
      .ok (Artifact.header key.hash ++ body) :=
    Artifact.encrypt_eq_ok_iff_layout.mpr layout
  obtain ⟨others, first⟩ := exists_candidates
  exact ⟨_, made, Decrypts.decrypt_of_encrypt rfl
    (show Decrypts.decryptionKeys crypter _ = _ from first) (.inl rfl) rfl reversible made⟩

/-- A packed key of AES whose stored form is announced to have all the bytes that 64 bits can
count. -/
def excessivePacked : Bytes :=
  [0x83, 0x63, 0x41, 0x45, 0x53, 0x18, 0x80, 0x5B, 255, 255, 255, 255, 255, 255, 255, 255]

theorem overflows_excessivePacked : KeyPacking.Overflows excessivePacked := by
  have stopped : KeyPacking.unpackCbor excessivePacked =
      .error (.stopped .capacityOverflow) := by
    rfl
  exact (KeyPacking.unpackCbor_eq_stopped_iff.mp stopped).2

end Sample

/-- Material in which a key announces more than a buffer can hold is not refused: accepting it
does not come back. -/
theorem Session.accept_of_excessive :
    ∃ artifact, (Encrypts.encrypt Sample.crypter Sample.excessivePacked {}).1 = .ok artifact ∧
      accept Sample.crypter ⟨artifact, none⟩ {} none = .error (.stopped .capacityOverflow) ∧
      ¬ ((∃ session, accept Sample.crypter ⟨artifact, none⟩ {} none = .ok session) ∨
        accept Sample.crypter ⟨artifact, none⟩ {} none = .error .invalidCryptoData) := by
  obtain ⟨artifact, made, decrypted⟩ := Sample.exists_decrypt Sample.excessivePacked
  have stopped : accept Sample.crypter ⟨artifact, none⟩ {} none =
      .error (.stopped .capacityOverflow) :=
    (accept_eq_stopped_iff (by simp)).mpr ⟨rfl, _, decrypted,
      unpackKey_eq_stopped_iff.mpr ⟨rfl, rfl, Sample.overflows_excessivePacked⟩⟩
  refine ⟨artifact, made, stopped, ?_⟩
  simp [stopped]

/-- A packed key is accepted with its signature, and refused without.  A key that announces too
much is neither, signed or not by someone to be verified. -/
theorem Session.accept_fails_closed_sample :
    (∃ source allowInactive,
      (Verifier.load source allowInactive).1 = .ok Sample.verifier) ∧
    (∃ material signature,
      accept Sample.crypter ⟨material, some signature⟩ .aesHmac (some Sample.verifier) =
        .ok ⟨Sample.key⟩ ∧
      accept Sample.crypter ⟨material, none⟩ .aesHmac (some Sample.verifier) =
        .error .invalidCryptoData) ∧
    ∃ material signature,
      accept Sample.crypter ⟨material, some signature⟩ {} (some Sample.verifier) =
        .error (.stopped .capacityOverflow) := by
  obtain ⟨packed, packs⟩ : ∃ packed, KeyPacking.aesHmac.pack Sample.key = .ok packed := ⟨_, rfl⟩
  have verified {data signature : Bytes} (signed : Sample.signer.sign data = .ok signature) :
      Verifies.verify Sample.verifier data signature = .ok () :=
    Sample.knows.verify_of_sign Sample.primary_signer Sample.verifiable signed
  refine ⟨Sample.loaded_verifier _ rfl, ?_, ?_⟩
  · obtain ⟨artifact, -, decrypted⟩ := Sample.exists_decrypt packed
    obtain ⟨signature, signed⟩ := Sample.exists_sign artifact
    refine ⟨artifact, signature, ?_, ?_⟩
    · refine ((accept_fails_closed Sample.crypter ⟨_, some signature⟩ .aesHmac
        Sample.loaded_verifier).2.2 _).mpr
          ⟨?_, .inl rfl, by decide, packed, decrypted, KeyPacking.unpack_pack packs⟩
      rintro verifier ⟨⟩
      exact ⟨signature, rfl, verified signed⟩
    · obtain ⟨outcome, stops, form⟩ := accept_fails_closed Sample.crypter ⟨artifact, none⟩ .aesHmac
        Sample.loaded_verifier
      rcases outcome with ⟨session, accepted⟩ | refused | stopped
      · obtain ⟨other, present, -⟩ := ((form session).mp accepted).1 _ rfl
        cases present
      · exact refused
      · cases (stops.mp stopped).2.1
  · obtain ⟨artifact, -, decrypted⟩ := Sample.exists_decrypt Sample.excessivePacked
    obtain ⟨signature, signed⟩ := Sample.exists_sign artifact
    refine ⟨artifact, signature, (accept_fails_closed Sample.crypter ⟨_, some signature⟩ {}
      Sample.loaded_verifier).2.1.mpr
        ⟨?_, rfl, _, decrypted, Sample.overflows_excessivePacked⟩⟩
    rintro verifier ⟨⟩
    exact ⟨signature, rfl, verified signed⟩

end VersionedKeys
