import VersionedKeys.Proofs.Key.Generation
import VersionedKeys.Proofs.Pairs
import VersionedKeys.Proofs.Session.Acceptance

/-!
# Agreement on a session

What the originator of a session makes, the acceptor accepts, with the same key.  From then
on each of the two opens what either of them encrypts: `Session.agreement`.
-/

namespace VersionedKeys

/-- The key is one of AES, of a size that its type allows, and the packing is one for it. -/
structure SessionOptions.Suit (options : SessionOptions) : Prop where
  symmetric : options.keyType = .aes ∨ options.keyType = .aesAead
  allowed : options.keySize = 0 ∨ options.keySize ∈ options.keyType.sizes
  packing : options.packing = .aesHmac → options.keyType = .aes

namespace Session

/-- A message that is sent at once, or through a stream in pieces. -/
inductive Sending where
  | whole (message : Bytes)
  | streamed (pieces : List Bytes) (nonempty : ∀ piece ∈ pieces, piece ≠ [])

def Sending.message : Sending → Bytes
  | whole message => message
  | streamed pieces _ => pieces.flatten

/-- What is sent for a message. -/
def send (session : Session) : Sending → Random → Except Error Bytes × Random
  | .whole message, random => Encrypts.encrypt session message random
  | .streamed pieces _, random =>
      let ((result, sink), random) :=
        Encrypts.encryptStream session (pieces.map .chunk) {} random
      (result.map fun _ => sink.written, random)

/-- The two ends of a session. -/
inductive End where
  | originator
  | acceptor

/-- Which session each of the ends has. -/
def ends (originator acceptor : Session) : End → Session
  | .originator => originator
  | .acceptor => acceptor

/-- What the ends send one after another. -/
def converse (ends : End → Session) :
    List (End × Sending) → Random → List (Except Error Bytes) × Random
  | [], random => ([], random)
  | (sender, sending) :: sendings, random =>
      let (artifact, random) := (ends sender).send sending random
      let (artifacts, random) := converse ends sendings random
      (artifact :: artifacts, random)

/-- What came of a message is an artifact that both ends open. -/
def Understood (ends : End → Session) (sent : End × Sending) (result : Except Error Bytes) :
    Prop :=
  ∃ artifact, result = .ok artifact ∧
    ∀ receiver, Decrypts.decrypt (ends receiver) artifact = .ok sent.2.message

/-- A session that encrypts with a key of AES sends the artifact of any message, in whatever
way it is sent. -/
theorem exists_send {session : Session} (symmetric : session.key.IsSymmetric) (sending : Sending)
    (random : Random) :
    ∃ artifact, (session.send sending random).1 = .ok artifact ∧
      (Encrypts.encrypt session sending.message random).1 = .ok artifact := by
  obtain ⟨body, layout⟩ :=
    Artifact.exists_layout symmetric (random.draw session.key.drawSize).1 sending.message
  have whole : (Encrypts.encrypt session sending.message random).1 =
      .ok (Artifact.header session.key.hash ++ body) :=
    Artifact.encrypt_eq_ok_iff_layout.mpr layout
  refine ⟨_, ?_, whole⟩
  cases sending with
  | whole message => exact whole
  | streamed pieces nonempty =>
      have streamed := Artifact.encryptStream_eq_layout layout nonempty
        (show ({} : Sink).room = none from rfl)
      simp only [send, Encrypts.encryptStream, Encrypts.encryptionKey, streamed]
      rfl

/-- A session opens what a session with the same key encrypts. -/
theorem decrypt_of_encrypt {session other : Session} (symmetric : session.key.IsSymmetric)
    (same : other.key = session.key) {message artifact : Bytes} {random : Random}
    (made : (Encrypts.encrypt session message random).1 = .ok artifact) :
    Decrypts.decrypt other artifact = .ok message := by
  have first : Decrypts.decryptionKeys other session.key.hash = [session.key] := by
    simp only [Decrypts.decryptionKeys, same, if_true]
  exact Decrypts.decrypt_of_encrypt rfl first (.inl rfl) symmetric.decrypts symmetric.reversible
    made

/-- Every message of a conversation between ends with the same key is understood. -/
theorem forall₂_converse {ends : End → Session} {key : Key} (symmetric : key.IsSymmetric)
    (same : ∀ side, (ends side).key = key) (sendings : List (End × Sending)) (random : Random) :
    List.Forall₂ (Understood ends) sendings (converse ends sendings random).1 := by
  induction sendings generalizing random with
  | nil => exact .nil
  | cons sent sendings inductionHypothesis =>
      have sender : (ends sent.1).key.IsSymmetric := by
        rw [same]
        exact symmetric
      obtain ⟨artifact, produced, made⟩ := exists_send sender sent.2 random
      refine .cons ⟨artifact, produced, ?_⟩ (inductionHypothesis _)
      intro receiver
      exact decrypt_of_encrypt sender (by rw [same, same]) made

section Originate

variable {Holder : Type} [Encrypts Holder] {encrypter : Holder} {options : SessionOptions}
  {signer? : Option Signer} {random : Random} {session : Session} {material : SessionMaterial}

/-- A session is originated in five steps, of which two draw random bytes. -/
theorem originate_eq (encrypter : Holder) (options : SessionOptions) (signer? : Option Signer)
    (random : Random) :
    (originate encrypter options signer? random).1 = (do
      options.keyType.checkSession
      let key ← (Key.generate options.keyType options.keySize random).1
      let packed ← options.packing.pack key
      let material ← (Encrypts.encrypt encrypter packed
        (Key.generate options.keyType options.keySize random).2).1
      let signature ← signMaterial signer? material
      .ok (⟨key⟩, ⟨material, signature⟩)) := by
  rw [originate]
  cases options.keyType.checkSession with
  | error error => rfl
  | ok nothing =>
      generalize Key.generate options.keyType options.keySize random = made
      obtain ⟨generated, middle⟩ := made
      cases generated with
      | error error => rfl
      | ok key =>
          dsimp only [Outcome.ok_bind]
          cases options.packing.pack key with
          | error error => rfl
          | ok packed =>
              dsimp only [Outcome.ok_bind]
              generalize Encrypts.encrypt encrypter packed middle = made
              obtain ⟨encrypted, after⟩ := made
              cases encrypted with
              | error error => rfl
              | ok material => cases signMaterial signer? material <;> rfl

theorem originate_eq_ok_iff :
    (originate encrypter options signer? random).1 = .ok (session, material) ↔
      options.keyType.checkSession = .ok () ∧
      (Key.generate options.keyType options.keySize random).1 = .ok session.key ∧
      ∃ packed, options.packing.pack session.key = .ok packed ∧
        (Encrypts.encrypt encrypter packed
          (Key.generate options.keyType options.keySize random).2).1 = .ok material.material ∧
        signMaterial signer? material.material = .ok material.signature := by
  simp only [originate_eq, Outcome.bind_eq_ok, Except.ok.injEq, Prod.mk.injEq]
  constructor
  · rintro ⟨nothing, suits, key, generated, packed, packs, sent, encrypted, signature, signed,
      rfl, rfl⟩
    exact ⟨suits, generated, packed, packs, encrypted, signed⟩
  · rintro ⟨suits, generated, packed, packs, encrypted, signed⟩
    exact ⟨(), suits, _, generated, packed, packs, _, encrypted, _, signed, rfl, rfl⟩

/-- A session is originated with every key that encrypts, if the options suit each other and
whoever signs does not fail. -/
theorem exists_originate {key : Key} (encrypts : Encrypts.encryptionKey encrypter = .ok key)
    (supported : key.keyType.supports .decryptAndEncrypt = true ∨
      key.keyType.supports .encrypt = true) (suits : options.Suit)
    (signs : ∀ signer, signer? = some signer → ∀ data, ∃ signature,
      signer.sign data = .ok signature) (random : Random) :
    ∃ session material,
      (originate encrypter options signer? random).1 = .ok (session, material) := by
  obtain ⟨symmetric, allowed, packing⟩ := suits
  obtain ⟨sessionKey, generated⟩ := Key.exists_generate symmetric allowed random
  have keyType := Key.keyType_of_generate generated
  rw [← keyType] at symmetric packing
  obtain ⟨packed, packs, short⟩ := KeyPacking.exists_pack symmetric packing
  have fits : key.keyType = .rsaPrivate ∨ key.keyType = .rsaPublic →
      packed.length ≤ key.size / 8 - 42 := by
    intro asymmetric
    have wide : 1024 ≤ key.size := by
      have member := key.size_mem_sizes
      rcases asymmetric with keyType | keyType
      all_goals
        simp only [keyType, KeyType.sizes, List.mem_cons, List.not_mem_nil, or_false] at member
        omega
    omega
  -- The packed key fits, so it is encrypted whatever bytes are drawn for it.
  have encrypted (random : Random) :
      ∃ artifact, (Encrypts.encrypt encrypter packed random).1 = .ok artifact := by
    obtain ⟨body, layout⟩ := Artifact.exists_layout_of_encrypts supported fits
      (random.draw key.drawSize).1
    refine ⟨Artifact.header key.hash ++ body, ?_⟩
    simp only [Encrypts.encrypt, encrypts]
    exact Artifact.encrypt_eq_ok_iff_layout.mpr layout
  obtain ⟨artifact, made⟩ := encrypted (Key.generate options.keyType options.keySize random).2
  have signed : ∃ signature, signMaterial signer? artifact = .ok signature := by
    cases signer? with
    | none => exact ⟨none, rfl⟩
    | some signer =>
        obtain ⟨signature, made⟩ := signs signer rfl artifact
        exact ⟨some signature, by rw [signMaterial, made, Outcome.map_ok]⟩
  obtain ⟨signature, signed⟩ := signed
  refine ⟨⟨sessionKey⟩, ⟨artifact, signature⟩, originate_eq_ok_iff.mpr
    ⟨?_, generated, packed, packs, made, signed⟩⟩
  rw [← keyType]
  exact KeyType.checkSession_eq_ok_iff.mpr symmetric

end Originate

/-- What an encrypter originates is accepted by a crypter that tries the private half of the
encrypter's key first, and by a verifier that can use the signer's key or its public half,
if there is one.  The acceptor has the same key, and in whatever order the two ends send
whatever messages, at once or in pieces, each of them opens all that either has
encrypted.  If the options suit each other and whoever signs does not fail, there is
something to accept.  Keys of RSA are assumed to be reversible and keys of DSA to be
verifiable. -/
theorem agreement {Holder : Type} [Encrypts Holder] {encrypter : Holder} {crypter : Crypter}
    {key other : Key} {others : List Key} {signer? : Option Signer} {verifier? : Option Verifier}
    (encrypts : Encrypts.encryptionKey encrypter = .ok other)
    (first : crypter.ring.candidates other.hash = key :: others) (pairs : key.Pairs other)
    (decrypts : key.keyType.supports .decryptAndEncrypt = true) (reversible : key.Reversible)
    (verified : ∀ verifier, verifier? = some verifier →
      ∃ signer signing, signer? = some signer ∧ signer.ring.primary = .ok signing ∧
        signing.Verifiable ∧ verifier.Knows signing)
    (options : SessionOptions) (random : Random) :
    (options.Suit → (∀ signer, signer? = some signer → ∀ data, ∃ signature,
        signer.sign data = .ok signature) →
      ∃ session material,
        (originate encrypter options signer? random).1 = .ok (session, material)) ∧
    ∀ session material,
      (originate encrypter options signer? random).1 = .ok (session, material) →
      ∃ accepted, accept crypter material options verifier? = .ok accepted ∧
        accepted.key = session.key ∧
        ∀ (sendings : List (End × Sending)) (random : Random),
          List.Forall₂ (Understood (ends session accepted)) sendings
            (converse (ends session accepted) sendings random).1 := by
  constructor
  · intro suits signs
    exact exists_originate encrypts (pairs.encrypts decrypts) suits signs random
  · intro session material originated
    obtain ⟨suits, generated, packed, packs, encrypted, signed⟩ := originate_eq_ok_iff.mp originated
    have symmetric : session.key.IsSymmetric := by
      rw [Key.IsSymmetric, Key.keyType_of_generate generated]
      exact KeyType.checkSession_eq_ok_iff.mp suits
    -- Sessions are no more than their keys, so the acceptor has the session of the originator.
    refine ⟨session, ?_, rfl, ?_⟩
    · refine accept_eq_ok_iff.mpr ⟨checkMaterial_eq_ok_iff.mpr ?_, packed, ?_, ?_⟩
      · intro verifier given
        obtain ⟨signer, signing, rfl, primary, verifiable, knows⟩ := verified verifier given
        obtain ⟨signature, made, kept⟩ := Outcome.map_eq_ok.mp signed
        exact ⟨signature, kept.symm, knows.verify_of_sign primary verifiable made⟩
      · exact Decrypts.decrypt_of_encrypt encrypts first pairs decrypts reversible encrypted
      · exact unpackKey_eq_ok_iff.mpr ⟨KeyPacking.unpack_pack packs, symmetric⟩
    · intro sendings random
      exact forall₂_converse symmetric (fun side => by cases side <;> rfl) sendings random

/-- A signed session in which one end sends a message, and the other one in two pieces. -/
theorem agreement_sample :
    ∃ session material accepted,
      (originate Sample.crypter .aesHmac (some Sample.signer) {}).1 = .ok (session, material) ∧
      accept Sample.crypter material .aesHmac (some Sample.verifier) = .ok accepted ∧
      accepted.key = session.key ∧
      let sendings := [(.originator, .whole []), (.acceptor, .streamed [[104], [105]] (by decide))]
      List.Forall₂ (Understood (ends session accepted)) sendings
        (converse (ends session accepted) sendings {}).1 := by
  have encrypts : Encrypts.encryptionKey Sample.crypter = .ok Sample.key := rfl
  have signs : ∀ signer, some Sample.signer = some signer → ∀ data, ∃ signature,
      signer.sign data = .ok signature := by
    rintro signer ⟨⟩ data
    exact Sample.exists_sign data
  have verified : ∀ verifier, some Sample.verifier = some verifier →
      ∃ signer signing, some Sample.signer = some signer ∧
        signer.ring.primary = .ok signing ∧ signing.Verifiable ∧ verifier.Knows signing := by
    rintro verifier ⟨⟩
    exact ⟨_, _, rfl, Sample.primary_signer, Sample.verifiable, Sample.knows⟩
  have suits : SessionOptions.aesHmac.Suit := ⟨.inl rfl, .inl rfl, fun _ => rfl⟩
  obtain ⟨others, first⟩ := Sample.exists_candidates
  obtain ⟨returns, agrees⟩ :=
    agreement encrypts first (.inl rfl) rfl Sample.reversible verified .aesHmac {}
  obtain ⟨session, material, originated⟩ := returns suits signs
  obtain ⟨accepted, joined, same, opened⟩ := agrees session material originated
  exact ⟨session, material, accepted, originated, joined, same, opened _ _⟩

end Session

end VersionedKeys
