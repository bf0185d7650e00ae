import VersionedKeys.Proofs.Artifact.Composition
import VersionedKeys.Proofs.Signatures
import VersionedKeys.Proofs.Verification

/-!
# Both halves of a key

A private key and its public half have the same hash.  The private key decrypts what either
half encrypts (`Decrypts.decrypt_of_encrypt`), and either half accepts what the private key
signs (`Verifies.verify_of_sign`).
-/

namespace VersionedKeys

open Digest

/-- The other key is the key itself or its public half. -/
def Key.Pairs (key other : Key) : Prop :=
  other = key ∨ key.public? = some other

/-- Whether verification accepts what is signed, if the key is a private one of DSA. -/
def Key.Verifiable (key : Key) : Prop :=
  ∀ dsa, key.material = .dsaPrivate dsa → ∀ digest signature,
    Dsa.sign? dsa digest = some signature → Dsa.verify dsa.publicKey digest signature = true

theorem Key.public?_eq_some {key other : Key} (found : key.public? = some other) :
    (∃ rsa, key.material = .rsaPrivate rsa ∧ other.material = .rsaPublic rsa.publicKey) ∨
      ∃ dsa, key.material = .dsaPrivate dsa ∧ other.material = .dsaPublic dsa.publicKey := by
  rw [public?.eq_def] at found
  split at found
  · next rsa acceptable =>
      cases found
      exact .inl ⟨rsa, rfl, rfl⟩
  · next dsa acceptable =>
      cases found
      exact .inr ⟨dsa, rfl, rfl⟩
  · cases found

namespace Key.Pairs

variable {key other : Key} (pairs : key.Pairs other)

include pairs

theorem hash_eq : other.hash = key.hash := by
  rcases pairs with rfl | found
  · rfl
  · rcases Key.public?_eq_some found with ⟨rsa, whole, half⟩ | ⟨dsa, whole, half⟩
    · rw [Key.hash, Key.hash, whole, half, Material.identity, Material.identity]
    · rw [Key.hash, Key.hash, whole, half, Material.identity, Material.identity]

/-- Where the private key decrypts, either half encrypts. -/
theorem encrypts (decrypts : key.keyType.supports .decryptAndEncrypt = true) :
    other.keyType.supports .decryptAndEncrypt = true ∨
      other.keyType.supports .encrypt = true := by
  rcases pairs with rfl | found
  · exact .inl decrypts
  · rcases Key.public?_eq_some found with ⟨rsa, whole, half⟩ | ⟨dsa, whole, half⟩
    · exact .inr (by rw [Key.keyType, half]; rfl)
    · rw [Key.keyType, whole] at decrypts
      cases decrypts

theorem drawSize_eq : other.drawSize = key.drawSize := by
  rcases pairs with rfl | found
  · rfl
  · rcases Key.public?_eq_some found with ⟨rsa, whole, half⟩ | ⟨dsa, whole, half⟩
    · rw [Key.drawSize, Key.drawSize, whole, half]
    · rw [Key.drawSize, Key.drawSize, whole, half]

/-- Both halves make the same artifacts. -/
theorem layout?_eq (drawn message : Bytes) :
    Artifact.layout? other drawn message = Artifact.layout? key drawn message := by
  have sameHash := pairs.hash_eq
  rcases pairs with rfl | found
  · rfl
  · rcases Key.public?_eq_some found with ⟨rsa, whole, half⟩ | ⟨dsa, whole, half⟩
    · rw [Artifact.layout?, Artifact.layout?, sameHash, whole, half]
    · rw [Artifact.layout?, Artifact.layout?, whole, half]

theorem decryptWith_of_layout (decrypts : key.keyType.supports .decryptAndEncrypt = true)
    (reversible : key.Reversible) {drawn message body : Bytes}
    (length : drawn.length = other.drawSize)
    (made : Artifact.layout? other drawn message = some (Artifact.header other.hash ++ body)) :
    Artifact.decryptWith key (Artifact.header key.hash) body = .ok message := by
  rw [pairs.layout?_eq, pairs.hash_eq] at made
  rw [pairs.drawSize_eq] at length
  exact Artifact.decryptWith_of_layout decrypts reversible length made

theorem verifies_of_signature? (verifiable : key.Verifiable) {signed signature : Bytes}
    (made : key.signature? signed = some signature) : other.verifies signed signature = true := by
  rcases pairs with rfl | found
  · rw [Key.signature?] at made
    split at made
    · next mac material =>
        cases made
        rw [Key.verifies, material, beq_iff_eq, ← length_hmac_sha1 mac signed, List.take_length]
    · next rsa material =>
        rw [Key.verifies, material]
        exact Rsa.verify_of_sign? made
    · next dsa material =>
        rw [Key.verifies, material]
        exact verifiable dsa material _ _ made
    · cases made
  · rcases Key.public?_eq_some found with ⟨rsa, whole, half⟩ | ⟨dsa, whole, half⟩
    · rw [Key.signature?, whole] at made
      rw [Key.verifies, half]
      exact Rsa.verify_of_sign? made
    · rw [Key.signature?, whole] at made
      rw [Key.verifies, half]
      exact verifiable dsa whole _ _ made

end Key.Pairs

/-- What has been encrypted is decrypted, if the first key to be tried is the private half of
the key that was used. -/
theorem Decrypts.decrypt_of_encrypt {Sender Receiver : Type} [Encrypts Sender]
    [Decrypts Receiver] {sender : Sender} {receiver : Receiver} {key other : Key}
    {others : List Key} (encrypts : Encrypts.encryptionKey sender = .ok other)
    (first : decryptionKeys receiver other.hash = key :: others) (pairs : key.Pairs other)
    (decrypts : key.keyType.supports .decryptAndEncrypt = true) (reversible : key.Reversible)
    {message artifact : Bytes} {random : Random}
    (made : (Encrypts.encrypt sender message random).1 = .ok artifact) :
    decrypt receiver artifact = .ok message := by
  simp only [Encrypts.encrypt, encrypts] at made
  have layout := Artifact.encrypt_eq_ok_iff_layout.mp made
  obtain ⟨-, -, body, -, -, -, rfl⟩ := Artifact.exists_start_of_layout layout
  have opened := pairs.decryptWith_of_layout decrypts reversible (Random.length_draw _ _) layout
  rw [pairs.hash_eq] at first ⊢
  exact Artifact.decrypt_of_first first opened

/-- A ring that can use either half of a key vouches for its signatures. -/
theorem KeyRing.vouches_of_signature? {ring : KeyRing} {key other : Key}
    (verifiable : key.Verifiable) (pairs : key.Pairs other)
    (usable : other ∈ ring.candidates other.hash) {signed tag : Bytes}
    (made : key.signature? signed = some tag) : ring.Vouches key.hash signed tag := by
  rw [pairs.hash_eq] at usable
  exact ⟨other, usable, pairs.verifies_of_signature? verifiable made⟩

/-- A holder that can use either half of the key a signer signs with accepts its
signatures. -/
theorem Verifies.verify_of_sign {Holder : Type} [Verifies Holder] {holder : Holder}
    (verifying : (ring holder).Verifying) {signer : Signer} {key other : Key}
    (primary : signer.ring.primary = .ok key) (verifiable : key.Verifiable)
    (pairs : key.Pairs other) (usable : other ∈ (ring holder).candidates other.hash)
    {data signature : Bytes} (signed : signer.sign data = .ok signature) :
    verify holder data signature = .ok () := by
  obtain ⟨tag, made, rfl⟩ := (Signer.sign_eq_ok_iff primary).mp signed
  exact (verify_eq_ok_iff verifying _ _).mpr
    ⟨key.hash, tag, rfl, KeyRing.vouches_of_signature? verifiable pairs usable made⟩

/-- A verifier that has been loaded, and can use a key or its public half. -/
structure Verifier.Knows (verifier : Verifier) (key : Key) : Prop where
  loaded : ∃ source allowInactive, (load source allowInactive).1 = .ok verifier
  held : ∃ version other, key.Pairs other ∧ (version, other) ∈ verifier.ring.keys ∧
    (version.status = .primary ∨ version.status = .active ∨ verifier.ring.allowInactive = true)

theorem Verifier.Knows.verify_of_sign {verifier : Verifier} {key : Key}
    (knows : verifier.Knows key) {signer : Signer} (primary : signer.ring.primary = .ok key)
    (verifiable : key.Verifiable) {data signature : Bytes}
    (signed : signer.sign data = .ok signature) :
    Verifies.verify verifier data signature = .ok () := by
  obtain ⟨source, allowInactive, loaded⟩ := knows.loaded
  obtain ⟨version, other, pairs, membership, usable⟩ := knows.held
  have candidate : other ∈ verifier.ring.candidates other.hash :=
    KeyRing.mem_candidates.mpr
      ⟨rfl, version, membership, KeyRing.isUsable_eq_true_iff.mpr usable⟩
  exact Verifies.verify_of_sign (Verifier.verifying_of_load loaded) primary verifiable pairs
    candidate signed

end VersionedKeys
