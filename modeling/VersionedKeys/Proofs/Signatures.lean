import VersionedKeys.Proofs.Dsa.Signature
import VersionedKeys.Proofs.Key.Reading
import VersionedKeys.Proofs.Rsa.Signature
import VersionedKeys.Proofs.Signing

/-!
# When keys sign

A key signs some bytes if there is a signature of them under it (`Key.Signs`).  Keys that
authenticate sign everything, and so do keys of RSA whose factors are different primes.  What other
keys sign depends on their numbers and on the digest: `Key.signsWhere`.  Where there is no
signature signing returns an error, unless a nonce is looked for and nothing that is drawn can be
one.  Then signing does not come back: `KeyRing.signingEnds`.
-/

namespace VersionedKeys

open Digest Outcome

namespace Streaming.SigningKey

variable {digest tag : Bytes}

theorem sign_rsa_eq_ok_iff {key : Rsa.PrivateKey} :
    (rsa key).sign digest = .ok tag ↔ Rsa.sign? key digest = some tag := by
  rw [sign]
  cases Rsa.sign? key digest <;> simp

theorem sign_dsa_eq_ok_iff {key : Dsa.PrivateKey} :
    (dsa key).sign digest = .ok tag ↔ Dsa.sign? key digest = some tag := by
  rw [sign, Dsa.sign?]
  cases key.nonce? digest with
  | none => simp
  | some found => cases drawn : key.signWith? digest found.1 found.2 <;> simp [drawn]

theorem sign_dsa_eq_stopped_iff {key : Dsa.PrivateKey} {reason : Stop} :
    (dsa key).sign digest = .error (.stopped reason) ↔
      reason = .endlessSearch ∧ key.nonce? digest = none := by
  rw [sign]
  cases key.nonce? digest with
  | none => simp [eq_comm]
  | some found => cases drawn : key.signWith? digest found.1 found.2 <;> simp [drawn]

theorem raisesOnly_sign_rsa (key : Rsa.PrivateKey) (digest : Bytes) :
    RaisesOnly [.returned .invalidCryptoData] ((rsa key).sign digest) := by
  rw [sign]
  cases Rsa.sign? key digest <;> simp [Error.ending]

theorem raisesOnly_sign_dsa (key : Dsa.PrivateKey) (digest : Bytes) :
    RaisesOnly [.returned .invalidCryptoData, .stopped .endlessSearch]
      ((dsa key).sign digest) := by
  rw [sign]
  cases key.nonce? digest with
  | none => simp [Error.ending]
  | some found => cases drawn : key.signWith? digest found.1 found.2 <;> simp [drawn, Error.ending]

end Streaming.SigningKey

/-- How signing with a key of a type ends if it makes no signature.  A nonce is looked for under
keys of DSA only. -/
def KeyType.signingEndings : KeyType → List Error.Ending
  | dsaPrivate => [.returned .invalidCryptoData, .stopped .endlessSearch]
  | _ => [.returned .invalidCryptoData]

namespace Key

/-- The signature of some bytes under a key, without the header. -/
def signature? (key : Key) (signed : Bytes) : Option Bytes :=
  match key.material with
  | .hmacSha1 mac => some (sha1.hmac mac signed)
  | .rsaPrivate rsa => Rsa.sign? rsa (sha1.digest signed)
  | .dsaPrivate dsa => Dsa.sign? dsa (sha1.digest signed)
  | _ => none

/-- There is a signature of some bytes under a key. -/
def Signs (key : Key) (signed : Bytes) : Prop := ∃ tag, key.signature? signed = some tag

/-- Nothing that is drawn for the digest of some bytes can be a nonce. -/
def SearchesForever (key : Key) (signed : Bytes) : Prop :=
  ∃ dsa, key.material = .dsaPrivate dsa ∧
    ∀ count, ¬ Dsa.Admits dsa.publicKey.order (dsa.drawn (sha1.digest signed) count)

/-- When there is a signature of some bytes, by the type of the key. -/
structure SignsWhere (key : Key) (signed : Bytes) : Prop where
  hmacSha1 : key.keyType = .hmacSha1 → key.Signs signed
  /-- The power with the secret exponent is undone by the public operation. -/
  rsaPrivate : ∀ rsa, key.material = .rsaPrivate rsa → (key.Signs signed ↔
    ∃ padded : Bytes, Rsa.padDigest? rsa.publicKey.length (sha1.digest signed) = some padded ∧
      rsa.publicKey.apply (rsa.power padded.toNat) = padded.toNat)
  rsaPrimes : ∀ rsa, key.material = .rsaPrivate rsa → rsa.first.Prime → rsa.second.Prime →
    rsa.first ≠ rsa.second → key.Signs signed
  /-- The two numbers that the first nonce gives are not zero modulo the order. -/
  dsaPrivate : ∀ dsa, key.material = .dsaPrivate dsa → (key.Signs signed ↔
    ∃ nonce, dsa.Draws (sha1.digest signed) nonce ∧ dsa.publicKey.firstNumber nonce ≠ 0 ∧
      (dsa.publicKey.digestNumber (sha1.digest signed) +
        dsa.secret * dsa.publicKey.firstNumber nonce) % dsa.publicKey.order ≠ 0)

/-- How the signing of some bytes with a key ends. -/
structure SigningEnds (key : Key) (signed : Bytes) (outcome : Except Error Bytes) : Prop where
  ok_iff : (∃ signature, outcome = .ok signature) ↔ key.Signs signed
  stops_iff : outcome = .error (.stopped .endlessSearch) ↔ key.SearchesForever signed
  endings : RaisesOnly key.keyType.signingEndings outcome

variable {key : Key}

/-- Every key that authenticates signs, and every private key of RSA whose factors are different
primes. -/
theorem signs_of_primes
    (genuine : key.keyType = .hmacSha1 ∨ ∃ rsa, key.material = .rsaPrivate rsa ∧
      rsa.first.Prime ∧ rsa.second.Prime ∧ rsa.first ≠ rsa.second) (signed : Bytes) :
    key.Signs signed := by
  rcases genuine with authenticates | ⟨rsa, material, firstPrime, secondPrime, different⟩
  · obtain ⟨mac, material⟩ := exists_mac authenticates
    exact ⟨_, by rw [signature?, material]⟩
  · have size : key.size = rsa.publicKey.length * 8 := by
      rw [Key.size, material, Material.size]
    have bound : 1024 ≤ key.size := by
      have member := key.size_mem_sizes
      rw [keyType, material] at member
      simp only [Material.keyType, KeyType.sizes, List.mem_cons, List.not_mem_nil, or_false]
        at member
      omega
    have digest : (sha1.digest signed).length = 20 := length_digest_sha1 signed
    obtain ⟨signature, made⟩ := Rsa.exists_sign? firstPrime secondPrime different
      (show (sha1.digest signed).length + 26 ≤ _ by omega)
    exact ⟨signature, by rw [signature?, material]; exact made⟩

theorem signsWhere (key : Key) (signed : Bytes) : key.SignsWhere signed where
  hmacSha1 authenticates := signs_of_primes (.inl authenticates) signed
  rsaPrivate rsa material := by
    rw [Signs, signature?, material]
    exact Rsa.exists_sign?_iff
  rsaPrimes rsa material firstPrime secondPrime different :=
    signs_of_primes (.inr ⟨rsa, material, firstPrime, secondPrime, different⟩) signed
  dsaPrivate dsa material := by
    rw [Signs, signature?, material]
    exact Dsa.exists_sign?_iff

theorem not_searchesForever {signed : Bytes} (other : key.keyType ≠ .dsaPrivate) :
    ¬ key.SearchesForever signed := by
  rintro ⟨dsa, material, -⟩
  rw [keyType, material] at other
  exact other rfl

end Key

namespace KeyRing

variable {ring : KeyRing} {key : Key} (primary : ring.primary = .ok key)

include primary

theorem sign_of_startSigning {signer : Streaming.SigningKey}
    (started : key.startSigning = .ok (.signature (.signing signer))) (signed sent : Bytes) :
    ring.sign signed sent =
      (signer.sign (sha1.digest signed)).map (Artifact.header key.hash ++ sent ++ ·) := by
  have finished : sha1.finish (sha1.absorb sha1.empty signed) = sha1.digest signed := rfl
  rw [sign, primary, ok_bind, started]
  simp only [ok_bind, Streaming.TagStream.write, Streaming.SignatureStream.signing,
    Streaming.SignatureStream.write, Bool.false_eq_true, if_false, Prod.map, id_eq,
    Streaming.TagStream.finish, Streaming.SignatureStream.finish, finished]
  cases signer.sign (sha1.digest signed) with
  | error error => rfl
  | ok tag => rfl

theorem sign_rsa {rsa : Rsa.PrivateKey} (material : key.material = .rsaPrivate rsa)
    (signed sent : Bytes) :
    ring.sign signed sent = ((Streaming.SigningKey.rsa rsa).sign (sha1.digest signed)).map
      (Artifact.header key.hash ++ sent ++ ·) :=
  sign_of_startSigning primary (by rw [Key.startSigning, material]) signed sent

theorem sign_dsa {dsa : Dsa.PrivateKey} (material : key.material = .dsaPrivate dsa)
    (signed sent : Bytes) :
    ring.sign signed sent = ((Streaming.SigningKey.dsa dsa).sign (sha1.digest signed)).map
      (Artifact.header key.hash ++ sent ++ ·) :=
  sign_of_startSigning primary (by rw [Key.startSigning, material]) signed sent

/-- A nonce for which there is no signature is not replaced by another. -/
theorem sign_dsa_of_refused {dsa : Dsa.PrivateKey} (material : key.material = .dsaPrivate dsa)
    {signed : Bytes} {nonce inverse : Nat}
    (drawn : dsa.nonce? (sha1.digest signed) = some (nonce, inverse))
    (refused : dsa.signWith? (sha1.digest signed) nonce inverse = none) (sent : Bytes) :
    ring.sign signed sent = .error .invalidCryptoData := by
  rw [sign_dsa primary material, Streaming.SigningKey.sign, drawn]
  simp only [refused]
  rfl

/-- A ring signs with its primary key, whose header comes first. -/
theorem sign_eq_ok_iff {signed sent signature : Bytes} :
    ring.sign signed sent = .ok signature ↔
      ∃ tag, key.signature? signed = some tag ∧
        signature = Artifact.header key.hash ++ sent ++ tag := by
  cases material : key.material with
  | hmacSha1 mac =>
      rw [sign_hmac material primary, Key.signature?, material]
      simp [eq_comm]
  | rsaPrivate rsa =>
      simp only [sign_rsa primary material, Key.signature?, material, map_eq_ok,
        Streaming.SigningKey.sign_rsa_eq_ok_iff, eq_comm (a := signature)]
  | dsaPrivate dsa =>
      simp only [sign_dsa primary material, Key.signature?, material, map_eq_ok,
        Streaming.SigningKey.sign_dsa_eq_ok_iff, eq_comm (a := signature)]
  | aes aes | aesAead aes | rsaPublic rsa | dsaPublic dsa =>
      have refused : key.startSigning = .error (key.unsupported .signing) := by
        rw [Key.startSigning, material]
      rw [sign, primary, ok_bind, refused, Key.signature?, material]
      simp

theorem exists_sign_iff (signed sent : Bytes) :
    (∃ signature, ring.sign signed sent = .ok signature) ↔ key.Signs signed := by
  simp only [sign_eq_ok_iff primary, Key.Signs, exists_comm, exists_and_left, exists_eq, and_true]

/-- A key that can sign may find no signature, and raises nothing else. -/
theorem signingEnds (signs : key.keyType.supports .signAndVerify = true) (signed sent : Bytes) :
    key.SigningEnds signed (ring.sign signed sent) := by
  have signed_iff := exists_sign_iff primary signed sent
  have calm : key.keyType ≠ .dsaPrivate → ¬ key.SearchesForever signed := key.not_searchesForever
  rw [Key.keyType] at signs calm
  cases material : key.material with
  | hmacSha1 mac =>
      rw [sign_hmac material primary] at signed_iff ⊢
      exact ⟨signed_iff, iff_of_false (by simp) (calm (by simp [material, Material.keyType])),
        raisesOnly_ok _⟩
  | rsaPrivate rsa =>
      have raises := Streaming.SigningKey.raisesOnly_sign_rsa rsa (sha1.digest signed)
      rw [sign_rsa primary material] at signed_iff ⊢
      refine ⟨signed_iff, iff_of_false ?_ (calm (by simp [material, Material.keyType])), ?_⟩
      · rw [map_eq_error_iff]
        exact raises.ne (by decide)
      · rw [Key.keyType, material]
        exact raisesOnly_map.mpr raises
  | dsaPrivate dsa =>
      rw [sign_dsa primary material] at signed_iff ⊢
      refine ⟨signed_iff, ?_, ?_⟩
      · simp only [map_eq_error_iff, Streaming.SigningKey.sign_dsa_eq_stopped_iff, true_and,
          Key.SearchesForever, material, Dsa.PrivateKey.nonce?_eq_none_iff,
          Material.dsaPrivate.injEq, exists_eq_left']
      · rw [Key.keyType, material]
        exact raisesOnly_map.mpr (Streaming.SigningKey.raisesOnly_sign_dsa dsa _)
  | _ =>
      rw [material] at signs
      cases signs

end KeyRing

theorem Signer.sign_eq_ok_iff {signer : Signer} {key : Key}
    (primary : signer.ring.primary = .ok key) {data signature : Bytes} :
    signer.sign data = .ok signature ↔
      ∃ tag, key.signature? (data ++ [0]) = some tag ∧
        signature = Artifact.header key.hash ++ tag := by
  rw [sign, KeyRing.sign_eq_ok_iff primary]
  simp only [List.append_nil]
  rfl

end VersionedKeys
