import VersionedKeys.Proofs.Artifact.OneBlock
import VersionedKeys.Proofs.Recognition
import VersionedKeys.Proofs.Streaming.Ending

/-!
# How long signatures are

A tag of HMAC has twenty bytes and a signature of RSA as many as the modulus.  A signature of DSA
has two numbers below the order of the generator, and at most 48 bytes if that has no more than
160 bits.  These are the lengths that the types of keys announce, and the streams with them:
`Key.signatures_measured`.
-/

namespace VersionedKeys

open Digest Streaming

/-- A signing stream of RSA or DSA signs the digest of what was written to it, once it ends. -/
theorem Streaming.TagStream.close_signing (signer : SigningKey) (pieces : List Bytes) :
    ((signature (.signing signer)).close pieces).map tag id =
      match signer.sign (sha1.digest pieces.flatten) with
      | .ok tag => (tag, .ok ())
      | .error error => ([], .error error) := by
  have finished : sha1.finish (sha1.absorb sha1.empty pieces.flatten) =
      sha1.digest pieces.flatten := rfl
  rw [(Started.signing signer).unfinished.close_eq]
  simp only [write, SignatureStream.signing, SignatureStream.write, Bool.false_eq_true, if_false,
    Prod.map, id_eq, finish, SignatureStream.finish, finished]
  cases signer.sign (sha1.digest pieces.flatten) with
  | error error => rfl
  | ok signature => rfl

namespace Key

/-- The length of a tag under a key, by the type of the key. -/
structure Measures (key : Key) (tag : Bytes) : Prop where
  hmacSha1 : key.keyType = .hmacSha1 → tag.length = 20
  rsaPrivate : key.keyType = .rsaPrivate →
    tag.length = key.keyType.outputSize key.size ∧ tag.length = key.size / 8
  dsaPrivate : ∀ dsa, key.material = .dsaPrivate dsa →
    Bytes.bitLength dsa.publicKey.order ≤ 160 → tag.length ≤ 48

theorem measures_of_signature? {key : Key} {signed tag : Bytes}
    (made : key.signature? signed = some tag) : key.Measures tag := by
  constructor
  · intro authenticates
    obtain ⟨mac, material⟩ := exists_mac authenticates
    rw [signature?, material] at made
    cases made
    rfl
  · intro signs
    cases material : key.material with
    | rsaPrivate rsa =>
        rw [signature?, material] at made
        have output : key.keyType.outputSize key.size = key.size / 8 := by rw [signs]; rfl
        rw [output, Artifact.size_div_eq material, Rsa.length_of_sign? made]
        exact ⟨rfl, rfl⟩
    | _ =>
        rw [keyType, material] at signs
        cases signs
  · intro dsa material short
    rw [signature?, material] at made
    have bound := Dsa.length_le_of_sign? (by omega) made
    omega

theorem exists_startSigning_iff {key : Key} :
    (∃ stream, key.startSigning = .ok stream) ↔ key.keyType.supports .signAndVerify = true := by
  rw [startSigning, keyType]
  cases key.material <;> simp [Material.keyType, KeyType.supports, KeyType.purposes]

theorem exists_startSigning_of_signature? {key : Key} {signed tag : Bytes}
    (made : key.signature? signed = some tag) : ∃ stream, key.startSigning = .ok stream := by
  rw [startSigning]
  cases material : key.material with
  | hmacSha1 _ | rsaPrivate _ | dsaPrivate _ => exact ⟨_, rfl⟩
  | _ =>
      rw [signature?, material] at made
      cases made

section Signing

variable {key : Key} {stream : TagStream}

section Started

variable (started : key.startSigning = .ok stream)

include started

/-- A signing stream is one of HMAC or signs digests. -/
theorem startSigning_cases :
    (∃ mac, stream = .hmac (.start mac) ∧
      ∀ signed, key.signature? signed = some (sha1.hmac mac signed)) ∨
    ∃ signer, stream = .signature (.signing signer) ∧
      ∀ signed tag, key.signature? signed = some tag ↔
        signer.sign (sha1.digest signed) = .ok tag := by
  rw [startSigning] at started
  cases material : key.material with
  | hmacSha1 mac =>
      rw [material] at started
      cases started
      exact .inl ⟨mac, rfl, fun signed => by rw [signature?, material]⟩
  | rsaPrivate rsa =>
      rw [material] at started
      cases started
      refine .inr ⟨.rsa rsa, rfl, fun signed tag => ?_⟩
      rw [signature?, material, SigningKey.sign_rsa_eq_ok_iff]
  | dsaPrivate dsa =>
      rw [material] at started
      cases started
      refine .inr ⟨.dsa dsa, rfl, fun signed tag => ?_⟩
      rw [signature?, material, SigningKey.sign_dsa_eq_ok_iff]
  | _ =>
      rw [material] at started
      cases started

theorem unfinished_of_startSigning : stream.Unfinished := by
  rcases startSigning_cases started with ⟨mac, rfl, -⟩ | ⟨signer, rfl, -⟩
  · exact (TagStream.Started.hmac mac).unfinished
  · exact (TagStream.Started.signing signer).unfinished

/-- A signing stream succeeds at its end exactly if there is a signature of all that was written,
which is then its tag.  Otherwise it has none. -/
theorem close_of_startSigning (pieces : List Bytes) :
    (∃ tag, key.signature? pieces.flatten = some tag ∧
      (stream.close pieces).2 = .ok () ∧ (stream.close pieces).1.tag = tag) ∨
    ¬ key.Signs pieces.flatten ∧ (stream.close pieces).2 ≠ .ok () ∧
      (stream.close pieces).1.tag = [] := by
  rcases startSigning_cases started with ⟨mac, rfl, tagged⟩ | ⟨signer, rfl, signs⟩
  · refine .inl ⟨_, tagged _, ?_⟩
    rw [(TagStream.Started.hmac mac).unfinished.close_eq]
    exact ⟨rfl, rfl⟩
  · have closed := TagStream.close_signing signer pieces
    simp only [Signs, signs]
    cases outcome : signer.sign (sha1.digest pieces.flatten) with
    | ok tag =>
        rw [outcome] at closed
        exact .inl ⟨tag, rfl, congrArg Prod.snd closed, congrArg Prod.fst closed⟩
    | error error =>
        rw [outcome] at closed
        have failed : ((TagStream.signature (.signing signer)).close pieces).2 = .error error :=
          congrArg Prod.snd closed
        exact .inr ⟨by simp, by simp [failed], congrArg Prod.fst closed⟩

/-- The end succeeds if there is a signature, which is then the tag, and else there is none. -/
theorem close_eq_ok_iff (pieces : List Bytes) :
    (stream.close pieces).2 = .ok () ↔ key.Signs pieces.flatten := by
  rcases close_of_startSigning started pieces with ⟨tag, made, closed, -⟩ | ⟨unmade, failed, -⟩
  · exact iff_of_true closed ⟨tag, made⟩
  · exact iff_of_false failed unmade

theorem tag_close_of_signature? {pieces : List Bytes} {tag : Bytes}
    (made : key.signature? pieces.flatten = some tag) : (stream.close pieces).1.tag = tag := by
  rcases close_of_startSigning started pieces with ⟨other, found, -, same⟩ | ⟨unmade, -⟩
  · rw [same, Option.some.inj (found.symm.trans made)]
  · exact absurd ⟨tag, made⟩ unmade

theorem tag_close_of_not_signs {pieces : List Bytes} (fails : ¬ key.Signs pieces.flatten) :
    (stream.close pieces).1.tag = [] := by
  rcases close_of_startSigning started pieces with ⟨tag, made, -⟩ | ⟨-, -, missing⟩
  · exact absurd ⟨tag, made⟩ fails
  · exact missing

end Started

/-- Signing and verifying streams announce the length that the type of their key does. -/
theorem tagLength_of_start
    (started : key.startSigning = .ok stream ∨ key.startVerifying = .ok stream) :
    stream.tagLength = key.keyType.outputSize key.size := by
  have whole (length : Nat) : length * 8 / 8 = length := Nat.mul_div_cancel _ (by decide)
  rw [startSigning, startVerifying] at started
  rw [keyType, size]
  cases material : key.material <;>
    rw [material] at started <;>
    rcases started with started | started <;>
    cases started <;>
    first
      | rfl
      | exact (whole _).symm

end Signing

end Key

/-- Signatures are as long as the types of keys say.  The keys that can sign are those whose type
allows it.  Their streams succeed at the end exactly if there is a signature of what was written.
Then the tag, which nothing changes later, has the length for the key, and otherwise there is none.
Keys of HMAC, and keys of RSA whose factors are different primes, sign everything.  A signer adds
five bytes to the tag.  At any time, signing and verifying streams tell the length that the type of
their key does. -/
theorem Key.signatures_measured :
    (∀ key : Key,
      (∃ stream, key.startSigning = .ok stream) ↔ key.keyType.supports .signAndVerify = true) ∧
    (∀ (key : Key) stream, key.startSigning = .ok stream → ∀ pieces : List Bytes,
      ((stream.close pieces).2 = .ok () ↔ key.Signs pieces.flatten) ∧
      (key.Signs pieces.flatten → key.Measures (stream.close pieces).1.tag) ∧
      (¬ key.Signs pieces.flatten → (stream.close pieces).1.tag = []) ∧
      ∀ last later, TagCall.Ends last →
        (run TagStream.serve stream
          (pieces.map (fun piece => .call (.write piece)) ++ last :: later)).1 =
            (stream.close pieces).1) ∧
    (∀ key : Key, (key.keyType = .hmacSha1 ∨ ∃ rsa, key.material = .rsaPrivate rsa ∧
      rsa.first.Prime ∧ rsa.second.Prime ∧ rsa.first ≠ rsa.second) →
        ∀ signed, key.Signs signed) ∧
    (∀ (signer : Signer) (key : Key), signer.ring.primary = .ok key → ∀ data,
      ((∃ signature, signer.sign data = .ok signature) ↔ key.Signs (data ++ [0])) ∧
      ∀ signature, signer.sign data = .ok signature →
        ∃ stream, key.startSigning = .ok stream ∧
          signature.length = 5 + (stream.close [data ++ [0]]).1.tag.length ∧
          key.Measures (stream.close [data ++ [0]]).1.tag) ∧
    ∀ (key : Key) stream, key.startSigning = .ok stream ∨ key.startVerifying = .ok stream →
      ∀ calls, (run TagStream.serve stream calls).1.tagLength =
        key.keyType.outputSize key.size := by
  refine ⟨fun key => exists_startSigning_iff, ?_, fun key => signs_of_primes, ?_, ?_⟩
  · intro key stream started pieces
    refine ⟨close_eq_ok_iff started pieces, ?_, tag_close_of_not_signs started, ?_⟩
    · rintro ⟨tag, made⟩
      rw [tag_close_of_signature? started made]
      exact measures_of_signature? made
    · intro last later ends
      exact (unfinished_of_startSigning started).run_ended pieces ends later
  · intro signer key primary data
    refine ⟨?_, ?_⟩
    · simp only [Signer.sign_eq_ok_iff primary, Signs, exists_comm, exists_and_left, exists_eq,
        and_true]
    · intro signature signed
      obtain ⟨tag, made, rfl⟩ := (Signer.sign_eq_ok_iff primary).mp signed
      have whole : key.signature? [data ++ [0]].flatten = some tag := by
        rwa [List.flatten_singleton]
      obtain ⟨stream, started⟩ := exists_startSigning_of_signature? made
      refine ⟨stream, started, ?_⟩
      rw [tag_close_of_signature? started whole, List.length_append]
      exact ⟨rfl, measures_of_signature? made⟩
  · intro key stream started calls
    rw [TagStream.tagLength_run, tagLength_of_start started]

/-- A plain signature of HMAC has 25 bytes, one of RSA with 1024 bits 133, and one of DSA with an
order of one byte 14.  What verifies those of RSA announces 128 bytes, without the header. -/
theorem Key.signatures_measured_sample :
    (∃ signature, (Signer.mk (Sample.singleRing .signAndVerify Sample.macKey .primary)).sign
      [104, 105] = .ok signature ∧ signature.length = 25) ∧
    (∃ signature, (Signer.mk (Sample.singleRing .signAndVerify Sample.rsaKey .primary)).sign
      [104, 105] = .ok signature ∧ signature.length = 133) ∧
    (∃ signature, (Signer.mk (Sample.singleRing .signAndVerify Sample.dsaKey .primary)).sign
      [104, 105] = .ok signature ∧ signature.length = 14) ∧
    ∀ calls, (run TagStream.serve (.signature (.verifying (.rsa Sample.rsa.publicKey)))
      calls).1.tagLength = 128 := by
  obtain ⟨-, -, everything, signing, announced⟩ := signatures_measured
  have rsaSigns := everything Sample.rsaKey (.inr ⟨Sample.rsa, rfl,
    (show Nat.Prime 65537 by norm_num), Sample.isPrime_prime, by decide +kernel⟩)
  have rsaSize : Sample.rsaKey.size / 8 = 128 := by decide +kernel
  refine ⟨?_, ?_, ?_, ?_⟩
  · obtain ⟨plain, measured⟩ := signing ⟨Sample.singleRing .signAndVerify Sample.macKey .primary⟩
      Sample.macKey rfl [104, 105]
    obtain ⟨signature, signed⟩ := plain.mpr (everything _ (.inl rfl) _)
    obtain ⟨stream, -, length, measures⟩ := measured signature signed
    exact ⟨signature, signed, by rw [length, measures.hmacSha1 rfl]⟩
  · obtain ⟨plain, measured⟩ := signing ⟨Sample.singleRing .signAndVerify Sample.rsaKey .primary⟩
      Sample.rsaKey rfl [104, 105]
    obtain ⟨signature, signed⟩ := plain.mpr (rsaSigns _)
    obtain ⟨stream, -, length, measures⟩ := measured signature signed
    exact ⟨signature, signed, by rw [length, (measures.rsaPrivate rfl).2, rsaSize]⟩
  · obtain ⟨plain, measured⟩ := signing ⟨Sample.singleRing .signAndVerify Sample.dsaKey .primary⟩
      Sample.dsaKey rfl [104, 105]
    obtain ⟨signature, signed⟩ := plain.mpr Sample.signs_dsa
    obtain ⟨stream, started, length, -⟩ := measured signature signed
    have made : Sample.dsaKey.signature? [[104, 105] ++ [0]].flatten =
        some (Dsa.Der.encode 113 161) := Sample.sign?_dsa
    have tagLength : (Dsa.Der.encode 113 161).length = 9 := by decide +kernel
    exact ⟨signature, signed, by rw [length, tag_close_of_signature? started made, tagLength]⟩
  · intro calls
    rw [announced Sample.rsaKey _ (.inr rfl)]
    exact rsaSize

end VersionedKeys
