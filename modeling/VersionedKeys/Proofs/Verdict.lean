import VersionedKeys.Proofs.Verification

/-!
# Verdicts

Whoever has been loaded to sign or to verify gives one of two answers about a signature: that
it is accepted, or the one error of all that is not.  It is accepted if one usable key with the
hash in the header accepts it, so neither the order of the keys nor the other keys count:
`Verifies.accepts_exactly_endorsed`.
-/

namespace VersionedKeys

open Digest

/-- The verifying stream of a key takes some bytes, and accepts the signature of them. -/
def Key.Accepts (key : Key) (signed signature : Bytes) : Prop :=
  ∃ stream fed, key.startVerifying = .ok stream ∧ stream.write signed = (fed, .ok ()) ∧
    (fed.verify signature).2 = .ok true

/-- A header and what follows it are told apart in one way only. -/
theorem Artifact.header_append_inj {left right : KeyHash} {body rest : Bytes}
    (equality : header left ++ body = header right ++ rest) : left = right ∧ body = rest := by
  have parsed := parse_eq_ok_iff.mpr equality
  rw [parse_eq_ok_iff.mpr rfl] at parsed
  cases parsed
  exact ⟨rfl, rfl⟩

/-- An outcome is a result that is accepted, and if there is none the one error of all that is
not. -/
structure Verdict {Result : Type} (outcome : Except Error Result) (accepted : Result → Prop) :
    Prop where
  ok_iff : ∀ result, outcome = .ok result ↔ accepted result
  decided : (∃ result, outcome = .ok result) ∨ outcome = .error .invalidCryptoData

namespace Verdict

variable {Result : Type} {outcome other : Except Error Result} {accepted : Result → Prop}

theorem refused (verdict : Verdict outcome accepted) (none : ∀ result, ¬ accepted result) :
    outcome = .error .invalidCryptoData := by
  rcases verdict.decided with ⟨result, success⟩ | failure
  · exact absurd ((verdict.ok_iff result).mp success) (none result)
  · exact failure

/-- What is accepted decides the outcome. -/
theorem unique (verdict : Verdict outcome accepted) (second : Verdict other accepted) :
    outcome = other := by
  rcases verdict.decided with ⟨result, success⟩ | failure
  · rw [success, (second.ok_iff result).mpr ((verdict.ok_iff result).mp success)]
  · have none : ∀ result, ¬ accepted result := by
      intro result holds
      rw [(verdict.ok_iff result).mpr holds] at failure
      cases failure
    rw [failure, second.refused none]

end Verdict

namespace KeyRing

theorem accepts_eq_ok_true_iff {key : Key} {signed signature : Bytes} :
    accepts key signed signature = .ok true ↔ key.Accepts signed signature := by
  rw [accepts, Outcome.bind_eq_ok]
  constructor
  · rintro ⟨stream, started, verified⟩
    obtain ⟨⟨⟩, written, verified⟩ := Outcome.bind_eq_ok.mp verified
    exact ⟨stream, _, started, Prod.ext rfl written, verified⟩
  · rintro ⟨stream, fed, started, written, verified⟩
    exact ⟨stream, started, by rw [written]; exact verified⟩

/-- A key that the ring has under a status that lets it be used. -/
def Usable (ring : KeyRing) (key : Key) : Prop :=
  ∃ version, (version, key) ∈ ring.keys ∧
    (version.status = .primary ∨ version.status = .active ∨ ring.allowInactive = true)

/-- A usable key with a hash accepts a signature of some bytes. -/
def Endorses (ring : KeyRing) (hash : KeyHash) (signed signature : Bytes) : Prop :=
  ∃ key, ring.Usable key ∧ key.hash = hash ∧ key.Accepts signed signature

/-- Two rings have the same usable keys with a hash. -/
def Alike (left right : KeyRing) (hash : KeyHash) : Prop :=
  ∀ key, key.hash = hash → (left.Usable key ↔ right.Usable key)

/-- A ring that has been loaded to sign or to verify. -/
inductive Opened : KeyRing → Prop
  | signer {source : KeySource} {signer : Signer}
      (loaded : (Signer.load source).1 = .ok signer) : Opened signer.ring
  | verifier {source : KeySource} {allowInactive : Bool} {verifier : Verifier}
      (loaded : (Verifier.load source allowInactive).1 = .ok verifier) : Opened verifier.ring

theorem Opened.verifying {ring : KeyRing} (opened : ring.Opened) : ring.Verifying := by
  cases opened with
  | signer loaded => exact Signer.verifying_of_load loaded
  | verifier loaded => exact Verifier.verifying_of_load loaded

theorem mem_candidates_iff_usable {ring : KeyRing} {hash : KeyHash} {key : Key} :
    key ∈ ring.candidates hash ↔ key.hash = hash ∧ ring.Usable key := by
  simp only [mem_candidates, Usable, isUsable_eq_true_iff]

theorem vouches_iff_endorses {ring : KeyRing} (verifying : ring.Verifying) {hash : KeyHash}
    {signed signature : Bytes} :
    ring.Vouches hash signed signature ↔ ring.Endorses hash signed signature := by
  have same : ∀ key, ring.Usable key →
      (key.verifies signed signature = true ↔ key.Accepts signed signature) := by
    rintro key ⟨version, membership, -⟩
    rw [← accepts_eq_ok_true_iff, accepts_eq (verifying _ membership), Except.ok.injEq]
  constructor
  · rintro ⟨key, candidate, verifies⟩
    obtain ⟨sameHash, usable⟩ := mem_candidates_iff_usable.mp candidate
    exact ⟨key, usable, sameHash, (same key usable).mp verifies⟩
  · rintro ⟨key, usable, sameHash, accepts⟩
    exact ⟨key, mem_candidates_iff_usable.mpr ⟨sameHash, usable⟩, (same key usable).mpr accepts⟩

theorem Alike.endorses_iff {left right : KeyRing} {hash : KeyHash} (alike : left.Alike right hash)
    {signed signature : Bytes} :
    left.Endorses hash signed signature ↔ right.Endorses hash signed signature := by
  constructor
  · rintro ⟨key, usable, sameHash, accepts⟩
    exact ⟨key, (alike key sameHash).mp usable, sameHash, accepts⟩
  · rintro ⟨key, usable, sameHash, accepts⟩
    exact ⟨key, (alike key sameHash).mpr usable, sameHash, accepts⟩

theorem verdict_check {ring : KeyRing} (verifying : ring.Verifying) (hash : KeyHash)
    (signed signature : Bytes) :
    Verdict (ring.check hash signed signature) fun _ => ring.Endorses hash signed signature where
  ok_iff _ := (check_eq_ok_iff verifying hash signed signature).trans
    (vouches_iff_endorses verifying)
  decided := (check_eq_ok_or verifying hash signed signature).imp (fun success => ⟨(), success⟩) id

theorem Alike.check_eq {left right : KeyRing} {hash : KeyHash} (alike : left.Alike right hash)
    (leftVerifying : left.Verifying) (rightVerifying : right.Verifying)
    (signed signature : Bytes) :
    left.check hash signed signature = right.check hash signed signature := by
  have verdict := verdict_check rightVerifying hash signed signature
  simp only [← alike.endorses_iff] at verdict
  exact (verdict_check leftVerifying hash signed signature).unique verdict

end KeyRing

namespace Verifies

variable {Holder : Type} [Verifies Holder] {holder : Holder}

section Forms

variable (verifying : (ring holder).Verifying)

include verifying

theorem verdict_verify (data signature : Bytes) :
    Verdict (verify holder data signature) fun _ =>
      ∃ hash body, signature = Artifact.header hash ++ body ∧
        (ring holder).Endorses hash (data ++ [0]) body where
  ok_iff _ := by
    simp only [← KeyRing.vouches_iff_endorses verifying]
    exact verify_eq_ok_iff verifying data signature
  decided := (verify_eq_ok_or verifying data signature).imp (fun success => ⟨(), success⟩) id

theorem verdict_attachedVerify (blob : Bytes) {hidden : Bytes}
    (short : hidden.length < 2 ^ 32) :
    Verdict (attachedVerify holder blob hidden) fun message =>
      ∃ hash signature, message.length < 2 ^ 32 ∧
        blob = Artifact.header hash ++
          (Bytes.ofNat 4 message.length ++ message ++ signature) ∧
        (ring holder).Endorses hash
          (Bytes.ofNat 4 hidden.length ++ hidden ++ message ++ [0]) signature where
  ok_iff message := by
    simp only [← KeyRing.vouches_iff_endorses verifying]
    exact attachedVerify_eq_ok_iff verifying blob short message
  decided := attachedVerify_eq_ok_or verifying blob short

theorem verdict_timeoutVerify (data signature : Bytes) (clock : Clock) :
    Verdict (timeoutVerify holder data signature clock).1 fun _ =>
      ∃ hash expiry rest, signature = Artifact.header hash ++ (expiry ++ rest) ∧
        expiry.length = 8 ∧ clock.now.toInt ≤ (Bytes.toNat expiry : Int).bmod (2 ^ 64) ∧
        (ring holder).Endorses hash (expiry ++ data ++ [0]) rest where
  ok_iff _ := by
    simp only [← KeyRing.vouches_iff_endorses verifying]
    exact timeoutVerify_eq_ok_iff verifying data signature clock
  decided := (timeoutVerify_eq_ok_or verifying data signature clock).imp
    (fun success => ⟨(), success⟩) id

end Forms

section Congruence

variable {Other : Type} [Verifies Other] {other : Other} {hash : KeyHash}
  (same : ∀ signed signature,
    (ring holder).check hash signed signature = (ring other).check hash signed signature)

include same

theorem verify_congr (data body : Bytes) :
    verify holder data (Artifact.header hash ++ body) =
      verify other data (Artifact.header hash ++ body) := by
  simp only [verify, Artifact.parse_eq_ok_iff.mpr rfl, Outcome.ok_bind, same]

theorem attachedVerify_congr (hidden body : Bytes) :
    attachedVerify holder (Artifact.header hash ++ body) hidden =
      attachedVerify other (Artifact.header hash ++ body) hidden := by
  simp only [attachedVerify, Artifact.parse_eq_ok_iff.mpr rfl, Outcome.ok_bind, same]

theorem timeoutVerify_congr (data body : Bytes) (clock : Clock) :
    timeoutVerify holder data (Artifact.header hash ++ body) clock =
      timeoutVerify other data (Artifact.header hash ++ body) clock := by
  simp only [timeoutVerify, Artifact.parse_eq_ok_iff.mpr rfl, same]

end Congruence

/-- Whoever has been loaded to sign or to verify says one of two things about a signature of any
form.  It is accepted exactly if its parts are there, a timed one is not past, and a usable
key with the hash in its header has a verifying stream that takes the bytes of that form and
accepts what is left of the signature.  Only the usable keys with that hash count, in whatever
order they are tried, and if there are none the answer is that to a bad signature. -/
theorem accepts_exactly_endorsed (opened : (ring holder).Opened) :
    (∀ data signature, Verdict (verify holder data signature) fun _ =>
      ∃ hash body, signature = Artifact.header hash ++ body ∧
        (ring holder).Endorses hash (data ++ [0]) body) ∧
    (∀ blob hidden, hidden.length < 2 ^ 32 → Verdict (attachedVerify holder blob hidden)
      fun message => ∃ hash signature, message.length < 2 ^ 32 ∧
        blob = Artifact.header hash ++
          (Bytes.ofNat 4 message.length ++ message ++ signature) ∧
        (ring holder).Endorses hash
          (Bytes.ofNat 4 hidden.length ++ hidden ++ message ++ [0]) signature) ∧
    (∀ data signature clock, Verdict (timeoutVerify holder data signature clock).1 fun _ =>
      ∃ hash expiry rest, signature = Artifact.header hash ++ (expiry ++ rest) ∧
        expiry.length = 8 ∧ clock.now.toInt ≤ (Bytes.toNat expiry : Int).bmod (2 ^ 64) ∧
        (ring holder).Endorses hash (expiry ++ data ++ [0]) rest) ∧
    (∀ {Other : Type} [Verifies Other] (other : Other), (ring other).Opened →
      ∀ hash, (ring holder).Alike (ring other) hash → ∀ body,
        (∀ data, verify holder data (Artifact.header hash ++ body) =
          verify other data (Artifact.header hash ++ body)) ∧
        (∀ hidden, attachedVerify holder (Artifact.header hash ++ body) hidden =
          attachedVerify other (Artifact.header hash ++ body) hidden) ∧
        ∀ data clock, timeoutVerify holder data (Artifact.header hash ++ body) clock =
          timeoutVerify other data (Artifact.header hash ++ body) clock) ∧
    ∀ hash, (∀ key, (ring holder).Usable key → key.hash ≠ hash) → ∀ body,
      (∀ data, verify holder data (Artifact.header hash ++ body) = .error .invalidCryptoData) ∧
      (∀ hidden, hidden.length < 2 ^ 32 →
        attachedVerify holder (Artifact.header hash ++ body) hidden =
          .error .invalidCryptoData) ∧
      ∀ data clock, (timeoutVerify holder data (Artifact.header hash ++ body) clock).1 =
        .error .invalidCryptoData := by
  have verifying := opened.verifying
  refine ⟨verdict_verify verifying, fun blob hidden short => verdict_attachedVerify verifying blob
    short, verdict_timeoutVerify verifying, ?_, ?_⟩
  · intro Other _ other otherOpened hash alike body
    have same := alike.check_eq verifying otherOpened.verifying
    exact ⟨fun data => verify_congr same data body,
      fun hidden => attachedVerify_congr same hidden body,
      fun data clock => timeoutVerify_congr same data body clock⟩
  · intro hash unknown body
    have refuses {found : KeyHash} {rest signed signature : Bytes}
        (equality : Artifact.header hash ++ body = Artifact.header found ++ rest) :
        ¬ (ring holder).Endorses found signed signature := by
      rintro ⟨key, usable, sameHash, -⟩
      exact unknown key usable (sameHash.trans (Artifact.header_append_inj equality).1.symm)
    refine ⟨fun data => (verdict_verify verifying _ _).refused ?_,
      fun hidden short => (verdict_attachedVerify verifying _ short).refused ?_,
      fun data clock => (verdict_timeoutVerify verifying _ _ _).refused ?_⟩
    · rintro - ⟨found, rest, equality, endorses⟩
      exact refuses equality endorses
    · rintro message ⟨found, signature, -, equality, endorses⟩
      exact refuses equality endorses
    · rintro - ⟨found, expiry, rest, equality, -, -, endorses⟩
      exact refuses equality endorses

/-- A signer accepts a signature with its key, so a verifier that knows the key as an inactive
one accepts it too.  Neither accepts what is said to be of a key that they do not know. -/
theorem accepts_exactly_endorsed_sample :
    let signer : Signer := ⟨Sample.singleRing .signAndVerify Sample.macKey .primary⟩
    let inactive : Verifier :=
      ⟨{ Sample.singleRing .signAndVerify Sample.macKey .inactive with allowInactive := true }⟩
    let signature := Artifact.header Sample.macKey.hash ++
      sha1.hmac (List.replicate 32 3) [104, 105, 0]
    verify signer [104, 105] signature = .ok () ∧
      verify inactive [104, 105] signature = .ok () ∧
      verify signer [104, 105] (Artifact.header Sample.key.hash ++ [9]) =
        .error .invalidCryptoData ∧
      (timeoutVerify inactive [104, 105] [] ⟨-1, 0⟩).1 = .error .invalidCryptoData := by
  intro signer inactive signature
  have usable : (ring signer).Usable Sample.macKey :=
    ⟨⟨1, .primary, false⟩, List.mem_cons_self, .inl rfl⟩
  have only {key : Key} (usable : (ring signer).Usable key) : key = Sample.macKey := by
    obtain ⟨version, membership, -⟩ := usable
    exact (Prod.mk.inj (List.mem_singleton.mp membership)).2
  have alike : (ring signer).Alike (ring inactive) Sample.macKey.hash := by
    intro key _
    constructor
    · intro usable
      rw [only usable]
      exact ⟨⟨1, .inactive, false⟩, List.mem_cons_self, .inr (.inr rfl)⟩
    · rintro ⟨version, membership, -⟩
      rw [(Prod.mk.inj (List.mem_singleton.mp membership)).2]
      exact usable
  have accepted := KeyRing.accepts_hmac_self (show Sample.macKey.material = .hmacSha1 _ from rfl)
    [104, 105, 0]
  have signerOpened : (ring signer).Opened := .signer (Sample.load_signer_single .primary)
  have verifierOpened : (ring inactive).Opened := .verifier (Sample.load_verifier_single .inactive)
  obtain ⟨plain, -, -, independent, unknown⟩ := accepts_exactly_endorsed signerOpened
  obtain ⟨-, -, timed, -, -⟩ := accepts_exactly_endorsed verifierOpened
  have success : verify signer [104, 105] signature = .ok () :=
    ((plain [104, 105] signature).ok_iff ()).mpr
      ⟨Sample.macKey.hash, _, rfl, Sample.macKey, usable, rfl,
        KeyRing.accepts_eq_ok_true_iff.mp accepted⟩
  refine ⟨success, ?_, ?_, ?_⟩
  · rw [← success]
    exact ((independent inactive verifierOpened _ alike _).1 _).symm
  · refine (unknown Sample.key.hash ?_ [9]).1 _
    intro key usable
    rw [only usable]
    decide +kernel
  · refine (timed [104, 105] [] ⟨-1, 0⟩).refused ?_
    rintro - ⟨hash, expiry, rest, equality, -⟩
    cases equality

end Verifies

end VersionedKeys
