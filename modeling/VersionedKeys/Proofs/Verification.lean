import VersionedKeys.Proofs.Artifact.Failure
import VersionedKeys.Proofs.Artifact.Layout
import VersionedKeys.Proofs.Rotation

/-!
# Verification

A ring whose keys can all verify accepts a signature exactly if one of the candidates
for its key hash does (`check_eq`), and refuses all others with one error.  From this
follows what each form of signature has to look like, and for authentication keys
exactly which byte strings verify: `Verifies.accepts_exactly_tagged`.
-/

namespace VersionedKeys

open Digest Streaming

namespace Key

/-- A key of a type that signs or verifies. -/
def CanVerify (key : Key) : Prop :=
  key.keyType.supports .signAndVerify = true ∨ key.keyType.supports .verify = true

/-- Whether a signature of some bytes is one of a key.  A key that cannot verify has
none. -/
def verifies (key : Key) (signed signature : Bytes) : Bool :=
  match key.material with
  | .hmacSha1 mac => signature.take sha1Size == sha1.hmac mac signed
  | .rsaPrivate rsa => Rsa.verify rsa.publicKey (sha1.digest signed) signature
  | .rsaPublic rsa => Rsa.verify rsa (sha1.digest signed) signature
  | .dsaPrivate dsa => Dsa.verify dsa.publicKey (sha1.digest signed) signature
  | .dsaPublic dsa => Dsa.verify dsa (sha1.digest signed) signature
  | .aes _ | .aesAead _ => false

end Key

namespace KeyRing

theorem accepts_eq {key : Key} (capable : key.CanVerify) (signed signature : Bytes) :
    accepts key signed signature = .ok (key.verifies signed signature) := by
  cases material : key.material with
  | hmacSha1 mac => rw [accepts_hmac material, Key.verifies, material]
  | rsaPrivate rsa | rsaPublic rsa | dsaPrivate dsa | dsaPublic dsa =>
      rw [accepts, Key.startVerifying, Key.verifies, material]
      rfl
  | aes aes | aesAead aes =>
      simp [Key.CanVerify, Key.keyType, material, Material.keyType, KeyType.supports,
        KeyType.purposes] at capable

/-- Keys are tried in turn, and none of them stands in the way of another. -/
theorem checkWith_eq {keys : List Key} (capable : ∀ key ∈ keys, key.CanVerify)
    (signed signature : Bytes) :
    checkWith signed signature keys =
      if keys.any (·.verifies signed signature) then .ok () else .error .invalidCryptoData := by
  induction keys with
  | nil => rfl
  | cons key keys inductionHypothesis =>
      have later := inductionHypothesis fun other membership =>
        capable other (List.mem_cons_of_mem _ membership)
      rw [checkWith, accepts_eq (capable key List.mem_cons_self), Outcome.ok_bind, later,
        List.any_cons]
      cases key.verifies signed signature <;> rfl

/-- A ring all of whose keys can verify. -/
def Verifying (ring : KeyRing) : Prop := ∀ entry ∈ ring.keys, entry.2.CanVerify

/-- One of the candidates for a hash accepts a signature of some bytes. -/
def Vouches (ring : KeyRing) (hash : KeyHash) (signed signature : Bytes) : Prop :=
  ∃ key ∈ ring.candidates hash, key.verifies signed signature = true

section Check

variable {ring : KeyRing} (verifying : ring.Verifying) (hash : KeyHash)
  (signed signature : Bytes)

include verifying

theorem check_eq :
    ring.check hash signed signature =
      if (ring.candidates hash).any (·.verifies signed signature) then .ok ()
      else .error .invalidCryptoData := by
  rw [check_eq_checkWith]
  apply checkWith_eq
  intro key candidate
  obtain ⟨-, version, membership, -⟩ := mem_candidates.mp candidate
  exact verifying _ membership

theorem check_eq_ok_iff :
    ring.check hash signed signature = .ok () ↔ ring.Vouches hash signed signature := by
  rw [check_eq verifying, Vouches, ← List.any_eq_true]
  cases (ring.candidates hash).any (·.verifies signed signature) <;> simp

theorem check_eq_ok_or :
    ring.check hash signed signature = .ok () ∨
      ring.check hash signed signature = .error .invalidCryptoData := by
  rw [check_eq verifying]
  cases (ring.candidates hash).any (·.verifies signed signature) <;> simp

end Check

end KeyRing

/-- Keys that are loaded to sign or to verify can verify. -/
theorem KeySource.Loads.verifying {source : KeySource} {purposes : List KeyPurpose}
    {ring : KeyRing} (loads : source.Loads purposes ring)
    (suited : ∀ purpose ∈ purposes, purpose = .signAndVerify ∨ purpose = .verify) :
    ring.Verifying := by
  have membership : source.metadata.purpose ∈ purposes :=
    List.contains_iff_mem.mp loads.purpose
  intro entry held
  have supported := loads.supports held
  rcases suited _ membership with purpose | purpose
  · exact .inl (purpose ▸ supported)
  · exact .inr (purpose ▸ supported)

theorem Signer.verifying_of_load {source : KeySource} {signer : Signer}
    (loaded : (load source).1 = .ok signer) : signer.ring.Verifying :=
  (loads_of_load loaded).verifying (by simp)

theorem Verifier.verifying_of_load {source : KeySource} {allowInactive : Bool}
    {verifier : Verifier} (loaded : (load source allowInactive).1 = .ok verifier) :
    verifier.ring.Verifying :=
  (loads_of_load loaded).verifying (by simp)

namespace Signed

theorem lengthPrefix_of_short {bytes : Bytes} (short : bytes.length < 2 ^ 32) :
    lengthPrefix bytes = .ok (Bytes.ofNat lengthSize bytes.length) :=
  if_pos short

theorem attached_eq {hidden : Bytes} (short : hidden.length < 2 ^ 32) (message : Bytes) :
    attached hidden message =
      .ok (Bytes.ofNat lengthSize hidden.length ++ hidden ++ message ++ [0]) := by
  rw [attached, lengthPrefix_of_short short]
  rfl

/-- A body splits into a message and what follows it exactly if the length of the message
stands in front. -/
theorem splitAttached_eq_ok_iff {body message rest : Bytes} :
    splitAttached body = .ok (message, rest) ↔
      message.length < 2 ^ 32 ∧
        body = Bytes.ofNat lengthSize message.length ++ message ++ rest := by
  constructor
  · intro split
    rw [splitAttached] at split
    split at split
    · cases split
    · next long =>
        rw [not_or, Nat.not_lt, Nat.not_lt, List.length_take] at long
        have width : (body.take lengthSize).length = lengthSize := by
          rw [List.length_take]
          omega
        have announced : Bytes.ofNat lengthSize (Bytes.toNat (body.take lengthSize)) =
            body.take lengthSize := by
          have digits := Bytes.ofNat_toNat (body.take lengthSize)
          rwa [width] at digits
        have small := Bytes.toNat_lt (body.take lengthSize)
        rw [width] at small
        cases split
        rw [List.length_take_of_le long.2, announced, List.append_assoc, List.take_append_drop,
          List.take_append_drop]
        exact ⟨small, rfl⟩
  · rintro ⟨short, rfl⟩
    have width : (Bytes.ofNat lengthSize message.length).length = lengthSize :=
      Bytes.length_ofNat _ _
    have announced : Bytes.toNat (Bytes.ofNat lengthSize message.length) = message.length := by
      rw [Bytes.toNat_ofNat]
      exact Nat.mod_eq_of_lt short
    rw [splitAttached, List.append_assoc, List.take_left' width, List.drop_left' width, announced]
    rw [if_neg (by simp [width]), List.take_left, List.drop_left]

/-- The message of an attached signature is what its length says, whoever made it. -/
theorem attachedData_eq {hash : KeyHash} {message rest : Bytes} (short : message.length < 2 ^ 32) :
    attachedData (Artifact.header hash ++
        (Bytes.ofNat lengthSize message.length ++ message ++ rest)) = .ok message := by
  have split := splitAttached_eq_ok_iff.mpr
    ⟨short, (rfl : _ = Bytes.ofNat lengthSize message.length ++ message ++ rest)⟩
  rw [attachedData, Artifact.parse_eq_ok_iff.mpr rfl, Outcome.ok_bind]
  exact congrArg (· >>= fun parts => .ok parts.1) split

theorem splitAttached_eq_error {body : Bytes} {error : Error}
    (refused : splitAttached body = .error error) : error = .invalidCryptoData := by
  rw [splitAttached] at refused
  split at refused <;> cases refused
  rfl

theorem toInt_ofTimeBytes (bytes : Bytes) :
    (ofTimeBytes bytes).toInt = (Bytes.toNat bytes : Int).bmod (2 ^ 64) := by
  simp [ofTimeBytes]

end Signed

namespace Verifies

variable {Holder : Type} [Verifies Holder] {holder : Holder}

/-- What is too short for a time, or has one that is past, is refused unseen. -/
theorem timeoutVerify_eq {signature body : Bytes} {hash : KeyHash}
    (parsed : Artifact.parse signature = .ok (hash, body)) (data : Bytes) (clock : Clock) :
    (timeoutVerify holder data signature clock).1 =
      if body.length < 8 ∨ (Bytes.toNat (body.take 8) : Int).bmod (2 ^ 64) < clock.now.toInt then
        .error .invalidCryptoData
      else (ring holder).check hash (Signed.timed (body.take 8) data) (body.drop 8) := by
  have width : Signed.timeSize = 8 := rfl
  have short : (body.take 8).length < 8 ↔ body.length < 8 := by
    rw [List.length_take]
    omega
  rw [timeoutVerify, parsed]
  simp only [width, short, Clock.read, Int64.lt_iff_toInt_lt, Signed.toInt_ofTimeBytes]
  by_cases missing : body.length < 8
  · rw [if_pos missing, if_pos (.inl missing)]
  · rw [if_neg missing]
    by_cases past : (Bytes.toNat (body.take 8) : Int).bmod (2 ^ 64) < clock.now.toInt
    · rw [if_pos past, if_pos (.inr past)]
    · rw [if_neg past, if_neg (by simp only [missing, past, or_self, not_false_eq_true])]

/-- An attached signature that is accepted consists of what is sent for its message, and of a
signature of what is signed for it and the hidden data. -/
theorem attachedVerify_eq_ok_iff_check {blob hidden message : Bytes} :
    attachedVerify holder blob hidden = .ok message ↔
      ∃ hash signed signature, message.length < 2 ^ 32 ∧
        Signed.attached hidden message = .ok signed ∧
        blob = Artifact.header hash ++
          (Bytes.ofNat Signed.lengthSize message.length ++ message ++ signature) ∧
        (ring holder).check hash signed signature = .ok () := by
  simp only [attachedVerify, Outcome.bind_eq_ok, Except.ok.injEq]
  constructor
  · rintro ⟨⟨hash, body⟩, parsed, ⟨found, signature⟩, split, signed, fed, nothing, checked, rfl⟩
    obtain ⟨short, rfl⟩ := Signed.splitAttached_eq_ok_iff.mp split
    exact ⟨hash, signed, signature, short, fed, Artifact.parse_eq_ok_iff.mp parsed, checked⟩
  · rintro ⟨hash, signed, signature, short, fed, layout, checked⟩
    exact ⟨_, Artifact.parse_eq_ok_iff.mpr layout, _,
      Signed.splitAttached_eq_ok_iff.mpr ⟨short, rfl⟩, signed, fed, (), checked, rfl⟩

section Forms

variable (verifying : (ring holder).Verifying)

include verifying

theorem verify_eq_ok_iff (data signature : Bytes) :
    verify holder data signature = .ok () ↔
      ∃ hash body, signature = Artifact.header hash ++ body ∧
        (ring holder).Vouches hash (data ++ [0]) body := by
  rw [verify, Outcome.bind_eq_ok]
  constructor
  · rintro ⟨⟨hash, body⟩, parsed, checked⟩
    exact ⟨hash, body, Artifact.parse_eq_ok_iff.mp parsed,
      (KeyRing.check_eq_ok_iff verifying _ _ _).mp checked⟩
  · rintro ⟨hash, body, equality, vouches⟩
    exact ⟨(hash, body), Artifact.parse_eq_ok_iff.mpr equality,
      (KeyRing.check_eq_ok_iff verifying _ _ _).mpr vouches⟩

theorem verify_eq_ok_or (data signature : Bytes) :
    verify holder data signature = .ok () ∨
      verify holder data signature = .error .invalidCryptoData := by
  rw [verify]
  cases parsed : Artifact.parse signature with
  | error error => exact .inr (by rw [Artifact.parse_eq_error parsed, Outcome.error_bind])
  | ok result => exact KeyRing.check_eq_ok_or verifying _ _ _

theorem attachedVerify_eq_ok_iff (blob : Bytes) {hidden : Bytes}
    (short : hidden.length < 2 ^ 32) (message : Bytes) :
    attachedVerify holder blob hidden = .ok message ↔
      ∃ hash signature, message.length < 2 ^ 32 ∧
        blob = Artifact.header hash ++
          (Bytes.ofNat 4 message.length ++ message ++ signature) ∧
        (ring holder).Vouches hash
          (Bytes.ofNat 4 hidden.length ++ hidden ++ message ++ [0]) signature := by
  rw [attachedVerify_eq_ok_iff_check, Signed.attached_eq short]
  simp only [KeyRing.check_eq_ok_iff verifying, Except.ok.injEq]
  constructor
  · rintro ⟨hash, signed, signature, small, rfl, layout, vouches⟩
    exact ⟨hash, signature, small, layout, vouches⟩
  · rintro ⟨hash, signature, small, layout, vouches⟩
    exact ⟨hash, _, signature, small, rfl, layout, vouches⟩

theorem attachedVerify_eq_ok_or (blob : Bytes) {hidden : Bytes}
    (short : hidden.length < 2 ^ 32) :
    (∃ message, attachedVerify holder blob hidden = .ok message) ∨
      attachedVerify holder blob hidden = .error .invalidCryptoData := by
  rw [attachedVerify]
  cases parsed : Artifact.parse blob with
  | error error => exact .inr (by rw [Artifact.parse_eq_error parsed, Outcome.error_bind])
  | ok result =>
      obtain ⟨hash, body⟩ := result
      dsimp only [Outcome.ok_bind]
      cases split : Signed.splitAttached body with
      | error error => exact .inr (by rw [Signed.splitAttached_eq_error split, Outcome.error_bind])
      | ok parts =>
          obtain ⟨message, signature⟩ := parts
          simp only [Outcome.ok_bind, Signed.attached_eq short]
          rcases KeyRing.check_eq_ok_or verifying hash
            (Bytes.ofNat Signed.lengthSize hidden.length ++ hidden ++ message ++ [0]) signature with
            checked | checked
          · exact .inl ⟨message, by rw [checked, Outcome.ok_bind]⟩
          · exact .inr (by rw [checked, Outcome.error_bind])

theorem timeoutVerify_eq_ok_iff (data signature : Bytes) (clock : Clock) :
    (timeoutVerify holder data signature clock).1 = .ok () ↔
      ∃ hash expiry rest, signature = Artifact.header hash ++ (expiry ++ rest) ∧
        expiry.length = 8 ∧ clock.now.toInt ≤ (Bytes.toNat expiry : Int).bmod (2 ^ 64) ∧
        (ring holder).Vouches hash (expiry ++ data ++ [0]) rest := by
  constructor
  · intro accepted
    cases parsed : Artifact.parse signature with
    | error error =>
        rw [timeoutVerify, parsed] at accepted
        cases accepted
    | ok result =>
        obtain ⟨hash, body⟩ := result
        rw [timeoutVerify_eq parsed] at accepted
        split at accepted
        · cases accepted
        · next inTime =>
            rw [not_or, Nat.not_lt, Int.not_lt] at inTime
            refine ⟨hash, body.take 8, body.drop 8, ?_, List.length_take_of_le inTime.1, inTime.2,
              (KeyRing.check_eq_ok_iff verifying _ _ _).mp accepted⟩
            rw [List.take_append_drop]
            exact Artifact.parse_eq_ok_iff.mp parsed
  · rintro ⟨hash, expiry, rest, equality, width, inTime, vouches⟩
    have expired : ¬ ((expiry ++ rest).length < 8 ∨
        (Bytes.toNat expiry : Int).bmod (2 ^ 64) < clock.now.toInt) := by
      rw [not_or, List.length_append]
      omega
    rw [timeoutVerify_eq (Artifact.parse_eq_ok_iff.mpr equality), List.take_left' width,
      List.drop_left' width, if_neg expired]
    exact (KeyRing.check_eq_ok_iff verifying _ _ _).mpr vouches

theorem timeoutVerify_eq_ok_or (data signature : Bytes) (clock : Clock) :
    (timeoutVerify holder data signature clock).1 = .ok () ∨
      (timeoutVerify holder data signature clock).1 = .error .invalidCryptoData := by
  cases parsed : Artifact.parse signature with
  | error error => exact .inr (by rw [timeoutVerify, parsed, Artifact.parse_eq_error parsed])
  | ok result =>
      rw [timeoutVerify_eq parsed]
      split
      · exact .inr rfl
      · exact KeyRing.check_eq_ok_or verifying _ _ _

end Forms

end Verifies

namespace KeyRing

/-- A version with a key hash, usable under its status, has an authentication key under
which some bytes have the given tag. -/
def Tags (ring : KeyRing) (hash : KeyHash) (signed tag : Bytes) : Prop :=
  ∃ version key mac, (version, key) ∈ ring.keys ∧
    (version.status = .primary ∨ version.status = .active ∨ ring.allowInactive = true) ∧
    key.hash = hash ∧ key.material = .hmacSha1 mac ∧ tag = sha1.hmac mac signed

variable {ring : KeyRing} (authenticates : ∀ entry ∈ ring.keys, entry.2.keyType = .hmacSha1)

include authenticates

theorem verifying_of_authenticates : ring.Verifying := by
  intro entry membership
  refine .inl ?_
  rw [authenticates entry membership]
  rfl

/-- What is accepted begins with a tag, and whatever follows the tag does not count. -/
theorem vouches_iff_tags {hash : KeyHash} {signed body : Bytes} :
    ring.Vouches hash signed body ↔
      ∃ tag rest, body = tag ++ rest ∧ tag.length = 20 ∧ ring.Tags hash signed tag := by
  constructor
  · rintro ⟨key, candidate, verifies⟩
    obtain ⟨same, version, membership, usable⟩ := mem_candidates.mp candidate
    have keyType : key.keyType = .hmacSha1 := authenticates _ membership
    obtain ⟨mac, material⟩ := Key.exists_mac keyType
    have found : body.take 20 = sha1.hmac mac signed := by
      simpa [Key.verifies, material, sha1Size] using verifies
    have width : (sha1.hmac mac signed).length = 20 := rfl
    exact ⟨body.take 20, body.drop 20, (List.take_append_drop _ _).symm, by rw [found, width],
      version, key, mac, membership, isUsable_eq_true_iff.mp usable, same, material, found⟩
  · rintro ⟨tag, rest, rfl, width, version, key, mac, membership, usable, same, material, rfl⟩
    have candidate : key ∈ ring.candidates hash :=
      mem_candidates.mpr ⟨same, version, membership, isUsable_eq_true_iff.mpr usable⟩
    refine ⟨key, candidate, ?_⟩
    rw [Key.verifies, material, beq_iff_eq]
    exact List.take_left' width

end KeyRing

namespace Verifies

section Authentication

variable {Holder : Type} [Verifies Holder] {holder : Holder}
  (authenticates : ∀ entry ∈ (ring holder).keys, entry.2.keyType = .hmacSha1)

include authenticates

theorem verify_eq_ok_iff_tags (data signature : Bytes) :
    verify holder data signature = .ok () ↔
      ∃ hash tag rest, signature = 0 :: hash.toBytes ++ tag ++ rest ∧ tag.length = 20 ∧
        (ring holder).Tags hash (data ++ [0]) tag := by
  rw [verify_eq_ok_iff (KeyRing.verifying_of_authenticates authenticates)]
  simp only [KeyRing.vouches_iff_tags authenticates, List.append_assoc]
  constructor
  · rintro ⟨hash, body, equality, tag, rest, rfl, tagged⟩
    exact ⟨hash, tag, rest, equality, tagged⟩
  · rintro ⟨hash, tag, rest, equality, tagged⟩
    exact ⟨hash, tag ++ rest, equality, tag, rest, rfl, tagged⟩

theorem attachedVerify_eq_ok_iff_tags (blob : Bytes) {hidden : Bytes}
    (short : hidden.length < 2 ^ 32) (message : Bytes) :
    attachedVerify holder blob hidden = .ok message ↔
      ∃ hash tag rest, message.length < 2 ^ 32 ∧
        blob = 0 :: hash.toBytes ++ Bytes.ofNat 4 message.length ++ message ++ tag ++ rest ∧
        tag.length = 20 ∧
        (ring holder).Tags hash (Bytes.ofNat 4 hidden.length ++ hidden ++ message ++ [0]) tag := by
  rw [attachedVerify_eq_ok_iff (KeyRing.verifying_of_authenticates authenticates) blob short]
  simp only [KeyRing.vouches_iff_tags authenticates, List.append_assoc]
  constructor
  · rintro ⟨hash, body, small, equality, tag, rest, rfl, tagged⟩
    exact ⟨hash, tag, rest, small, equality, tagged⟩
  · rintro ⟨hash, tag, rest, small, equality, tagged⟩
    exact ⟨hash, tag ++ rest, small, equality, tag, rest, rfl, tagged⟩

theorem timeoutVerify_eq_ok_iff_tags (data signature : Bytes) (clock : Clock) :
    (timeoutVerify holder data signature clock).1 = .ok () ↔
      ∃ hash expiry tag rest,
        signature = 0 :: hash.toBytes ++ expiry ++ tag ++ rest ∧ expiry.length = 8 ∧
        clock.now.toInt ≤ (Bytes.toNat expiry : Int).bmod (2 ^ 64) ∧ tag.length = 20 ∧
        (ring holder).Tags hash (expiry ++ data ++ [0]) tag := by
  rw [timeoutVerify_eq_ok_iff (KeyRing.verifying_of_authenticates authenticates)]
  simp only [KeyRing.vouches_iff_tags authenticates, List.append_assoc]
  constructor
  · rintro ⟨hash, expiry, body, equality, width, inTime, tag, rest, rfl, tagged⟩
    exact ⟨hash, expiry, tag, rest, equality, width, inTime, tagged⟩
  · rintro ⟨hash, expiry, tag, rest, equality, width, inTime, tagged⟩
    exact ⟨hash, expiry, tag ++ rest, equality, width, inTime, tag, rest, rfl, tagged⟩

/-- Over authentication keys, a signature of each of the three forms is accepted exactly if
its parts are there, and the tag among them is that of a usable key with the hash in
the header over the bytes of that form.  What follows the tag does not count.  A timed one
also has to hold a time that is not past, a signed number.  Everything else is refused
with one and the same error. -/
theorem accepts_exactly_tagged :
    (∀ data signature,
      (verify holder data signature = .ok () ↔
        ∃ hash tag rest, signature = 0 :: hash.toBytes ++ tag ++ rest ∧ tag.length = 20 ∧
          (ring holder).Tags hash (data ++ [0]) tag) ∧
      (verify holder data signature = .ok () ∨
        verify holder data signature = .error .invalidCryptoData)) ∧
    (∀ blob hidden, hidden.length < 2 ^ 32 →
      (∀ message, attachedVerify holder blob hidden = .ok message ↔
        ∃ hash tag rest, message.length < 2 ^ 32 ∧
          blob = 0 :: hash.toBytes ++ Bytes.ofNat 4 message.length ++ message ++ tag ++ rest ∧
          tag.length = 20 ∧
          (ring holder).Tags hash
            (Bytes.ofNat 4 hidden.length ++ hidden ++ message ++ [0]) tag) ∧
      ((∃ message, attachedVerify holder blob hidden = .ok message) ∨
        attachedVerify holder blob hidden = .error .invalidCryptoData)) ∧
    ∀ data signature clock,
      ((timeoutVerify holder data signature clock).1 = .ok () ↔
        ∃ hash expiry tag rest,
          signature = 0 :: hash.toBytes ++ expiry ++ tag ++ rest ∧ expiry.length = 8 ∧
          clock.now.toInt ≤ (Bytes.toNat expiry : Int).bmod (2 ^ 64) ∧ tag.length = 20 ∧
          (ring holder).Tags hash (expiry ++ data ++ [0]) tag) ∧
      ((timeoutVerify holder data signature clock).1 = .ok () ∨
        (timeoutVerify holder data signature clock).1 = .error .invalidCryptoData) := by
  have verifying := KeyRing.verifying_of_authenticates authenticates
  refine ⟨?_, ?_, ?_⟩
  · intro data signature
    exact ⟨verify_eq_ok_iff_tags authenticates data signature,
      verify_eq_ok_or verifying data signature⟩
  · intro blob hidden short
    exact ⟨attachedVerify_eq_ok_iff_tags authenticates blob short,
      attachedVerify_eq_ok_or verifying blob short⟩
  · intro data signature clock
    exact ⟨timeoutVerify_eq_ok_iff_tags authenticates data signature clock,
      timeoutVerify_eq_ok_or verifying data signature clock⟩

end Authentication

/-- A signer accepts its three forms of signatures with a byte too many.  The time of the
last one is minus one, which is not past then.  It does not accept nothing. -/
theorem accepts_exactly_tagged_sample :
    let ring := Sample.singleRing .signAndVerify Sample.macKey .primary
    let tag := sha1.hmac (List.replicate 32 3)
    let head := 0 :: Sample.macKey.hash.toBytes
    let expiry : Bytes := List.replicate 8 255
    (∀ entry ∈ ring.keys, entry.2.keyType = .hmacSha1) ∧
      verify (Signer.mk ring) [104, 105] (head ++ tag [104, 105, 0] ++ [9]) = .ok () ∧
      verify (Signer.mk ring) [104, 105] [] = .error .invalidCryptoData ∧
      attachedVerify (Verifier.mk ring)
        (head ++ [0, 0, 0, 2] ++ [104, 105] ++ tag [0, 0, 0, 1, 7, 104, 105, 0] ++ [9]) [7] =
          .ok [104, 105] ∧
      (timeoutVerify (Verifier.mk ring) [104, 105]
        (head ++ expiry ++ tag (expiry ++ [104, 105, 0]) ++ [9]) ⟨-1, 0⟩).1 = .ok () := by
  intro ring tag head expiry
  have authenticates : ∀ entry ∈ ring.keys, entry.2.keyType = .hmacSha1 := by
    intro entry membership
    rw [List.mem_singleton.mp membership]
    rfl
  have tagged (signed : Bytes) : ring.Tags Sample.macKey.hash signed (tag signed) :=
    ⟨⟨1, .primary, false⟩, Sample.macKey, List.replicate 32 3, List.mem_cons_self, .inl rfl, rfl,
      rfl, rfl⟩
  obtain ⟨plain, -, -⟩ := accepts_exactly_tagged
    (show ∀ entry ∈ (Verifies.ring (Signer.mk ring)).keys, _ from authenticates)
  obtain ⟨-, attached, timed⟩ := accepts_exactly_tagged
    (show ∀ entry ∈ (Verifies.ring (Verifier.mk ring)).keys, _ from authenticates)
  refine ⟨authenticates, ?_, ?_, ?_, ?_⟩
  · exact (plain _ _).1.mpr ⟨_, _, [9], rfl, rfl, tagged _⟩
  · rcases plain [104, 105] [] with ⟨form, accepted | refused⟩
    · obtain ⟨hash, tag, rest, equality, -⟩ := form.mp accepted
      cases equality
    · exact refused
  · exact ((attached _ [7] (by decide)).1 _).mpr ⟨_, _, [9], by decide, rfl, rfl, tagged _⟩
  · exact (timed _ _ _).1.mpr ⟨_, expiry, _, [9], rfl, rfl, by decide, rfl, tagged _⟩

end Verifies

end VersionedKeys
