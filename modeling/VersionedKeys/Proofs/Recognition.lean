import Mathlib.NumberTheory.LucasPrimality
import Mathlib.Tactic.NormNum.Prime
import VersionedKeys.Proofs.Digest.Schedule
import VersionedKeys.Proofs.Dsa.Signature
import VersionedKeys.Proofs.Key.Reading
import VersionedKeys.Proofs.Pairs
import VersionedKeys.Proofs.Verdict

/-!
# Signatures that verify

Whatever a signer signs is accepted by whoever can use the key it was signed with, or its
public half as it is read back: `Signer.signatures_verify`.  A timed signature is accepted up
to its time, and refused after it.
-/

namespace VersionedKeys

open Digest

namespace Key

/-- The other key is the key itself, or its public half read back from its bytes, of which there
are no more than can be counted. -/
def SharedAs (key other : Key) : Prop :=
  other = key ∨ ∃ half, key.public? = some half ∧ half.toBytes.length < 2 ^ 64 ∧
    read half.keyType half.toBytes = .ok other

theorem SharedAs.pairs {key other : Key} (shared : key.SharedAs other) : key.Pairs other := by
  rcases shared with same | ⟨half, found, countable, restored⟩
  · exact .inl same
  · rw [read_toBytes countable] at restored
    cases restored
    exact .inr found

theorem verifiable_of_genuine {key : Key}
    (genuine : ∀ dsa, key.material = .dsaPrivate dsa → dsa.Genuine) : key.Verifiable := by
  intro dsa material digest signature made
  have size : key.size = Bytes.bitLength dsa.publicKey.prime := by
    rw [Key.size, material, Material.size]
  have bound : key.size = 1024 := by
    have member := key.size_mem_sizes
    rw [keyType, material] at member
    exact List.mem_singleton.mp member
  exact (genuine dsa material).verify_of_sign? (by omega) made

end Key

theorem Signed.toInt_timeBytes (time : Int64) :
    (Bytes.toNat (timeBytes time) : Int).bmod (2 ^ 64) = time.toInt := by
  have value : Bytes.toNat (timeBytes time) = time.toUInt64.toNat := by
    rw [timeBytes, Bytes.toNat_ofNat]
    exact Nat.mod_eq_of_lt time.toUInt64.toNat_lt
  rw [value]
  exact (BitVec.toInt_eq_toNat_bmod time.toBitVec).symm

namespace Signer

variable {signer : Signer} {key : Key} (primary : signer.ring.primary = .ok key)

include primary

theorem attachedSign_eq_ok_iff {message hidden : Bytes} (messageShort : message.length < 2 ^ 32)
    (hiddenShort : hidden.length < 2 ^ 32) {blob : Bytes} :
    signer.attachedSign message hidden = .ok blob ↔
      ∃ tag, key.signature? (Bytes.ofNat 4 hidden.length ++ hidden ++ message ++ [0]) = some tag ∧
        blob = Artifact.header key.hash ++ (Bytes.ofNat 4 message.length ++ message ++ tag) := by
  rw [attachedSign, Signed.attached_eq hiddenShort, Signed.lengthPrefix_of_short messageShort,
    Outcome.ok_bind, Outcome.ok_bind, KeyRing.sign_eq_ok_iff primary]
  simp only [List.append_assoc]
  rfl

theorem timeoutSign_eq_ok_iff {data signature : Bytes} {expiry : Int64} :
    signer.timeoutSign data expiry = .ok signature ↔
      ∃ tag, key.signature? (Signed.timeBytes expiry ++ data ++ [0]) = some tag ∧
        signature = Artifact.header key.hash ++ (Signed.timeBytes expiry ++ tag) := by
  rw [timeoutSign, KeyRing.sign_eq_ok_iff primary]
  simp only [List.append_assoc]
  rfl

end Signer

namespace Verifies

variable {Holder : Type} [Verifies Holder] {holder : Holder} {signer : Signer} {key other : Key}
  (verifying : (ring holder).Verifying) (primary : signer.ring.primary = .ok key)
  (verifiable : key.Verifiable) (pairs : key.Pairs other)
  (usable : other ∈ (ring holder).candidates other.hash)

include verifying primary verifiable pairs usable

theorem attachedVerify_of_attachedSign {message hidden blob : Bytes}
    (messageShort : message.length < 2 ^ 32) (hiddenShort : hidden.length < 2 ^ 32)
    (signed : signer.attachedSign message hidden = .ok blob) :
    attachedVerify holder blob hidden = .ok message ∧ Signed.attachedData blob = .ok message := by
  obtain ⟨tag, made, rfl⟩ :=
    (Signer.attachedSign_eq_ok_iff primary messageShort hiddenShort).mp signed
  constructor
  · exact (attachedVerify_eq_ok_iff verifying _ hiddenShort message).mpr
      ⟨key.hash, tag, messageShort, rfl,
        KeyRing.vouches_of_signature? verifiable pairs usable made⟩
  · exact Signed.attachedData_eq messageShort

/-- A timed signature is accepted as long as its time is not past. -/
theorem timeoutVerify_of_timeoutSign {data signature : Bytes} {expiry : Int64}
    (signed : signer.timeoutSign data expiry = .ok signature) (clock : Clock) :
    (timeoutVerify holder data signature clock).1 =
      if clock.now ≤ expiry then .ok () else .error .invalidCryptoData := by
  obtain ⟨tag, made, rfl⟩ := (Signer.timeoutSign_eq_ok_iff primary).mp signed
  have width : (Signed.timeBytes expiry).length = 8 := Bytes.length_ofNat _ _
  have long : ¬ (Signed.timeBytes expiry ++ tag).length < 8 := by
    rw [List.length_append]
    omega
  rw [timeoutVerify_eq (Artifact.parse_eq_ok_iff.mpr rfl), List.take_left' width,
    List.drop_left' width, Signed.toInt_timeBytes]
  by_cases inTime : clock.now ≤ expiry
  · rw [if_pos inTime, if_neg (by
      rw [not_or, Int.not_lt]
      exact ⟨long, Int64.le_iff_toInt_le.mp inTime⟩)]
    exact (KeyRing.check_eq_ok_iff verifying _ _ _).mpr
      (KeyRing.vouches_of_signature? verifiable pairs usable made)
  · have past : expiry.toInt < clock.now.toInt := by
      rw [← Int.not_le, ← Int64.le_iff_toInt_le]
      exact inTime
    rw [if_neg inTime, if_pos (.inr past)]

end Verifies

/-- Whoever can use the key a signer signs with, or its public half as it is read back, accepts
all three forms of its signatures, and a timed one until its time is past.  A signer signs what
there is a signature of under its key.  Keys that authenticate, and those of RSA whose factors are
different primes, sign everything, and for other keys their numbers decide.  Where there is no
signature signing ends in one error, or under a key of DSA does not come back.  Of a key of DSA it
is assumed that its public half accepts what it signs, as that of a genuine one does
(`Key.verifiable_of_genuine`). -/
theorem Signer.signatures_verify {Holder : Type} [Verifies Holder] {holder : Holder}
    {signer : Signer} {key other : Key} (opened : (Verifies.ring holder).Opened)
    (primary : signer.ring.primary = .ok key)
    (signs : key.keyType = .hmacSha1 ∨ key.keyType = .rsaPrivate ∨ key.keyType = .dsaPrivate)
    (shared : key.SharedAs other) (usable : (Verifies.ring holder).Usable other)
    (verifiable : key.Verifiable) :
    (∀ data,
      key.SigningEnds (data ++ [0]) (signer.sign data) ∧
      ∀ signature, signer.sign data = .ok signature →
        Verifies.verify holder data signature = .ok ()) ∧
    (∀ message hidden, message.length < 2 ^ 32 → hidden.length < 2 ^ 32 →
      key.SigningEnds (Bytes.ofNat 4 hidden.length ++ hidden ++ message ++ [0])
        (signer.attachedSign message hidden) ∧
      ∀ blob, signer.attachedSign message hidden = .ok blob →
        Verifies.attachedVerify holder blob hidden = .ok message ∧
        Signed.attachedData blob = .ok message) ∧
    (∀ data expiry,
      key.SigningEnds (Signed.timeBytes expiry ++ data ++ [0]) (signer.timeoutSign data expiry) ∧
      ∀ signature, signer.timeoutSign data expiry = .ok signature → ∀ clock,
        (Verifies.timeoutVerify holder data signature clock).1 =
          if clock.now ≤ expiry then .ok () else .error .invalidCryptoData) ∧
    ∀ signed, key.SignsWhere signed := by
  have verifying := opened.verifying
  have pairs := shared.pairs
  have candidate : other ∈ (Verifies.ring holder).candidates other.hash :=
    KeyRing.mem_candidates_iff_usable.mpr ⟨rfl, usable⟩
  have supported : key.keyType.supports .signAndVerify = true := by
    rcases signs with type | type | type <;> rw [type] <;> rfl
  have ends := KeyRing.signingEnds primary supported
  refine ⟨?_, ?_, ?_, key.signsWhere⟩
  · intro data
    refine ⟨ends _ _, fun signature signed => ?_⟩
    exact Verifies.verify_of_sign verifying primary verifiable pairs candidate signed
  · intro message hidden messageShort hiddenShort
    refine ⟨?_, fun blob signed => ?_⟩
    · rw [attachedSign, Signed.attached_eq hiddenShort, Signed.lengthPrefix_of_short messageShort]
      exact ends _ _
    · exact Verifies.attachedVerify_of_attachedSign verifying primary verifiable pairs candidate
        messageShort hiddenShort signed
  · intro data expiry
    refine ⟨ends _ _, fun signature signed clock => ?_⟩
    exact Verifies.timeoutVerify_of_timeoutSign verifying primary verifiable pairs candidate
      signed clock

/-- A number is prime if one less is the order of a base. -/
theorem Number.prime_of_powMod {prime base : Nat} (several : 1 < prime)
    (whole : powMod base (prime - 1) prime = 1)
    (parts : ∀ divisor, divisor.Prime → divisor ∣ prime - 1 →
      powMod base ((prime - 1) / divisor) prime ≠ 1) : prime.Prime := by
  have pow_eq_one_iff (exponent : Nat) :
      (base : ZMod prime) ^ exponent = 1 ↔ powMod base exponent prime = 1 := by
    have residues := ZMod.natCast_eq_natCast_iff (base ^ exponent) 1 prime
    rwa [Nat.cast_pow, Nat.cast_one, Nat.ModEq, Nat.mod_eq_of_lt several, ← powMod_eq]
      at residues
  refine lucas_primality prime base ((pow_eq_one_iff _).mpr whole) ?_
  intro divisor isPrime divides equality
  exact parts divisor isPrime divides ((pow_eq_one_iff _).mp equality)

namespace Sample

/-- A prime that is one more than thirteen times a power of two. -/
def prime : Nat := 13 * 2 ^ 1000 + 1

theorem isPrime_prime : prime.Prime := by
  refine Number.prime_of_powMod (by decide +kernel) (show Number.powMod 6 _ _ = 1 by decide +kernel)
    ?_
  intro divisor isPrime divides
  have factors : prime - 1 = 13 * 2 ^ 1000 := by decide +kernel
  rw [factors, isPrime.dvd_mul] at divides
  rcases divides with thirteen | power
  · rw [(Nat.prime_dvd_prime_iff_eq isPrime (by norm_num)).mp thirteen]
    decide +kernel
  · rw [(Nat.prime_dvd_prime_iff_eq isPrime Nat.prime_two).mp (isPrime.dvd_of_dvd_pow power)]
    decide +kernel

def rsa : Rsa.PrivateKey :=
  ⟨⟨65537 * prime, 3, by decide +kernel⟩, (26 * 2 ^ 1000 + 1) / 3, 65537, prime,
    by decide +kernel⟩

def rsaKey : Key := ⟨.rsaPrivate rsa, by decide +kernel⟩

def rsaHalf : Key := ⟨.rsaPublic rsa.publicKey, rsaKey.acceptable⟩

/-- A small key whose modulus is just long enough to be allowed. -/
def dsa : Dsa.PrivateKey :=
  ⟨⟨19 ^ 241 - 1, 241, 19, 19 ^ 5, by decide +kernel⟩, 5, by decide⟩

def dsaKey : Key := ⟨.dsaPrivate dsa, by decide +kernel⟩

def dsaHalf : Key := ⟨.dsaPublic dsa.publicKey, dsaKey.acceptable⟩

theorem genuine_dsa : dsa.Genuine where
  order_prime := show Nat.Prime 241 by norm_num
  order_lt := by decide +kernel
  generator_pow_order := by decide +kernel
  value_eq := by decide +kernel

/-- Another key with that secret exponent and that order, and a prime as its large modulus. -/
def stubbornDsa : Dsa.PrivateKey :=
  let prime := 241 * 2695 * 2 ^ 1004 + 1
  ⟨⟨prime, 241, Number.powMod 4 (2695 * 2 ^ 1004) prime,
    Number.powMod 4 (5 * 2695 * 2 ^ 1004) prime, by decide +kernel⟩, 5, by decide⟩

def stubbornKey : Key := ⟨.dsaPrivate stubbornDsa, by decide +kernel⟩

theorem genuine_stubbornDsa : stubbornDsa.Genuine where
  order_prime := show Nat.Prime 241 by norm_num
  order_lt := by decide +kernel
  generator_pow_order := by decide +kernel
  value_eq := by decide +kernel

/-- With an order of eight bits the first byte of a digest is all that is signed. -/
theorem digestNumber_eq {key : Dsa.PublicKey} (order : key.order = 241) :
    key.digestNumber (sha1.digest [104, 105, 0]) = 89 := by
  have width : Bytes.bitLength 241 / 8 = 1 := by decide +kernel
  rw [Dsa.PublicKey.digestNumber, Dsa.PublicKey.orderLength, order, width, sha1_eq_listSha1]
  decide +kernel

/-- What the generator of nonces is made of for a secret exponent and a digest of one byte each. -/
theorem ofSeed_sample :
    (Dsa.Generator.ofSeed [5, 89]).key =
        [111, 233, 202, 8, 234, 165, 3, 58, 189, 52, 26, 238, 198, 167, 74, 22, 119, 166, 244, 81] ∧
      (Dsa.Generator.ofSeed [5, 89]).value =
        [133, 213, 4, 18, 233, 29, 37, 231, 44, 197, 122, 54, 75, 152, 86, 236, 66, 253, 223,
          173] := by
  simp only [Dsa.Generator.ofSeed, Dsa.Generator.stir, sha1_eq_listSha1]
  decide +kernel

/-- The nonce of a signature depends on the secret exponent and the order, and on no other numbers
of a key. -/
theorem nonce?_eq {key : Dsa.PrivateKey} (order : key.publicKey.order = 241)
    (secret : key.secret = 5) : key.nonce? (sha1.digest [104, 105, 0]) = some (34, 78) := by
  have width : Bytes.bitLength 241 / 8 = 1 := by decide +kernel
  have seed : Bytes.ofNatMinimal 5 ++ Bytes.ofNat 1 (89 % 241) = [5, 89] := by decide +kernel
  have drawn : ((Dsa.Generator.ofSeed [5, 89]).draw 1).1 = [34] := by
    rw [Dsa.Generator.draw_of_short _ (by decide) (by decide), ofSeed_sample.1, ofSeed_sample.2,
      sha1_eq_listSha1]
    decide +kernel
  have admitted : Dsa.nonceOf? 241 [34] = some (34, 78) := by decide +kernel
  refine Dsa.PrivateKey.nonce?_eq_some_iff.mpr ⟨0, ?_, by simp⟩
  rw [Dsa.Generator.drawnAfter, Function.iterate_zero_apply, Dsa.PrivateKey.generator,
    digestNumber_eq order, Dsa.PublicKey.orderLength, order, secret, width, seed, drawn, admitted]

theorem sign?_dsa :
    Dsa.sign? dsa (sha1.digest [104, 105, 0]) = some (Dsa.Der.encode 113 161) := by
  have first : dsa.publicKey.firstNumber 34 = 113 := by decide +kernel
  have second : dsa.secondNumber (sha1.digest [104, 105, 0]) 34 78 = 161 := by
    rw [Dsa.PrivateKey.secondNumber, digestNumber_eq rfl, first]
    rfl
  refine Dsa.sign?_eq_some_iff.mpr ⟨34, 78, nonce?_eq rfl rfl, ?_, ?_, ?_⟩
  · rw [first]
    decide
  · rw [second]
    decide
  · rw [first, second]

theorem signs_dsa : dsaKey.Signs [104, 105, 0] := ⟨_, sign?_dsa⟩

theorem verifiable_dsa : dsaKey.Verifiable := Key.verifiable_of_genuine fun dsa material => by
  cases material
  exact genuine_dsa

theorem signWith?_stubbornDsa :
    stubbornDsa.signWith? (sha1.digest [104, 105, 0]) 34 78 = none := by
  refine Dsa.PrivateKey.signWith?_of_secondNumber ?_
  rw [Dsa.PrivateKey.secondNumber, digestNumber_eq rfl]
  decide +kernel

theorem verifiable_stubbornDsa : stubbornKey.Verifiable :=
  Key.verifiable_of_genuine fun _ material =>
    Material.dsaPrivate.inj material ▸ genuine_stubbornDsa

theorem opened_half {half : Key} (suited : half.keyType.supports .verify = true)
    (countable : half.toBytes.length < 2 ^ 64) :
    KeyRing.Opened (singleRing .verify half .active) := by
  have loaded : (Verifier.load (.stored (single .verify half .active)) false).1 =
      .ok ⟨singleRing .verify half .active⟩ := by
    rw [Verifier.load, Prod.map_fst, loadRing_single suited (Key.read_toBytes countable) rfl]
    rfl
  exact .verifier loaded

end Sample

/-- There is data that a genuine key of DSA does not sign: the second number of the signature
would be zero. -/
theorem Signer.sign_of_stubborn :
    let signer : Signer := ⟨Sample.singleRing .signAndVerify Sample.stubbornKey .primary⟩
    Sample.stubbornKey.Verifiable ∧
      signer.sign [104, 105] = .error .invalidCryptoData ∧
      ¬ ∀ data, ∃ signature, signer.sign data = .ok signature ∧
        Verifies.verify signer data signature = .ok () := by
  intro signer
  have refused : signer.sign [104, 105] = .error .invalidCryptoData :=
    KeyRing.sign_dsa_of_refused (show signer.ring.primary = .ok Sample.stubbornKey from rfl) rfl
      (Sample.nonce?_eq rfl rfl) Sample.signWith?_stubbornDsa []
  refine ⟨Sample.verifiable_stubbornDsa, refused, fun always => ?_⟩
  obtain ⟨signature, signed, -⟩ := always [104, 105]
  cases refused.symm.trans signed

/-- A verifier with the public half of a key of RSA accepts what a signer with the private one
signs.  At the ends of time, what is valid up to the first moment is valid then, and no longer
at the last.  It is the same with a key of DSA. -/
theorem Signer.signatures_verify_sample :
    let signer : Signer := ⟨Sample.singleRing .signAndVerify Sample.rsaKey .primary⟩
    let verifier : Verifier := ⟨Sample.singleRing .verify Sample.rsaHalf .active⟩
    (∃ signature, signer.sign [104, 105] = .ok signature ∧
      Verifies.verify verifier [104, 105] signature = .ok ()) ∧
    (∃ blob, signer.attachedSign [104, 105] [7] = .ok blob ∧
      Verifies.attachedVerify verifier blob [7] = .ok [104, 105]) ∧
    (∃ signature, signer.timeoutSign [104, 105] Int64.minValue = .ok signature ∧
      (Verifies.timeoutVerify verifier [104, 105] signature ⟨Int64.minValue, 0⟩).1 = .ok () ∧
      (Verifies.timeoutVerify verifier [104, 105] signature ⟨Int64.maxValue, 0⟩).1 =
        .error .invalidCryptoData) ∧
    ∃ signature,
      (Signer.mk (Sample.singleRing .signAndVerify Sample.dsaKey .primary)).sign [104, 105] =
        .ok signature ∧
      Verifies.verify (Verifier.mk (Sample.singleRing .verify Sample.dsaHalf .active)) [104, 105]
        signature = .ok () := by
  intro signer verifier
  have rsaCountable : Sample.rsaHalf.toBytes.length < 2 ^ 64 := by decide +kernel
  have rsaOpened : (Verifies.ring verifier).Opened := Sample.opened_half rfl rsaCountable
  have rsaShared : Sample.rsaKey.SharedAs Sample.rsaHalf :=
    .inr ⟨Sample.rsaHalf, rfl, rsaCountable, Key.read_toBytes rsaCountable⟩
  have rsaVerifiable : Sample.rsaKey.Verifiable :=
    Key.verifiable_of_genuine fun dsa material => by cases material
  obtain ⟨plain, attached, timed, exactly⟩ := signatures_verify rsaOpened
    (show signer.ring.primary = .ok Sample.rsaKey from rfl) (.inr (.inl rfl)) rsaShared
    ⟨⟨1, .active, false⟩, List.mem_cons_self, .inr (.inl rfl)⟩ rsaVerifiable
  have signs (signed : Bytes) : Sample.rsaKey.Signs signed :=
    (exactly signed).rsaPrimes Sample.rsa rfl (show Nat.Prime 65537 by norm_num)
      Sample.isPrime_prime (by decide +kernel)
  obtain ⟨signature, signed⟩ := (plain [104, 105]).1.ok_iff.mpr (signs _)
  obtain ⟨blob, attachedSigned⟩ :=
    (attached [104, 105] [7] (by decide) (by decide)).1.ok_iff.mpr (signs _)
  obtain ⟨stamped, timedSigned⟩ := (timed [104, 105] Int64.minValue).1.ok_iff.mpr (signs _)
  have dsaCountable : Sample.dsaHalf.toBytes.length < 2 ^ 64 := by decide +kernel
  have dsaOpened : (Verifies.ring (Verifier.mk (Sample.singleRing .verify Sample.dsaHalf
    .active))).Opened := Sample.opened_half rfl dsaCountable
  have dsaShared : Sample.dsaKey.SharedAs Sample.dsaHalf :=
    .inr ⟨Sample.dsaHalf, rfl, dsaCountable, Key.read_toBytes dsaCountable⟩
  obtain ⟨dsaPlain, -⟩ := signatures_verify dsaOpened
    (show (Signer.mk (Sample.singleRing .signAndVerify Sample.dsaKey .primary)).ring.primary =
      .ok Sample.dsaKey from rfl) (.inr (.inr rfl)) dsaShared
    ⟨⟨1, .active, false⟩, List.mem_cons_self, .inr (.inl rfl)⟩ Sample.verifiable_dsa
  obtain ⟨dsaSignature, dsaSigned⟩ := (dsaPlain [104, 105]).1.ok_iff.mpr Sample.signs_dsa
  refine ⟨⟨signature, signed, (plain _).2 _ signed⟩, ⟨blob, attachedSigned, ?_⟩,
    ⟨stamped, timedSigned, ?_, ?_⟩, dsaSignature, dsaSigned, (dsaPlain _).2 _ dsaSigned⟩
  · exact ((attached _ _ (by decide) (by decide)).2 _ attachedSigned).1
  · rw [(timed _ _).2 _ timedSigned]
    exact if_pos (by decide)
  · rw [(timed _ _).2 _ timedSigned]
    exact if_neg (by decide)

end VersionedKeys
