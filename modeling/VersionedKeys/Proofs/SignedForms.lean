import VersionedKeys.Proofs.Recognition

/-!
# Forms of signatures that are unambiguous

Of hidden data and a message only the length of the first is signed, and only that of the second is
sent.  Still the bytes that are signed tell both (`Signed.eq_of_attached`), and what is accepted is
split as its maker would have written it: `Verifies.exists_key_of_attachedVerify`.  The bytes that
are signed with a time tell the time and the data (`Signed.timed_inj`).
-/

namespace VersionedKeys

namespace Signed

theorem attached_eq_ok_iff {hidden message signed : Bytes} :
    attached hidden message = .ok signed ↔
      hidden.length < 2 ^ 32 ∧
        signed = Bytes.ofNat lengthSize hidden.length ++ (hidden ++ (message ++ [0])) := by
  by_cases short : hidden.length < 2 ^ 32
  · rw [attached_eq short, Except.ok.injEq]
    simp only [short, true_and, List.append_assoc, eq_comm]
  · have long : lengthPrefix hidden = .error (.malformed .longSignedData) := if_neg short
    rw [attached, long]
    simp only [Outcome.error_bind, short, false_and, reduceCtorEq]

/-- The length in front tells where the hidden data ends, and the rest is the message. -/
theorem eq_of_attached {hidden message otherHidden otherMessage signed : Bytes}
    (made : attached hidden message = .ok signed)
    (otherMade : attached otherHidden otherMessage = .ok signed) :
    otherHidden = hidden ∧ otherMessage = message := by
  obtain ⟨short, rfl⟩ := attached_eq_ok_iff.mp made
  obtain ⟨otherShort, same⟩ := attached_eq_ok_iff.mp otherMade
  obtain ⟨sameHidden, ends⟩ := (Bytes.append_ofNat_length_inj short otherShort).mp same
  exact ⟨sameHidden.symm, (List.append_cancel_right ends).symm⟩

theorem timeBytes_inj {time other : Int64} : timeBytes time = timeBytes other ↔ time = other := by
  constructor
  · intro same
    rw [← Int64.toInt_inj, ← toInt_timeBytes, same, toInt_timeBytes]
  · rintro rfl
    rfl

theorem timed_inj {expiry otherExpiry : Int64} {data otherData : Bytes} :
    timed (timeBytes expiry) data = timed (timeBytes otherExpiry) otherData ↔
      expiry = otherExpiry ∧ data = otherData := by
  have widths : (timeBytes expiry).length = (timeBytes otherExpiry).length := by
    rw [timeBytes, timeBytes, Bytes.length_ofNat, Bytes.length_ofNat]
  rw [timed, timed, List.append_left_inj]
  constructor
  · intro same
    obtain ⟨times, sameData⟩ := List.append_inj same widths
    exact ⟨timeBytes_inj.mp times, sameData⟩
  · rintro ⟨rfl, rfl⟩
    rfl

/-- A message that is announced as longer than what is there is refused. -/
theorem splitAttached_of_overrun {announced rest : Bytes} (width : announced.length = lengthSize)
    (overrun : rest.length < announced.toNat) :
    splitAttached (announced ++ rest) = .error .invalidCryptoData := by
  rw [splitAttached, List.take_left' width, List.drop_left' width]
  exact if_pos (.inr overrun)

end Signed

namespace Artifact

/-- What follows the bytes of a header is the body, or the header is refused. -/
theorem parse_append {head : Bytes} (width : head.length = headerSize) (body : Bytes) :
    (∃ hash, parse (head ++ body) = .ok (hash, body)) ∨
      parse (head ++ body) = .error .invalidCryptoData := by
  cases head with
  | nil => cases width
  | cons version hash =>
      obtain ⟨a, b, c, d, rfl⟩ := List.length_eq_four.mp (Nat.succ.inj width)
      by_cases current : version = formatVersion
      · exact .inl ⟨_, if_pos current⟩
      · exact .inr (if_neg current)

end Artifact

namespace KeyRing

/-- What passes is accepted by one of the keys that are tried. -/
theorem exists_accepts_of_checkWith {keys : List Key} {signed signature : Bytes}
    (checked : checkWith signed signature keys = .ok ()) :
    ∃ key ∈ keys, accepts key signed signature = .ok true := by
  induction keys with
  | nil => cases checked
  | cons key keys inductionHypothesis =>
      obtain ⟨accepted, decided, continued⟩ := Outcome.bind_eq_ok.mp checked
      cases accepted with
      | true => exact ⟨key, List.mem_cons_self, decided⟩
      | false =>
          obtain ⟨later, membership, laterAccepted⟩ := inductionHypothesis continued
          exact ⟨later, List.mem_cons_of_mem _ membership, laterAccepted⟩

/-- A signature that is made begins with the header of the primary key and what is sent. -/
theorem prefix_of_sign {ring : KeyRing} {key : Key} {signed sent made : Bytes}
    (primary : ring.primary = .ok key) (signs : ring.sign signed sent = .ok made) :
    Artifact.header key.hash ++ sent <+: made := by
  obtain ⟨tag, -, rfl⟩ := (sign_eq_ok_iff primary).mp signs
  exact List.prefix_append _ tag

end KeyRing

namespace Verifies

variable {Holder : Type} [Verifies Holder] {holder : Holder} {blob hidden message : Bytes}

/-- The key that accepts is one of the candidates for the hash in the header. -/
theorem exists_key_of_attachedVerify
    (verified : attachedVerify holder blob hidden = .ok message) :
    ∃ key signed signature, key ∈ (ring holder).candidates key.hash ∧
      message.length < 2 ^ 32 ∧ Signed.attached hidden message = .ok signed ∧
      blob = Artifact.header key.hash ++
        (Bytes.ofNat Signed.lengthSize message.length ++ message ++ signature) ∧
      (ring holder).check key.hash signed signature = .ok () ∧
      KeyRing.accepts key signed signature = .ok true := by
  obtain ⟨hash, signed, signature, short, fed, layout, checked⟩ :=
    attachedVerify_eq_ok_iff_check.mp verified
  obtain ⟨key, candidate, accepted⟩ :=
    KeyRing.exists_accepts_of_checkWith (KeyRing.check_eq_checkWith .. ▸ checked)
  obtain ⟨rfl, -⟩ := KeyRing.mem_candidates.mp candidate
  exact ⟨key, signed, signature, candidate, short, fed, layout, checked, accepted⟩

/-- An announced length that exceeds what is there is refused before anything else is looked at. -/
theorem attachedVerify_of_overrun (holder : Holder) {head announced rest : Bytes}
    (headWidth : head.length = Artifact.headerSize) (width : announced.length = Signed.lengthSize)
    (overrun : rest.length < announced.toNat) (hidden : Bytes) :
    attachedVerify holder (head ++ (announced ++ rest)) hidden = .error .invalidCryptoData ∧
      Signed.attachedData (head ++ (announced ++ rest)) = .error .invalidCryptoData := by
  have split := Signed.splitAttached_of_overrun width overrun
  rcases Artifact.parse_append headWidth (announced ++ rest) with ⟨hash, parsed⟩ | parsed
  · rw [attachedVerify, Signed.attachedData, parsed]
    simp only [Outcome.ok_bind, split, Outcome.error_bind, and_self]
  · rw [attachedVerify, Signed.attachedData, parsed]
    exact ⟨rfl, rfl⟩

end Verifies

namespace Signer

/-- What a signer signs and sends for a message and hidden data that are not too long. -/
theorem attachedSign_eq_sign {hidden message signed : Bytes} (short : message.length < 2 ^ 32)
    (fed : Signed.attached hidden message = .ok signed) (signer : Signer) :
    signer.attachedSign message hidden =
      signer.ring.sign signed (Bytes.ofNat Signed.lengthSize message.length ++ message) := by
  rw [attachedSign, fed, Signed.lengthPrefix_of_short short, Outcome.ok_bind, Outcome.ok_bind]

end Signer

/-- The bytes that are signed tell hidden data and message, or time and data.  A blob that is
accepted begins as its maker would have written it for the accepting key, and is checked against
the bytes its maker would have signed, so the message in it is the one that was signed.  A length
that exceeds what is there is refused. -/
theorem Signed.forms_unambiguous {Holder : Type} [Verifies Holder] :
    (∀ hidden message : Bytes, hidden.length < 2 ^ 32 → message.length < 2 ^ 32 →
      ∃ signed length, attached hidden message = .ok signed ∧ lengthPrefix message = .ok length ∧
        (∀ signer : Signer,
          signer.attachedSign message hidden = signer.ring.sign signed (length ++ message)) ∧
        ∀ otherHidden otherMessage, attached otherHidden otherMessage = .ok signed →
          otherHidden = hidden ∧ otherMessage = message) ∧
    (∀ expiry data,
      (∀ signer : Signer, signer.timeoutSign data expiry =
        signer.ring.sign (timed (timeBytes expiry) data) (timeBytes expiry)) ∧
      ∀ otherExpiry otherData,
        timed (timeBytes otherExpiry) otherData = timed (timeBytes expiry) data →
          otherExpiry = expiry ∧ otherData = data) ∧
    (∀ (holder : Holder) (blob hidden message : Bytes),
      Verifies.attachedVerify holder blob hidden = .ok message →
        attachedData blob = .ok message ∧
        ∃ key signed length signature,
          key ∈ (Verifies.ring holder).candidates key.hash ∧
          attached hidden message = .ok signed ∧ lengthPrefix message = .ok length ∧
          blob = Artifact.header key.hash ++ (length ++ message) ++ signature ∧
          (Verifies.ring holder).check key.hash signed signature = .ok () ∧
          KeyRing.accepts key signed signature = .ok true ∧
          ∀ (signer : Signer) (own : Key), signer.ring.primary = .ok own → own.hash = key.hash →
            signer.attachedSign message hidden = signer.ring.sign signed (length ++ message) ∧
            ∀ made, signer.attachedSign message hidden = .ok made →
              Artifact.header key.hash ++ (length ++ message) <+: made) ∧
    ∀ (holder : Holder) (head announced rest hidden : Bytes),
      head.length = Artifact.headerSize → announced.length = lengthSize →
      rest.length < announced.toNat →
        Verifies.attachedVerify holder (head ++ (announced ++ rest)) hidden =
          .error .invalidCryptoData ∧
        attachedData (head ++ (announced ++ rest)) = .error .invalidCryptoData := by
  refine ⟨?_, ?_, ?_, ?_⟩
  · intro hidden message hiddenShort messageShort
    have fed := attached_eq hiddenShort message
    exact ⟨_, _, fed, lengthPrefix_of_short messageShort,
      Signer.attachedSign_eq_sign messageShort fed, fun _ _ => eq_of_attached fed⟩
  · intro expiry data
    exact ⟨fun signer => rfl, fun _ _ => timed_inj.mp⟩
  · intro holder blob hidden message verified
    obtain ⟨key, signed, signature, candidate, short, fed, rfl, checked, accepted⟩ :=
      Verifies.exists_key_of_attachedVerify verified
    refine ⟨attachedData_eq short, key, signed, _, signature, candidate, fed,
      lengthPrefix_of_short short, (List.append_assoc ..).symm, checked, accepted, ?_⟩
    intro signer own primary same
    have signs := Signer.attachedSign_eq_sign short fed signer
    refine ⟨signs, fun made signed => ?_⟩
    rw [signs] at signed
    rw [← same]
    exact KeyRing.prefix_of_sign primary signed
  · intro holder head announced rest hidden headWidth width overrun
    exact Verifies.attachedVerify_of_overrun holder headWidth width overrun hidden

/-- A blob with a byte too many, the data of which is moved from hidden to message or cut off. -/
theorem Signed.forms_unambiguous_sample :
    let verifier : Verifier := ⟨Sample.singleRing .signAndVerify Sample.macKey .primary⟩
    let tag := Digest.sha1.hmac (List.replicate 32 3) [0, 0, 0, 1, 7, 104, 105, 0]
    let blob := 0 :: Sample.macKey.hash.toBytes ++ [0, 0, 0, 2] ++ [104, 105] ++ tag ++ [9]
    attached [7] [104, 105] ≠ attached [] [7, 104, 105] ∧
      timed (timeBytes 0) [7] ≠ timed (timeBytes 7) [] ∧
      Verifies.attachedVerify verifier blob [7] = .ok [104, 105] ∧
      attachedData blob = .ok [104, 105] ∧
      Verifies.attachedVerify verifier ([0, 1, 2, 3, 4] ++ ([0, 0, 0, 3] ++ [104, 105])) [7] =
        .error .invalidCryptoData := by
  intro verifier tag blob
  obtain ⟨attachedTells, timedTells, accepted, overrun⟩ := @forms_unambiguous Verifier _
  have authenticates : ∀ entry ∈ verifier.ring.keys, entry.2.keyType = .hmacSha1 := by
    intro entry membership
    rw [List.mem_singleton.mp membership]
    rfl
  have verified : Verifies.attachedVerify verifier blob [7] = .ok [104, 105] :=
    (Verifies.attachedVerify_eq_ok_iff_tags authenticates blob (by decide) _).mpr
      ⟨Sample.macKey.hash, tag, [9], by decide, rfl, rfl, ⟨1, .primary, false⟩, Sample.macKey,
        List.replicate 32 3, List.mem_cons_self, .inl rfl, rfl, rfl, rfl⟩
  refine ⟨?_, ?_, verified, (accepted verifier blob [7] _ verified).1, ?_⟩
  · obtain ⟨signed, length, fed, -, -, only⟩ :=
      attachedTells [7] [104, 105] (by decide) (by decide)
    rw [fed]
    intro same
    obtain ⟨different, -⟩ := only [] [7, 104, 105] same.symm
    cases different
  · intro same
    obtain ⟨-, different⟩ := (timedTells 7 []).2 0 [7] same
    cases different
  · exact (overrun verifier [0, 1, 2, 3, 4] [0, 0, 0, 3] [104, 105] [7] rfl rfl (by decide)).1

end VersionedKeys
