import VersionedKeys.Proofs.Artifact.Failure
import VersionedKeys.Proofs.RoundTrip

/-!
# Authenticity

What a crypter with symmetric keys opens is what one of its keys could have made
of the message (`Crypter.accepts_exactly_producible`); all else is refused.  How it
is refused says nothing about why (`Artifact.decrypt_indistinguishable`).
-/

namespace VersionedKeys

namespace Artifact

/-- Opening an artifact succeeds or ends in one error, and what happens depends
only on the keys that open it, in their order.  A list of keys none of which
opens it, for whatever reasons, does as well as the decoy. -/
theorem decrypt_indistinguishable (artifact : Bytes) :
    (∀ candidates, (∃ message, decrypt candidates artifact = .ok message) ∨
      decrypt candidates artifact = .error .invalidCryptoData) ∧
    (∀ left right : KeyHash → List Key,
      (∀ hash body, parse artifact = .ok (hash, body) →
        (left hash).filter (opens hash body) = (right hash).filter (opens hash body)) →
      decrypt left artifact = decrypt right artifact) ∧
    ∀ keys : List Key,
      (∀ hash body, parse artifact = .ok (hash, body) → ∀ key ∈ keys, ∀ message,
        decryptWith key (header hash) body ≠ .ok message) →
      decrypt (fun _ => keys) artifact = decrypt (fun _ => []) artifact := by
  refine ⟨fun candidates => decrypt_eq_ok_or candidates artifact, ?_, ?_⟩
  · intro left right same
    cases parsed : parse artifact with
    | error error => rw [decrypt_of_unparsed parsed, decrypt_of_unparsed parsed]
    | ok result =>
        rw [decrypt_eq_firstOpened parsed, decrypt_eq_firstOpened parsed, ← firstOpened_filter,
          same _ _ parsed, firstOpened_filter]
  · intro keys none
    cases parsed : parse artifact with
    | error error => rw [decrypt_of_unparsed parsed, decrypt_of_unparsed parsed]
    | ok result =>
        rw [decrypt_eq_firstOpened parsed, decrypt_eq_firstOpened parsed]
        rcases firstOpened_eq_ok_or (header result.1) result.2 keys with
          ⟨key, membership, message, opened, -⟩ | ⟨-, refused⟩
        · exact absurd opened (none _ _ parsed key membership message)
        · exact refused

/-- A key that cannot decrypt makes no difference, alone or before another one. -/
theorem decrypt_indistinguishable_sample :
    decrypt (fun _ => [Sample.macKey, Sample.key]) [0, 1, 2, 3, 4, 5] =
        decrypt (fun _ => [Sample.key]) [0, 1, 2, 3, 4, 5] ∧
      decrypt (fun _ => [Sample.macKey]) [0, 1, 2, 3, 4, 5] =
        decrypt (fun _ => []) [0, 1, 2, 3, 4, 5] := by
  have fails (hash : KeyHash) (body : Bytes) : opens hash body Sample.macKey = false := rfl
  refine ⟨(decrypt_indistinguishable _).2.1 _ _ ?_, (decrypt_indistinguishable _).2.2 _ ?_⟩
  · intro hash body _
    simp [List.filter_cons, fails]
  · intro hash body _ key membership message opened
    rw [List.mem_singleton.mp membership] at opened
    cases opened

end Artifact

namespace Crypter

/-- A key that a crypter tries on artifacts: that of a primary or active version,
or of any version if inactive ones are allowed. -/
def Tries (crypter : Crypter) (key : Key) : Prop :=
  ∃ version, (version, key) ∈ crypter.ring.keys ∧
    (version.status = .primary ∨ version.status = .active ∨ crypter.ring.allowInactive = true)

theorem mem_candidates_iff {crypter : Crypter} {hash : KeyHash} {key : Key} :
    key ∈ crypter.ring.candidates hash ↔ key.hash = hash ∧ crypter.Tries key := by
  simp only [KeyRing.mem_candidates, Tries, KeyRing.isUsable_eq_true_iff]

theorem decrypt_eq_firstOpened {crypter : Crypter} {artifact body : Bytes} {hash : KeyHash}
    (parsed : Artifact.parse artifact = .ok (hash, body)) :
    Decrypts.decrypt crypter artifact =
      Artifact.firstOpened (Artifact.header hash) body (crypter.ring.candidates hash) :=
  Artifact.decrypt_eq_firstOpened parsed _

/-- What is accepted has the layout of an artifact of one of the keys tried. -/
theorem exists_layout_of_decrypt {crypter : Crypter}
    (symmetric : ∀ entry ∈ crypter.ring.keys, entry.2.IsSymmetric) {artifact message : Bytes}
    (accepted : Decrypts.decrypt crypter artifact = .ok message) :
    ∃ key drawn, crypter.Tries key ∧ key.IsSymmetric ∧ drawn.length = key.drawSize ∧
      Artifact.layout? key drawn message = some artifact := by
  obtain ⟨hash, body, parsed, key, membership, opened⟩ := Artifact.exists_key_of_decrypt accepted
  obtain ⟨rfl, tried⟩ := mem_candidates_iff.mp membership
  obtain ⟨version, entryMembership, -⟩ := id tried
  have keySymmetric := symmetric _ entryMembership
  obtain ⟨drawn, length, made⟩ := (Artifact.decryptWith_eq_ok_iff keySymmetric).mp opened
  rw [← Artifact.parse_eq_ok_iff.mp parsed] at made
  exact ⟨key, drawn, tried, keySymmetric, length, made⟩

/-- What a key that is tried has made is accepted, though perhaps through an
earlier key that could have made it too. -/
theorem exists_decrypt_of_layout {crypter : Crypter} {key : Key} (tried : crypter.Tries key)
    (symmetric : key.IsSymmetric) {drawn message artifact : Bytes}
    (length : drawn.length = key.drawSize)
    (made : Artifact.layout? key drawn message = some artifact) :
    ∃ found, Decrypts.decrypt crypter artifact = .ok found := by
  obtain ⟨body, front⟩ := Artifact.exists_layout symmetric drawn message
  obtain rfl : artifact = Artifact.header key.hash ++ body :=
    Option.some.inj (made.symm.trans front)
  have opened := (Artifact.decryptWith_eq_ok_iff symmetric).mpr ⟨drawn, length, made⟩
  have candidate := mem_candidates_iff.mpr ⟨rfl, tried⟩
  rw [decrypt_eq_firstOpened (Artifact.parse_eq_ok_iff.mpr rfl)]
  rcases Artifact.firstOpened_eq_ok_or (Artifact.header key.hash) body
      (crypter.ring.candidates key.hash) with
    ⟨other, -, found, -, first⟩ | ⟨none, -⟩
  · exact ⟨found, first⟩
  · exact absurd opened (none key candidate message)

/-- What a crypter with symmetric keys accepts is what one of the keys it tries
makes of the message, if it draws the bytes that stand behind the header.  It
accepts all that these keys can make, and refuses the rest. -/
theorem accepts_exactly_producible {crypter : Crypter}
    (symmetric : ∀ entry ∈ crypter.ring.keys, entry.2.IsSymmetric) (artifact : Bytes) :
    (∀ message, Decrypts.decrypt crypter artifact = .ok message →
      ∃ key, crypter.Tries key ∧
        ((artifact.drop Artifact.headerSize).take key.drawSize).length = key.drawSize ∧
        ∀ random : Random,
          (random.draw key.drawSize).1 = (artifact.drop Artifact.headerSize).take key.drawSize →
            (Artifact.encrypt key message random).1 = .ok artifact) ∧
    (∀ key message random, crypter.Tries key →
      (Artifact.encrypt key message random).1 = .ok artifact →
        ∃ found, Decrypts.decrypt crypter artifact = .ok found) ∧
    ((∀ key message random, crypter.Tries key →
        (Artifact.encrypt key message random).1 ≠ .ok artifact) →
      Decrypts.decrypt crypter artifact = .error .invalidCryptoData) := by
  refine ⟨?_, ?_, ?_⟩
  · intro message accepted
    obtain ⟨key, drawn, tried, keySymmetric, length, made⟩ :=
      exists_layout_of_decrypt symmetric accepted
    have behind := Artifact.drawn_of_layout keySymmetric length made
    refine ⟨key, tried, by rw [behind, length], ?_⟩
    intro random draws
    rw [Artifact.encrypt_eq_ok_iff keySymmetric, draws, behind]
    exact made
  · intro key message random tried made
    obtain ⟨version, membership, -⟩ := id tried
    have keySymmetric := symmetric _ membership
    exact exists_decrypt_of_layout tried keySymmetric (Random.length_draw _ _)
      ((Artifact.encrypt_eq_ok_iff keySymmetric).mp made)
  · intro unmade
    rcases Artifact.decrypt_eq_ok_or crypter.ring.candidates artifact with
      ⟨message, accepted⟩ | refused
    · obtain ⟨key, drawn, tried, keySymmetric, length, made⟩ :=
        exists_layout_of_decrypt symmetric accepted
      refine absurd ?_ (unmade key message (.ofSeed drawn) tried)
      rw [Artifact.encrypt_eq_ok_iff keySymmetric, ← length, Random.draw_ofSeed]
      exact made
    · exact refused

theorem accepts_exactly_producible_sample :
    (∀ entry ∈ Sample.crypter.ring.keys, entry.2.IsSymmetric) ∧
      ∃ artifact found, (Artifact.encrypt Sample.key [104, 105] {}).1 = .ok artifact ∧
        Decrypts.decrypt Sample.crypter artifact = .ok found := by
  have symmetric : ∀ entry ∈ Sample.crypter.ring.keys, entry.2.IsSymmetric := by
    simp [Sample.crypter, Key.IsSymmetric, Key.keyType, Sample.key, Material.keyType]
  have tried : Sample.crypter.Tries Sample.key :=
    ⟨⟨2, .primary, false⟩, List.mem_cons_self, .inl rfl⟩
  obtain ⟨body, made⟩ := Artifact.exists_layout (show Sample.key.IsSymmetric from .inl rfl)
    (Random.draw Sample.key.drawSize {}).1 [104, 105]
  have encrypted := congrArg Prod.fst (Artifact.encrypt_eq_layout made)
  obtain ⟨found, accepted⟩ := (accepts_exactly_producible symmetric _).2.1 _ _ _ tried encrypted
  exact ⟨symmetric, _, found, encrypted, accepted⟩

end Crypter

end VersionedKeys
