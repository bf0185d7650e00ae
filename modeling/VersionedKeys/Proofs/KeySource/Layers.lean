import VersionedKeys.Proofs.KeySet.Mirrors
import VersionedKeys.Proofs.KeySource.Queries
import VersionedKeys.Proofs.Pairs
import VersionedKeys.Proofs.PasswordStore

/-!
# Layers are transparent

A plain key set and its encrypted mirror image answer alike if the second is read through the
layer that decrypts it (`looksLike_wrapped`, `looksLike_locked`).  Around a key set that is
plain already, layers do nothing at all (`keyData_layered`).  Both together are
`layers_transparent`.
-/

namespace VersionedKeys

namespace KeySet

/-- The data in a store that is encoded, if a password does not prove wrong. -/
def revealUnder (password : String) (sealed : Bytes) : Except Error Bytes :=
  PasswordStore.ofBytes sealed >>= fun store => store.decrypt password

/-- What is encrypted under a password is a store, from which the password gets it back. -/
theorem revealUnder_of_encryptUnderPassword {password : String} {iterations : UInt32}
    {data sealed : Bytes} {random : Random} (short : data.length < 2 ^ 63)
    (made : (encryptUnderPassword password iterations data random).1 = .ok sealed) :
    revealUnder password sealed = .ok data := by
  rw [encryptUnderPassword, Prod.map_fst] at made
  obtain ⟨store, encrypted, rfl⟩ := Outcome.map_eq_ok.mp made
  rw [PasswordStore.encrypt] at encrypted
  have decrypted := PasswordStore.decrypt_of_encryptWith encrypted
  obtain ⟨salt, iv, key, -, saltLength, positive, rfl⟩ :=
    PasswordStore.encryptWith_eq_ok encrypted
  have saltSmall : salt.length < 2 ^ 64 := by
    rw [saltLength, PasswordStore.saltSize]
    omega
  have keySmall : (Aes.Cbc.encrypt (.ofKey key) iv data).length < 2 ^ 64 := by
    rw [Aes.Cbc.length_encrypt]
    omega
  rw [revealUnder, PasswordStore.ofBytes_toBytes positive saltSmall keySmall, Outcome.ok_bind,
    decrypted]

end KeySet

theorem Crypter.decrypt_of_encrypt {source : KeySource} {allowInactive : Bool}
    {crypter : Crypter} (loaded : (load source allowInactive).1 = .ok crypter)
    (reversible : ∀ key, crypter.ring.primary = .ok key → key.Reversible)
    {message artifact : Bytes} {random : Random}
    (made : (Encrypts.encrypt crypter message random).1 = .ok artifact) :
    Decrypts.decrypt crypter artifact = .ok message := by
  cases primary : crypter.ring.primary with
  | error error =>
      simp only [Encrypts.encrypt, Encrypts.encryptionKey, primary] at made
      cases made
  | ok key =>
      have canonical := (loads_of_load loaded).canonical
      obtain ⟨others, first⟩ := KeyRing.candidates_of_primary canonical primary
      obtain ⟨version, rest, keys, -⟩ := KeyRing.exists_keys_of_primary canonical primary
      have decrypts := supports_of_load loaded (keys ▸ List.mem_cons_self)
      exact Decrypts.decrypt_of_encrypt primary first (.inl rfl) decrypts
        (reversible key primary) made

namespace KeySource

open KeySet

section Mirrors

variable {plain sealed : KeySet}

theorem looksLike_wrapped {crypter : Crypter}
    (mirrors : Mirrors (Decrypts.decrypt crypter) plain sealed) :
    (wrapped (.stored sealed) crypter).LooksLike (.stored plain) where
  metadata := by
    simp only [metadata, mirrors.metadata, ← mirrors.isPlain]
  keyData number := by
    have encrypted : sealed.metadata.encrypted = true := by rw [mirrors.metadata]
    rw [keyData_wrapped]
    simp only [keyData, metadata, encrypted, if_true]
    exact mirrors.keyData_eq number

theorem looksLike_locked (lock : PasswordLock)
    (mirrors : Mirrors (revealUnder lock.unlock.1) plain sealed) :
    (locked (.stored sealed) lock).LooksLike (.stored plain) where
  metadata := by
    simp only [metadata, mirrors.metadata, ← mirrors.isPlain]
  keyData number := by
    have encrypted : sealed.metadata.encrypted = true := by rw [mirrors.metadata]
    obtain ⟨after, read, -⟩ := exists_keyData_locked (.stored sealed) lock number
    rw [read]
    simp only [keyData, metadata, encrypted, if_true]
    exact mirrors.keyData_eq number

end Mirrors

/-- A layer around a key set. -/
inductive Layer where
  | wrapped (crypter : Crypter)
  | locked (lock : PasswordLock)

/-- A key set in layers, the outermost first. -/
def layered (source : KeySource) : List Layer → KeySource
  | [] => source
  | .wrapped crypter :: layers => wrapped (source.layered layers) crypter
  | .locked lock :: layers => locked (source.layered layers) lock

section Layers

variable {source : KeySource} (isPlain : source.metadata.encrypted = false)

include isPlain

theorem metadata_layered (layers : List Layer) :
    (source.layered layers).metadata = source.metadata := by
  have unchanged : { source.metadata with encrypted := false } = source.metadata := by
    rw [← isPlain]
  induction layers with
  | nil => rfl
  | cons layer layers inductionHypothesis =>
      cases layer with
      | wrapped crypter => rw [layered, metadata, inductionHypothesis, unchanged]
      | locked lock => rw [layered, metadata, inductionHypothesis, unchanged]

/-- Layers around plain data do nothing, and stay as they are. -/
theorem keyData_layered (layers : List Layer) (number : UInt32) :
    (source.layered layers).keyData number =
      ((source.keyData number).1, (source.keyData number).2.layered layers) := by
  induction layers with
  | nil => rfl
  | cons layer layers inductionHypothesis =>
      have inside : (source.layered layers).metadata.encrypted = false := by
        rw [metadata_layered isPlain, isPlain]
      cases layer with
      | wrapped crypter =>
          rw [layered, keyData_wrapped, inductionHypothesis]
          simp only [inside, Bool.false_eq_true, if_false, layered]
          cases (source.keyData number).1 <;> rfl
      | locked lock =>
          obtain ⟨after, read, -, unsealed⟩ :=
            exists_keyData_locked (source.layered layers) lock number
          have same : after = lock := unsealed (by simp [Seals, inside])
          rw [layered, read, same, inductionHypothesis]
          simp only [inside, Bool.false_eq_true, if_false, layered]
          cases (source.keyData number).1 <;> rfl

theorem ask_layered (layers : List Layer) (query : Query) :
    (source.layered layers).ask query =
      ((source.ask query).1, (source.ask query).2.layered layers) := by
  cases query with
  | metadata => rw [ask, metadata_layered isPlain, ask]
  | keyData number => rw [ask, keyData_layered isPlain, ask]; rfl

end Layers

theorem askAll_layered {source : KeySource} (isPlain : source.metadata.encrypted = false)
    (layers : List Layer) (queries : List Query) :
    (source.layered layers).askAll queries =
      ((source.askAll queries).1, (source.askAll queries).2.layered layers) := by
  induction queries generalizing source with
  | nil => rfl
  | cons query queries inductionHypothesis =>
      have later := inductionHypothesis ((source.looksLike_ask query).metadata ▸ isPlain)
      simp only [askAll, ask_layered isPlain, later]

theorem readKeys_layered {source : KeySource} (isPlain : source.metadata.encrypted = false)
    (layers : List Layer) (keyType : KeyType) (versions : List KeyVersion) :
    readKeys keyType versions (source.layered layers) =
      ((readKeys keyType versions source).1,
        (readKeys keyType versions source).2.layered layers) := by
  induction versions generalizing source with
  | nil => rfl
  | cons version versions inductionHypothesis =>
      have later := inductionHypothesis (source.metadata_keyData version.number ▸ isPlain)
      simp only [readKeys, keyData_layered isPlain]
      generalize source.keyData version.number = result at later ⊢
      obtain ⟨outcome, after⟩ := result
      cases outcome with
      | error error => rfl
      | ok data =>
          dsimp only at later ⊢
          cases Key.read keyType data with
          | error error => rfl
          | ok key => simp only [later]

theorem loadRing_layered {source : KeySource} (isPlain : source.metadata.encrypted = false)
    (layers : List Layer) (purposes : List KeyPurpose) :
    (source.layered layers).loadRing purposes =
      ((source.loadRing purposes).1, (source.loadRing purposes).2.layered layers) := by
  simp only [loadRing, metadata_layered isPlain]
  cases checkUse source.metadata purposes with
  | error error => rfl
  | ok nothing => simp only [readKeys_layered isPlain]

/-- Two key sets give the same, whatever they are asked for and in whatever order, and so do the
rings that are loaded from them. -/
structure Indistinguishable (left right : KeySource) : Prop where
  metadata : left.metadata = right.metadata
  keyData : ∀ number, (left.keyData number).1 = (right.keyData number).1
  answers : ∀ queries, (left.askAll queries).1 = (right.askAll queries).1
  rings : ∀ purposes, (left.loadRing purposes).1 = (right.loadRing purposes).1

theorem LooksLike.indistinguishable {left right : KeySource} (alike : left.LooksLike right) :
    left.Indistinguishable right where
  metadata := alike.metadata
  keyData := alike.keyData
  answers queries := (alike.answers_eq_map queries).trans (right.answers_eq_map queries).symm
  rings := alike.loadRing_eq

/-- Whatever is done to a new key set whose data is encrypted, with the keys of a crypter or under
a password, is done to a plain one as well if it succeeds, and through the layer that
decrypts it the first cannot be told from the second.  Under a password, the bytes of a key
are fewer than `2 ^ 63`, as those of any key in memory are.  Around a key set that is plain, any
layers give what it gives itself, and are afterwards what they were: no password has been
asked for. -/
theorem layers_transparent :
    (∀ {name : String} {purpose : KeyPurpose} {keyType : KeyType} {fresh : KeySet},
      KeySet.create name purpose keyType = .ok fresh →
      (∀ {source : KeySource} {allowInactive : Bool} {crypter : Crypter},
        (Crypter.load source allowInactive).1 = .ok crypter →
        (∀ key, crypter.ring.primary = .ok key → key.Reversible) →
        ∀ changes : List (Change × Random),
          let plain := changes.map fun entry => entry.1.plain
          let sealed := changes.map fun entry =>
            entry.1.sealed (Encrypts.encrypt crypter) entry.2
          (fresh.setEncrypted true).2.Succeeds sealed →
          fresh.Succeeds plain ∧
            (wrapped (.stored ((fresh.setEncrypted true).2.run sealed)) crypter).Indistinguishable
              (.stored (fresh.run plain))) ∧
      ∀ (prompt : Nat → String) (changes : List (Change × UInt32 × Random)),
        (∀ entry ∈ changes, ∀ status key, entry.1 = .add status key →
          key.toBytes.length < 2 ^ 63) →
        let plain := changes.map fun entry => entry.1.plain
        let sealed := changes.map fun entry =>
          entry.1.sealed (encryptUnderPassword (prompt 0) entry.2.1) entry.2.2
        (fresh.setEncrypted true).2.Succeeds sealed →
        fresh.Succeeds plain ∧
          (locked (.stored ((fresh.setEncrypted true).2.run sealed)) { prompt }).Indistinguishable
            (.stored (fresh.run plain))) ∧
    ∀ source : KeySource, source.metadata.encrypted = false → ∀ layers,
      (source.layered layers).metadata = source.metadata ∧
      (∀ number, (source.layered layers).keyData number =
        ((source.keyData number).1, (source.keyData number).2.layered layers)) ∧
      (∀ queries, (source.layered layers).askAll queries =
        ((source.askAll queries).1, (source.askAll queries).2.layered layers)) ∧
      ∀ purposes, (source.layered layers).loadRing purposes =
        ((source.loadRing purposes).1, (source.loadRing purposes).2.layered layers) := by
  refine ⟨fun created => ⟨?_, ?_⟩, ?_⟩
  · intro source allowInactive crypter loaded reversible changes plain sealed succeeds
    have inverts : ∀ entry ∈ changes, ∀ status key, entry.1 = .add status key → ∀ data,
        (Encrypts.encrypt crypter key.toBytes entry.2).1 = .ok data →
          Decrypts.decrypt crypter data = .ok key.toBytes :=
      fun entry _ status key _ data made => Crypter.decrypt_of_encrypt loaded reversible made
    obtain ⟨plainSucceeds, mirrors⟩ := (Mirrors.of_create created).run
      (fun _ => Encrypts.encrypt crypter) (fun random => random) inverts succeeds
    exact ⟨plainSucceeds, (looksLike_wrapped mirrors).indistinguishable⟩
  · intro prompt changes short plain sealed succeeds
    have inverts : ∀ entry ∈ changes, ∀ status key, entry.1 = .add status key → ∀ data,
        (encryptUnderPassword (prompt 0) entry.2.1 key.toBytes entry.2.2).1 = .ok data →
          revealUnder (prompt 0) data = .ok key.toBytes :=
      fun entry membership status key same data made =>
        revealUnder_of_encryptUnderPassword (short entry membership status key same) made
    obtain ⟨plainSucceeds, mirrors⟩ := (Mirrors.of_create created).run
      (fun draw : UInt32 × Random => encryptUnderPassword (prompt 0) draw.1) (fun draw => draw.2)
      inverts succeeds
    exact ⟨plainSucceeds, (looksLike_locked { prompt } mirrors).indistinguishable⟩
  · intro source isPlain layers
    exact ⟨metadata_layered isPlain layers, keyData_layered isPlain layers,
      askAll_layered isPlain layers, loadRing_layered isPlain layers⟩

end KeySource

namespace Sample

open KeySet

/-- A key is added twice, and the older version is removed. -/
def changes {Draw : Type} (draw : Draw) : List (Change × Draw) :=
  [(.add .active key, draw), (.add .primary key, draw), (.setStatus 1 .inactive, draw),
    (.remove 1, draw)]

/-- If the key can be encrypted, everything succeeds. -/
theorem succeeds_changes {Draw : Type} (draw : Draw)
    (encrypt : Draw → Bytes → Random → Except Error Bytes × Random) (random : Draw → Random)
    {artifact : Bytes} (made : (encrypt draw key.toBytes (random draw)).1 = .ok artifact) :
    (unused.setEncrypted true).2.Succeeds
      ((changes draw).map fun entry => entry.1.sealed (encrypt entry.2) (random entry.2)) := by
  have encrypted : encrypt draw key.toBytes (random draw) =
      (.ok artifact, (encrypt draw key.toBytes (random draw)).2) := Prod.ext made rfl
  have first : (Operation.addEncryptedKey .active key (encrypt draw) (random draw)).apply
      (unused.setEncrypted true).2 = (.ok (some 1),
        ⟨{ unused.metadata with versions := [⟨1, .active, false⟩], encrypted := true },
          [(1, artifact)]⟩) := by
    rw [Operation.apply, addEncryptedKey, encrypted]
    rfl
  have second : (Operation.addEncryptedKey .primary key (encrypt draw) (random draw)).apply
      ⟨{ unused.metadata with versions := [⟨1, .active, false⟩], encrypted := true },
        [(1, artifact)]⟩ = (.ok (some 2),
        ⟨{ unused.metadata with
            versions := [⟨1, .active, false⟩, ⟨2, .primary, false⟩], encrypted := true },
          [(2, artifact), (1, artifact)]⟩) := by
    rw [Operation.apply, addEncryptedKey, encrypted]
    rfl
  simp only [changes, List.map_cons, List.map_nil, Change.sealed, Succeeds, first, second]
  exact ⟨⟨_, rfl⟩, ⟨_, rfl⟩, ⟨_, rfl⟩, ⟨_, rfl⟩, trivial⟩

theorem short_of_mem_changes {Draw : Type} {draw : Draw} :
    ∀ entry ∈ changes draw, ∀ status added, entry.1 = .add status added →
      added.toBytes.length < 2 ^ 63 := by
  have short : key.toBytes.length ≤ 69 := Key.length_toBytes_le (.inl rfl)
  intro entry membership status added same
  simp only [changes, List.mem_cons, List.not_mem_nil, or_false] at membership
  rcases membership with rfl | rfl | rfl | rfl
  · cases same
    omega
  · cases same
    omega
  · cases same
  · cases same

theorem exists_encrypt (random : Random) :
    ∃ artifact, (Encrypts.encrypt crypter key.toBytes random).1 = .ok artifact := by
  have primary : crypter.ring.primary = .ok key := rfl
  have fits : key.keyType = .rsaPrivate → key.toBytes.length ≤ key.size / 8 - 42 := nofun
  obtain ⟨body, made⟩ := Artifact.exists_layout_of_supports (show _ = true from rfl) fits
    (random.draw key.drawSize).1
  refine ⟨Artifact.header key.hash ++ body, ?_⟩
  simp only [Encrypts.encrypt, Encrypts.encryptionKey, primary, Artifact.encrypt_eq_layout made]

theorem exists_encryptUnderPassword (password : String) (random : Random) :
    ∃ sealed, (encryptUnderPassword password 1 key.toBytes random).1 = .ok sealed := by
  cases encrypted : (PasswordStore.encrypt key.toBytes password 1 random).1 with
  | error error =>
      have never : (1 : UInt32) = 0 := PasswordStore.fails_encrypt.mp ⟨error, encrypted⟩
      exact absurd never (by decide)
  | ok store =>
      refine ⟨store.toBytes, ?_⟩
      rw [encryptUnderPassword, Prod.map_fst, encrypted]
      rfl

end Sample

/-- What is added and removed with encryption looks the same through either layer as if it had
been plain, and a key is read through two layers around a plain key set. -/
theorem KeySource.layers_transparent_sample :
    let marked := (Sample.unused.setEncrypted true).2
    let plain := (Sample.changes ()).map fun entry => entry.1.plain
    let wrappedChanges := (Sample.changes ({} : Random)).map fun entry =>
      entry.1.sealed (Encrypts.encrypt Sample.crypter) entry.2
    let lockedChanges := (Sample.changes ((1 : UInt32), ({} : Random))).map fun entry =>
      entry.1.sealed (KeySet.encryptUnderPassword "secret" entry.2.1) entry.2.2
    let around : List Layer := [.locked { prompt := fun _ => "secret" }, .wrapped Sample.crypter]
    marked.Succeeds wrappedChanges ∧ marked.Succeeds lockedChanges ∧
      Sample.unused.Succeeds plain ∧
      (wrapped (.stored (marked.run wrappedChanges)) Sample.crypter).Indistinguishable
        (.stored (Sample.unused.run plain)) ∧
      (locked (.stored (marked.run lockedChanges))
        { prompt := fun _ => "secret" }).Indistinguishable (.stored (Sample.unused.run plain)) ∧
      (layered (.stored Sample.keySet) around).keyData 2 =
        (.ok Sample.key.toBytes, layered (.stored Sample.keySet) around) := by
  intro marked plain wrappedChanges lockedChanges around
  obtain ⟨created, layers⟩ := layers_transparent
  have made : KeySet.create "sample" .decryptAndEncrypt .aes = .ok Sample.unused := rfl
  obtain ⟨byCrypter, byPassword⟩ := created made
  obtain ⟨artifact, wrappedMade⟩ := Sample.exists_encrypt {}
  obtain ⟨store, lockedMade⟩ := Sample.exists_encryptUnderPassword "secret" {}
  have wrappedSucceed : marked.Succeeds wrappedChanges :=
    Sample.succeeds_changes ({} : Random) (fun _ => Encrypts.encrypt Sample.crypter)
      (fun random => random) wrappedMade
  have lockedSucceed : marked.Succeeds lockedChanges :=
    Sample.succeeds_changes ((1 : UInt32), ({} : Random))
      (fun draw => KeySet.encryptUnderPassword "secret" draw.1) (fun draw => draw.2) lockedMade
  have reversible : ∀ key, Sample.crypter.ring.primary = .ok key → key.Reversible := by
    intro key primary
    have same : key = Sample.key := (Except.ok.inj primary).symm
    exact same ▸ Sample.reversible
  obtain ⟨plainSucceeds, wrappedAlike⟩ :=
    byCrypter Sample.load_crypter reversible (Sample.changes {}) wrappedSucceed
  obtain ⟨-, lockedAlike⟩ := byPassword (fun _ => "secret") (Sample.changes (1, {}))
    Sample.short_of_mem_changes lockedSucceed
  exact ⟨wrappedSucceed, lockedSucceed, plainSucceeds, wrappedAlike, lockedAlike,
    (layers (.stored Sample.keySet) rfl around).2.1 2⟩

end VersionedKeys
