import VersionedKeys.Proofs.Artifact.Acceptance
import VersionedKeys.Proofs.Rsa.Oaep

/-!
# The layout of artifacts

What a key makes of a message depends only on the random bytes it draws: a
vector, a nonce or a seed.  `layout?` is that byte string.  Encryption makes it
(`encrypt_eq_layout`), and a symmetric key opens nothing else
(`decryptWith_eq_ok_iff`).
-/

namespace VersionedKeys

open Aes Digest Streaming

/-- The number of random bytes that go into an artifact of a key. -/
def Key.drawSize (key : Key) : Nat :=
  match key.material with
  | .aes _ => Block.size
  | .aesAead _ => Gcm.nonceSize
  | .rsaPrivate _ | .rsaPublic _ => sha1Size
  | _ => 0

/-- Whether a key is one of AES, in one of its two modes. -/
def Key.IsSymmetric (key : Key) : Prop :=
  key.keyType = .aes ∨ key.keyType = .aesAead

/-- Whether decryption inverts encryption, if the key is a private one of RSA. -/
def Key.Reversible (key : Key) : Prop :=
  ∀ rsa, key.material = .rsaPrivate rsa → Rsa.Oaep.Reversible rsa

theorem Key.IsSymmetric.decrypts {key : Key} (symmetric : key.IsSymmetric) :
    key.keyType.supports .decryptAndEncrypt = true := by
  rcases symmetric with keyType | keyType <;> rw [keyType] <;> rfl

theorem Key.IsSymmetric.reversible {key : Key} (symmetric : key.IsSymmetric) : key.Reversible := by
  intro rsa material
  simp [Key.IsSymmetric, Key.keyType, material, Material.keyType] at symmetric

namespace Artifact

/-- What a key makes of a message with given random bytes. -/
def layout? (key : Key) (drawn message : Bytes) : Option Bytes :=
  let head := header key.hash
  match key.material with
  | .aes aes =>
      let sent := head ++ (drawn ++ Cbc.encrypt (.ofKey aes.aes) (.ofBytes drawn) message)
      some (sent ++ sha1.hmac aes.mac sent)
  | .aesAead aes => some (head ++ (drawn ++ Gcm.encrypt (.ofKey aes) drawn head message))
  | .rsaPrivate rsa => (Rsa.Oaep.encrypt? rsa.publicKey drawn message).map (head ++ ·)
  | .rsaPublic rsa => (Rsa.Oaep.encrypt? rsa drawn message).map (head ++ ·)
  | _ => none

/-- A private or public key of RSA, and the public numbers with which it encrypts. -/
structure EncryptsBy (key : Key) (rsa : Rsa.PublicKey) : Prop where
  keyType : key.keyType = .rsaPrivate ∨ key.keyType = .rsaPublic
  size : key.size = rsa.length * 8
  drawSize : key.drawSize = sha1Size
  streams (head : Bytes) (random : Random) :
    key.startEncryption head random = (.ok ⟨.oaep (.start rsa), none⟩, random)
  layout (drawn message : Bytes) :
    layout? key drawn message =
      (Rsa.Oaep.encrypt? rsa drawn message).map (header key.hash ++ ·)

theorem encryptsBy_of_private {key : Key} {rsa : Rsa.PrivateKey}
    (material : key.material = .rsaPrivate rsa) : EncryptsBy key rsa.publicKey := by
  refine ⟨.inl ?_, ?_, ?_, ?_, ?_⟩
  · rw [Key.keyType, material, Material.keyType]
  · rw [Key.size, material, Material.size]
  · rw [Key.drawSize, material]
  · intro head random
    rw [Key.startEncryption, material]
  · intro drawn message
    rw [layout?, material]

theorem encryptsBy_of_public {key : Key} {rsa : Rsa.PublicKey}
    (material : key.material = .rsaPublic rsa) : EncryptsBy key rsa := by
  refine ⟨.inr ?_, ?_, ?_, ?_, ?_⟩
  · rw [Key.keyType, material, Material.keyType]
  · rw [Key.size, material, Material.size]
  · rw [Key.drawSize, material]
  · intro head random
    rw [Key.startEncryption, material]
  · intro drawn message
    rw [layout?, material]

theorem EncryptsBy.capacity_eq {key : Key} {rsa : Rsa.PublicKey} (encrypts : EncryptsBy key rsa) :
    Rsa.Oaep.capacity rsa.length = key.size / 8 - 42 := by
  have overhead : Rsa.Oaep.overhead = 42 := rfl
  rw [Rsa.Oaep.capacity, overhead, encrypts.size, Nat.mul_div_cancel _ (by decide)]

theorem exists_encryptsBy {key : Key}
    (asymmetric : key.keyType = .rsaPrivate ∨ key.keyType = .rsaPublic) :
    ∃ rsa, EncryptsBy key rsa := by
  cases material : key.material with
  | rsaPrivate rsa => exact ⟨_, encryptsBy_of_private material⟩
  | rsaPublic rsa => exact ⟨_, encryptsBy_of_public material⟩
  | _ => simp [Key.keyType, material, Material.keyType] at asymmetric

theorem start_aes {key : Key} {aes : AesHmacKey} (material : key.material = .aes aes)
    (random : Random) :
    Sealer.start key random =
      (.ok (⟨.cbc ⟨.ofKey aes.aes, (random.draw Block.size).1,
          .ofBytes (random.draw Block.size).1, [], false⟩,
        some (.hmac (.running
          (sha1.updateHmac (sha1.startHmac aes.mac) (header key.hash))))⟩, header key.hash),
        (random.draw Block.size).2) := by
  have whole : (Block.ofBytes (random.draw Block.size).1).toBytes =
      (random.draw Block.size).1 := Block.toBytes_ofBytes (Random.length_draw _ _)
  simp [Sealer.start, Key.startEncryption, material, CbcEncryptor.start, whole, feed,
    TagStream.write, HmacStream.write, HmacStream.start]

theorem start_aesAead {key : Key} {aes : Aes.Key} (material : key.material = .aesAead aes)
    (random : Random) :
    Sealer.start key random =
      (.ok (⟨.gcm ⟨.ofKey aes, header key.hash, (random.draw Gcm.nonceSize).1,
          (random.draw Gcm.nonceSize).1, [], false⟩, none⟩, header key.hash),
        (random.draw Gcm.nonceSize).2) := by
  simp [Sealer.start, Key.startEncryption, material, GcmEncryptor.start, Aes.Key.ofBytes, feed]

theorem start_rsa {key : Key} {rsa : Rsa.PublicKey} (encrypts : EncryptsBy key rsa)
    (random : Random) :
    Sealer.start key random = (.ok (⟨.oaep ⟨rsa, [], false⟩, none⟩, header key.hash), random) := by
  simp [Sealer.start, encrypts.streams, OaepEncryptor.start, feed]

section Whole

variable {encryptor : Encryptor} {message cipher : Bytes} {random after : Random}

theorem whole_hmac (mac : Digest.Hmac Sha1State)
    (encrypted : encryptor.whole message random = (.ok cipher, after)) :
    Sealer.whole ⟨encryptor, some (.hmac (.running mac))⟩ message random =
      (.ok (cipher ++ sha1.finishHmac (sha1.updateHmac mac cipher)), after) := by
  simp only [Sealer.whole, encrypted]
  rfl

theorem whole_bare (encrypted : encryptor.whole message random = (.ok cipher, after)) :
    Sealer.whole ⟨encryptor, none⟩ message random = (.ok cipher, after) := by
  rw [Sealer.whole_eq_ok]
  exact ⟨cipher, none, [], encrypted, rfl, rfl, (List.append_nil _).symm⟩

end Whole

theorem whole_oaep {key : Rsa.PublicKey} {message cipher : Bytes} {random : Random}
    (made : Rsa.Oaep.encrypt? key (random.draw sha1Size).1 message = some cipher) :
    Encryptor.whole (.oaep ⟨key, [], false⟩) message random =
      (.ok cipher, (random.draw sha1Size).2) := by
  have fits : ([] : Bytes).length + message.length ≤ Rsa.Oaep.capacity key.length := by
    rw [Rsa.Oaep.encrypt?, Option.ite_none_left_eq_some, not_or, Nat.not_lt] at made
    simpa using made.1.1
  rw [Encryptor.whole_oaep key fits, List.nil_append, made]
  rfl

theorem exists_start_rsa {key : Key} {rsa : Rsa.PublicKey} (encrypts : EncryptsBy key rsa)
    {message artifact : Bytes} {random : Random}
    (made : layout? key (random.draw key.drawSize).1 message = some artifact) :
    ∃ sealer middle output,
      Sealer.start key random = (.ok (sealer, header key.hash), middle) ∧ Running sealer.mac ∧
      sealer.whole message middle = (.ok output, (random.draw key.drawSize).2) ∧
      artifact = header key.hash ++ output := by
  rw [encrypts.layout, encrypts.drawSize] at made
  obtain ⟨cipher, encrypted, rfl⟩ := Option.map_eq_some_iff.mp made
  rw [encrypts.drawSize]
  exact ⟨_, _, _, start_rsa encrypts random, .absent, whole_bare (whole_oaep encrypted), rfl⟩

theorem exists_start_of_layout {key : Key} {message artifact : Bytes} {random : Random}
    (made : layout? key (random.draw key.drawSize).1 message = some artifact) :
    ∃ sealer middle output,
      Sealer.start key random = (.ok (sealer, header key.hash), middle) ∧ Running sealer.mac ∧
      sealer.whole message middle = (.ok output, (random.draw key.drawSize).2) ∧
      artifact = header key.hash ++ output := by
  cases material : key.material with
  | aes aes =>
      have size : key.drawSize = Block.size := by rw [Key.drawSize, material]
      simp only [layout?, size, material, Option.some.injEq] at made ⊢
      refine ⟨_, _, _, start_aes material random, .hmac _,
        whole_hmac _ (Encryptor.whole_cbc _ _ _ _ _), ?_⟩
      rw [← made, HashFunction.hmac, HashFunction.updateHmac_append, List.append_assoc]
  | aesAead aes =>
      have size : key.drawSize = Gcm.nonceSize := by rw [Key.drawSize, material]
      simp only [layout?, size, material, Option.some.injEq] at made ⊢
      exact ⟨_, _, _, start_aesAead material random, .absent,
        whole_bare (Encryptor.whole_gcm _ _ _ _ _ _ _), made.symm⟩
  | rsaPrivate rsa => exact exists_start_rsa (encryptsBy_of_private material) made
  | rsaPublic rsa => exact exists_start_rsa (encryptsBy_of_public material) made
  | hmacSha1 mac => simp [layout?, material] at made
  | dsaPrivate dsa => simp [layout?, material] at made
  | dsaPublic dsa => simp [layout?, material] at made

theorem encrypt_eq_layout {key : Key} {message artifact : Bytes} {random : Random}
    (made : layout? key (random.draw key.drawSize).1 message = some artifact) :
    encrypt key message random = (.ok artifact, (random.draw key.drawSize).2) := by
  obtain ⟨sealer, middle, output, started, running, sent, rfl⟩ := exists_start_of_layout made
  exact encrypt_eq started running sent

theorem encryptStream_eq_layout {key : Key} {pieces : List Bytes} {artifact : Bytes}
    {random : Random}
    (made : layout? key (random.draw key.drawSize).1 pieces.flatten = some artifact)
    (nonempty : ∀ piece ∈ pieces, piece ≠ []) {sink : Sink} (unlimited : sink.room = none) :
    encryptStream key (pieces.map .chunk) sink random =
      (Sink.flush { sink with written := sink.written ++ artifact },
        (random.draw key.drawSize).2) := by
  obtain ⟨sealer, middle, output, started, running, sent, rfl⟩ := exists_start_of_layout made
  exact encryptStream_eq started running nonempty unlimited sent

theorem parse_eq_ok_iff {artifact body : Bytes} {hash : KeyHash} :
    parse artifact = .ok (hash, body) ↔ artifact = header hash ++ body := by
  constructor
  · intro parsed
    unfold parse at parsed
    split at parsed
    · split at parsed
      · next version =>
          cases parsed
          rw [version]
          rfl
      · cases parsed
    · cases parsed
  · rintro rfl
    rfl

theorem exists_layout {key : Key} (symmetric : key.IsSymmetric) (drawn message : Bytes) :
    ∃ body, layout? key drawn message = some (header key.hash ++ body) := by
  cases material : key.material with
  | aes aes =>
      simp only [layout?, material, List.append_assoc, Option.some.injEq,
        List.append_cancel_left_eq]
      exact ⟨_, rfl⟩
  | aesAead aes => simp [layout?, material]
  | _ => simp [Key.IsSymmetric, Key.keyType, material, Material.keyType] at symmetric

/-- A block of an RSA key has room for all but its padding, as keys are long enough. -/
theorem exists_layout_rsa {key : Key} {rsa : Rsa.PublicKey} (encrypts : EncryptsBy key rsa)
    (drawn : Bytes) {message : Bytes} (fits : message.length ≤ key.size / 8 - 42) :
    ∃ body, layout? key drawn message = some (header key.hash ++ body) := by
  have overhead : Rsa.Oaep.overhead = 42 := rfl
  have size := encrypts.size
  have wide : ¬ rsa.length < Rsa.Oaep.overhead := by
    have acceptable := key.acceptable
    change key.keyType.isAcceptableSize key.size = true at acceptable
    rcases encrypts.keyType with keyType | keyType
    all_goals
      simp [keyType, KeyType.isAcceptableSize, KeyType.sizes, size] at acceptable
      omega
  have room : ¬ Rsa.Oaep.capacity rsa.length < message.length := by
    rw [encrypts.capacity_eq]
    omega
  simp [encrypts.layout, Rsa.Oaep.encrypt?, wide, room]

theorem exists_layout_of_encrypts {key : Key}
    (encrypts : key.keyType.supports .decryptAndEncrypt = true ∨
      key.keyType.supports .encrypt = true) {message : Bytes}
    (fits : key.keyType = .rsaPrivate ∨ key.keyType = .rsaPublic →
      message.length ≤ key.size / 8 - 42) (drawn : Bytes) :
    ∃ body, layout? key drawn message = some (header key.hash ++ body) := by
  cases material : key.material with
  | aes aes =>
      exact exists_layout (.inl (by rw [Key.keyType, material]; rfl)) drawn message
  | aesAead aes =>
      exact exists_layout (.inr (by rw [Key.keyType, material]; rfl)) drawn message
  | rsaPrivate rsa =>
      have asymmetric := encryptsBy_of_private material
      exact exists_layout_rsa asymmetric drawn (fits asymmetric.keyType)
  | rsaPublic rsa =>
      have asymmetric := encryptsBy_of_public material
      exact exists_layout_rsa asymmetric drawn (fits asymmetric.keyType)
  | _ =>
      simp [Key.keyType, material, Material.keyType, KeyType.supports, KeyType.purposes] at encrypts

theorem exists_layout_of_supports {key : Key}
    (decrypts : key.keyType.supports .decryptAndEncrypt = true) {message : Bytes}
    (fits : key.keyType = .rsaPrivate → message.length ≤ key.size / 8 - 42) (drawn : Bytes) :
    ∃ body, layout? key drawn message = some (header key.hash ++ body) := by
  refine exists_layout_of_encrypts (.inl decrypts) ?_ drawn
  rintro (keyType | keyType)
  · exact fits keyType
  · rw [keyType] at decrypts
    cases decrypts

theorem encrypt_eq_ok_iff {key : Key} (symmetric : key.IsSymmetric) {message artifact : Bytes}
    {random : Random} :
    (encrypt key message random).1 = .ok artifact ↔
      layout? key (random.draw key.drawSize).1 message = some artifact := by
  obtain ⟨body, made⟩ := exists_layout symmetric (random.draw key.drawSize).1 message
  rw [encrypt_eq_layout made, made]
  simp

theorem drawn_of_layout {key : Key} (symmetric : key.IsSymmetric) {drawn message artifact : Bytes}
    (length : drawn.length = key.drawSize) (made : layout? key drawn message = some artifact) :
    (artifact.drop headerSize).take key.drawSize = drawn := by
  have front : ∃ rest, artifact = header key.hash ++ (drawn ++ rest) := by
    cases material : key.material with
    | aes aes =>
        simp only [layout?, material, List.append_assoc, Option.some.injEq] at made
        exact ⟨_, made.symm⟩
    | aesAead aes =>
        simp only [layout?, material, Option.some.injEq] at made
        exact ⟨_, made.symm⟩
    | _ => simp [Key.IsSymmetric, Key.keyType, material, Material.keyType] at symmetric
  obtain ⟨rest, rfl⟩ := front
  have size : (header key.hash).length = headerSize := rfl
  rw [List.drop_left' size, List.take_left' length]

section Opening

variable {key : Key} {head body message : Bytes}

/-- A key of AES with an authentication key opens what it could have made with
some initialization vector. -/
theorem decryptWith_aes {aes : AesHmacKey} (material : key.material = .aes aes) :
    decryptWith key head body = .ok message ↔
      ∃ iv : Block, body =
        (iv.toBytes ++ Cbc.encrypt (.ofKey aes.aes) iv message) ++
          sha1.hmac aes.mac (head ++ (iv.toBytes ++ Cbc.encrypt (.ofKey aes.aes) iv message)) := by
  have started : key.startDecryption head =
      .ok ⟨some (.cbc ⟨aes.aes.bytes, .collecting [], false⟩),
        some (.hmac (.start aes.mac))⟩ := by
    rw [Key.startDecryption, material]
    rfl
  have consistent : (Decryptor.cbc ⟨aes.aes.bytes, .collecting [], false⟩).Consistent := by
    intro iv collecting
    cases collecting
    decide
  have unfinished (output : Bytes) :
      (Decryptor.cbc ⟨aes.aes.bytes, .collecting [], false⟩).finish.2 ≠ .ok output := by
    intro finished
    cases finished
  rw [decryptWith, started, Outcome.ok_bind,
    openBody_eq_ok_iff rfl (.hmac _) consistent unfinished]
  constructor
  · rintro ⟨front, last, rfl, -, -, decrypted, accepted⟩
    obtain ⟨iv, rfl⟩ := Decryptor.whole_cbc_eq_ok.mp decrypted
    refine ⟨iv, ?_⟩
    rw [accepted]
    rfl
  · rintro ⟨iv, rfl⟩
    refine ⟨_, _, rfl, rfl, ?_, Decryptor.whole_cbc_eq_ok.mpr ⟨iv, rfl⟩, rfl⟩
    exact List.append_ne_nil_of_left_ne_nil (by simp [Block.toBytes]) _

/-- A key in Galois/counter mode opens what it could have made with some nonce. -/
theorem decryptWith_aesAead {aes : Aes.Key} (material : key.material = .aesAead aes) :
    decryptWith key head body = .ok message ↔
      ∃ nonce : Bytes, nonce.length = Gcm.nonceSize ∧
        body = nonce ++ Gcm.encrypt (.ofKey aes) nonce head message := by
  have started : key.startDecryption head =
      .ok ⟨some (.gcm ⟨.ofKey aes, head, [], false⟩), none⟩ := by
    rw [Key.startDecryption, material]
    simp [GcmDecryptor.start, Aes.Key.ofBytes]
  have unfinished (output : Bytes) :
      (Decryptor.gcm ⟨.ofKey aes, head, [], false⟩).finish.2 ≠ .ok output := by
    intro finished
    cases finished
  rw [decryptWith, started, Outcome.ok_bind,
    openBody_eq_ok_iff rfl .absent (Decryptor.consistent_gcm _) unfinished]
  constructor
  · rintro ⟨front, last, rfl, length, -, decrypted, -⟩
    rw [List.eq_nil_of_length_eq_zero length, List.append_nil]
    exact Decryptor.whole_gcm_eq_ok.mp decrypted
  · rintro ⟨nonce, length, rfl⟩
    refine ⟨_, [], (List.append_nil _).symm, rfl, ?_,
      Decryptor.whole_gcm_eq_ok.mpr ⟨nonce, length, rfl⟩, trivial⟩
    apply List.append_ne_nil_of_left_ne_nil
    rintro rfl
    cases length

theorem decryptWith_rsaPrivate {rsa : Rsa.PrivateKey} (material : key.material = .rsaPrivate rsa) :
    decryptWith key head body = .ok message ↔ Rsa.Oaep.decrypt? rsa body = some message := by
  have started : key.startDecryption head = .ok ⟨some (.oaep (.start rsa)), none⟩ := by
    rw [Key.startDecryption, material]
  have none : Rsa.Oaep.decrypt? rsa [] = Option.none := by
    have refused : ([] : Bytes).length ≠ rsa.publicKey.length ∨
        rsa.publicKey.length < Rsa.Oaep.overhead := by
      have overhead : Rsa.Oaep.overhead = 42 := rfl
      rw [List.length_nil]
      omega
    rw [Rsa.Oaep.decrypt?, if_pos refused]
  have unfinished (output : Bytes) : (Decryptor.oaep (.start rsa)).finish.2 ≠ .ok output := by
    simp [Decryptor.finish, OaepDecryptor.finish, OaepDecryptor.start, none]
  rw [decryptWith, started, Outcome.ok_bind,
    openBody_eq_ok_iff rfl .absent (Decryptor.consistent_oaep _) unfinished]
  constructor
  · rintro ⟨front, last, rfl, length, -, decrypted, -⟩
    rw [List.eq_nil_of_length_eq_zero length, List.append_nil]
    exact Decryptor.whole_oaep_eq_ok.mp decrypted
  · intro decrypted
    refine ⟨body, [], (List.append_nil _).symm, rfl, ?_,
      Decryptor.whole_oaep_eq_ok.mpr decrypted, trivial⟩
    rintro rfl
    simp [none] at decrypted

end Opening

/-- A symmetric key opens exactly what it makes with some random bytes. -/
theorem decryptWith_eq_ok_iff {key : Key} (symmetric : key.IsSymmetric) {body message : Bytes} :
    decryptWith key (header key.hash) body = .ok message ↔
      ∃ drawn : Bytes, drawn.length = key.drawSize ∧
        layout? key drawn message = some (header key.hash ++ body) := by
  cases material : key.material with
  | aes aes =>
      rw [decryptWith_aes material]
      simp only [Key.drawSize, layout?, material, Option.some.injEq, List.append_assoc,
        List.append_cancel_left_eq]
      constructor
      · rintro ⟨iv, rfl⟩
        refine ⟨iv.toBytes, by simp [Block.size], ?_⟩
        rw [Block.ofBytes_toBytes]
      · rintro ⟨drawn, length, rfl⟩
        obtain ⟨iv, rfl⟩ := Block.exists_eq_toBytes length
        refine ⟨iv, ?_⟩
        rw [Block.ofBytes_toBytes]
  | aesAead aes =>
      rw [decryptWith_aesAead material]
      simp only [Key.drawSize, layout?, material, Option.some.injEq, List.append_cancel_left_eq,
        eq_comm]
  | _ => simp [Key.IsSymmetric, Key.keyType, material, Material.keyType] at symmetric

theorem decryptWith_of_layout {key : Key}
    (decrypts : key.keyType.supports .decryptAndEncrypt = true) (reversible : key.Reversible)
    {drawn message body : Bytes} (length : drawn.length = key.drawSize)
    (made : layout? key drawn message = some (header key.hash ++ body)) :
    decryptWith key (header key.hash) body = .ok message := by
  cases material : key.material with
  | aes aes =>
      have symmetric : key.IsSymmetric := .inl (by rw [Key.keyType, material]; rfl)
      exact (decryptWith_eq_ok_iff symmetric).mpr ⟨drawn, length, made⟩
  | aesAead aes =>
      have symmetric : key.IsSymmetric := .inr (by rw [Key.keyType, material]; rfl)
      exact (decryptWith_eq_ok_iff symmetric).mpr ⟨drawn, length, made⟩
  | rsaPrivate rsa =>
      have seed : drawn.length = sha1Size := by rw [length, Key.drawSize, material]
      simp only [layout?, material, Option.map_eq_some_iff, List.append_cancel_left_eq] at made
      obtain ⟨cipher, encrypted, rfl⟩ := made
      exact (decryptWith_rsaPrivate material).mpr (reversible rsa material _ _ _ seed encrypted)
  | hmacSha1 mac => simp [layout?, material] at made
  | dsaPrivate dsa => simp [layout?, material] at made
  | dsaPublic dsa => simp [layout?, material] at made
  | rsaPublic rsa =>
      simp [Key.keyType, material, Material.keyType, KeyType.supports, KeyType.purposes] at decrypts

end Artifact

end VersionedKeys
