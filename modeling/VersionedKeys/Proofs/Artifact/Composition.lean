import VersionedKeys.Proofs.Artifact.Seamless
import VersionedKeys.Proofs.RoundTrip

/-!
# What artifacts are made of

The parts of an artifact, one after the other, for each kind of key (`Composed`).
A message that is delivered in any pieces becomes those parts, and at every point on
the way the tag stream has taken in what has been sent: `composition`.
-/

namespace VersionedKeys

open Aes Digest Streaming

namespace Artifact

/-- What an artifact of a message is made of, by the kind of the key, if some random bytes
were drawn for it. -/
def Composed (key : Key) (drawn message artifact : Bytes) : Prop :=
  match key.material with
  | .aes aes => ∃ plain cipher tag,
      Block.join plain =
        message ++ List.replicate (16 - message.length % 16)
          (UInt8.ofNat (16 - message.length % 16)) ∧
      Cbc.Chained (.ofKey aes.aes) (.ofBytes drawn) plain cipher ∧
      tag = sha1.hmac aes.mac (0 :: key.hash.toBytes ++ drawn ++ Block.join cipher) ∧
      artifact = 0 :: key.hash.toBytes ++ drawn ++ Block.join cipher ++ tag ∧
      artifact.length = 5 + 16 + 16 * (message.length / 16 + 1) + 20
  | .aesAead aes =>
      artifact = 0 :: key.hash.toBytes ++ drawn ++
        Gcm.encrypt (.ofKey aes) drawn (0 :: key.hash.toBytes) message ∧
      artifact.length = 5 + 12 + message.length + 16
  | .rsaPrivate rsa => ∃ block, Rsa.Oaep.encrypt? rsa.publicKey drawn message = some block ∧
      artifact = 0 :: key.hash.toBytes ++ block ∧ artifact.length = 5 + key.size / 8
  | .rsaPublic rsa => ∃ block, Rsa.Oaep.encrypt? rsa drawn message = some block ∧
      artifact = 0 :: key.hash.toBytes ++ block ∧ artifact.length = 5 + key.size / 8
  | _ => False

@[simp]
theorem length_header (hash : KeyHash) : (header hash).length = 5 := rfl

theorem length_oaep {rsa : Rsa.PublicKey} {seed message block : Bytes}
    (made : Rsa.Oaep.encrypt? rsa seed message = some block) : block.length = rsa.length := by
  simp only [Rsa.Oaep.encrypt?, Option.ite_none_left_eq_some, Option.some.injEq] at made
  rw [← made.2, Bytes.length_ofNat]

theorem exists_composed_rsa {key : Key} {rsa : Rsa.PublicKey} (encrypts : EncryptsBy key rsa)
    {drawn message artifact : Bytes} (made : layout? key drawn message = some artifact) :
    ∃ block, Rsa.Oaep.encrypt? rsa drawn message = some block ∧
      artifact = 0 :: key.hash.toBytes ++ block ∧ artifact.length = 5 + key.size / 8 := by
  rw [encrypts.layout] at made
  obtain ⟨block, encrypted, rfl⟩ := Option.map_eq_some_iff.mp made
  refine ⟨block, encrypted, rfl, ?_⟩
  rw [List.length_append, length_header, length_oaep encrypted, encrypts.size]
  omega

theorem composed_of_layout {key : Key} {drawn message artifact : Bytes}
    (length : drawn.length = key.drawSize) (made : layout? key drawn message = some artifact) :
    Composed key drawn message artifact := by
  cases material : key.material with
  | aes aes =>
      have size : drawn.length = 16 := by rw [length, Key.drawSize, material]; rfl
      obtain ⟨plain, cipher, padded, chained, cut⟩ :=
        Cbc.exists_encrypt_eq (.ofKey aes.aes) (.ofBytes drawn) message
      have long := Cbc.length_encrypt (.ofKey aes.aes) (.ofBytes drawn) message
      have tag (sent : Bytes) : (sha1.hmac aes.mac sent).length = 20 := rfl
      simp only [layout?, material, Option.some.injEq] at made
      simp only [Composed, material]
      refine ⟨plain, cipher, _, padded, chained, rfl, ?_, ?_⟩
      · rw [← made, ← cut, List.append_assoc _ drawn]
        rfl
      · rw [← made, List.length_append, List.length_append, List.length_append, tag,
          length_header, size, long]
        omega
  | aesAead aes =>
      have size : drawn.length = 12 := by rw [length, Key.drawSize, material]; rfl
      have tag : Gcm.tagSize = 16 := rfl
      simp only [layout?, material, Option.some.injEq] at made
      simp only [Composed, material]
      refine ⟨?_, ?_⟩
      · rw [← made, List.append_assoc]
        rfl
      · rw [← made, List.length_append, List.length_append, length_header, size,
          Gcm.length_encrypt, tag]
        omega
  | rsaPrivate rsa =>
      simp only [Composed, material]
      exact exists_composed_rsa (encryptsBy_of_private material) made
  | rsaPublic rsa =>
      simp only [Composed, material]
      exact exists_composed_rsa (encryptsBy_of_public material) made
  | hmacSha1 mac => simp [layout?, material] at made
  | dsaPrivate dsa => simp [layout?, material] at made
  | dsaPublic dsa => simp [layout?, material] at made

namespace Sealer

/-- A sealer whose tag stream is an authentication that has come this far. -/
def Covers (sealer : Sealer) (mac : Digest.Hmac Sha1State) : Prop :=
  sealer.mac = some (.hmac (.running mac))

/-- Write pieces one after another, and say what is to be sent for all of them. -/
def writeAll (sealer : Sealer) : List Bytes → Except Error (Sealer × Bytes)
  | [] => .ok (sealer, [])
  | piece :: pieces => do
      let (sealer, output) ← sealer.write piece
      let (sealer, more) ← writeAll sealer pieces
      .ok (sealer, output ++ more)

/-- What is sent for a piece is covered, and nothing else. -/
theorem Covers.write {sealer next : Sealer} {mac : Digest.Hmac Sha1State}
    (covers : sealer.Covers mac) {piece output : Bytes}
    (written : sealer.write piece = .ok (next, output)) :
    next.Covers (sha1.updateHmac mac output) := by
  obtain ⟨-, fed⟩ := write_eq_ok.mp written
  rw [covers] at fed
  exact (Except.ok.inj fed).symm

theorem Covers.writeAll {sealer final : Sealer} {mac : Digest.Hmac Sha1State}
    (covers : sealer.Covers mac) {pieces : List Bytes} {sent : Bytes}
    (written : sealer.writeAll pieces = .ok (final, sent)) :
    final.Covers (sha1.updateHmac mac sent) := by
  induction pieces generalizing sealer mac sent with
  | nil =>
      cases written
      exact covers
  | cons piece pieces inductionHypothesis =>
      obtain ⟨⟨next, output⟩, first, rest⟩ := Outcome.bind_eq_ok.mp written
      obtain ⟨⟨last, more⟩, later, equality⟩ := Outcome.bind_eq_ok.mp rest
      cases equality
      rw [HashFunction.updateHmac_append]
      exact inductionHypothesis (covers.write first) later

/-- At the end the rest of the cipher text is sent, and a tag that covers it too. -/
theorem Covers.exists_finish {sealer : Sealer} {mac : Digest.Hmac Sha1State}
    (covers : sealer.Covers mac) {random : Random} {ending : Bytes}
    (finished : (sealer.finish random).1 = .ok ending) :
    ∃ rest, ending = rest ++ sha1.finishHmac (sha1.updateHmac mac rest) := by
  rw [finish_eq] at finished
  obtain ⟨rest, -, finished⟩ := Outcome.bind_eq_ok.mp finished
  rw [covers] at finished
  cases finished
  exact ⟨rest, rfl⟩

theorem exists_writeAll {sealer : Sealer} (running : Running sealer.mac) (pieces : List Bytes)
    {random after : Random} {output : Bytes}
    (whole : sealer.whole pieces.flatten random = (.ok output, after)) :
    ∃ final sent ending, sealer.writeAll pieces = .ok (final, sent) ∧
      final.finish random = (.ok ending, after) ∧ output = sent ++ ending := by
  induction pieces generalizing sealer output with
  | nil => exact ⟨sealer, [], output, rfl, finish_eq_whole_nil whole, rfl⟩
  | cons piece pieces inductionHypothesis =>
      obtain ⟨next, first, rest, written, nextRunning, restSent, rfl⟩ :=
        exists_write_of_whole_append running whole
      obtain ⟨final, sent, ending, writtenAll, finished, rfl⟩ :=
        inductionHypothesis nextRunning restSent
      refine ⟨final, first ++ sent, ending, ?_, finished, (List.append_assoc _ _ _).symm⟩
      rw [writeAll, written, Outcome.ok_bind]
      simp only [writtenAll, Outcome.ok_bind]

end Sealer

/-- A message is encrypted in some pieces, so that the tag stream has taken in the header
and all that is sent for them.  The artifact ends in the tag over all that is sent before. -/
def SealedInPieces (key : Key) (mac : Bytes) (random : Random) (pieces : List Bytes)
    (artifact : Bytes) : Prop :=
  ∃ sealer middle final sent rest tag,
    Sealer.start key random = (.ok (sealer, header key.hash), middle) ∧
    sealer.writeAll pieces = .ok (final, sent) ∧
    final.Covers (sha1.updateHmac (sha1.startHmac mac) (header key.hash ++ sent)) ∧
    (final.finish middle).1 = .ok (rest ++ tag) ∧
    tag = sha1.hmac mac (header key.hash ++ sent ++ rest) ∧
    artifact = header key.hash ++ sent ++ rest ++ tag

theorem sealedInPieces {key : Key} {aes : AesHmacKey} (material : key.material = .aes aes)
    {random : Random} {pieces : List Bytes} {artifact : Bytes}
    (made : layout? key (random.draw key.drawSize).1 pieces.flatten = some artifact) :
    SealedInPieces key aes.mac random pieces artifact := by
  obtain ⟨sealer, middle, output, started, running, whole, rfl⟩ := exists_start_of_layout made
  have covers : sealer.Covers (sha1.updateHmac (sha1.startHmac aes.mac) (header key.hash)) := by
    rw [start_aes material] at started
    cases started
    rfl
  obtain ⟨final, sent, ending, written, finished, rfl⟩ :=
    Sealer.exists_writeAll running pieces whole
  have coversAll := covers.writeAll written
  rw [← HashFunction.updateHmac_append] at coversAll
  obtain ⟨rest, rfl⟩ := coversAll.exists_finish (congrArg Prod.fst finished)
  refine ⟨sealer, middle, final, sent, rest, _, started, written, coversAll,
    congrArg Prod.fst finished, ?_, ?_⟩
  · rw [HashFunction.hmac, ← HashFunction.updateHmac_append]
  · simp only [List.append_assoc]

theorem encrypt_eq_encryptReads (key : Key) (message : Bytes) (random : Random) :
    (encrypt key message random).1 =
      (encryptReads key [.data message] {} random).1.1.map fun _ =>
        (encryptReads key [.data message] {} random).1.2.written := by
  have streamed : (encryptStream key (.ofBytes message) {} random).1 =
      (encryptReads key [.data message] {} random).1 := by
    have joined : (message.chunks chunkSize).flatten = [message].flatten := by
      rw [Bytes.flatten_chunks (by decide), List.flatten_singleton]
    rw [encryptStream_ofBytes]
    exact encryptReads_eq joined key {} random
  rw [encrypt, ← streamed]

/-- A message that does not fit in a block is refused. -/
theorem encrypt_of_long {key : Key} {rsa : Rsa.PublicKey} (encrypts : EncryptsBy key rsa)
    {message : Bytes} (long : Rsa.Oaep.capacity rsa.length < message.length) (random : Random) :
    (encrypt key message random).1 = .error (.malformed .longPlaintext) := by
  have refused : Sealer.write ⟨.oaep ⟨rsa, [], false⟩, none⟩ message =
      .error (.malformed .longPlaintext) := by
    simp [Sealer.write, Encryptor.write, OaepEncryptor.write, long]
  have read : (encryptReads key [.data message] {} random).1.1 =
      .error (.malformed .longPlaintext) := by
    rw [encryptReads, start_rsa encrypts]
    simp only [Sink.write, Sealer.transfer, refused]
  rw [encrypt_eq_encryptReads, read]
  rfl

theorem long_of_unmade {key : Key} {rsa : Rsa.PublicKey} (encrypts : EncryptsBy key rsa)
    {drawn message : Bytes} (unmade : layout? key drawn message = none) :
    Rsa.Oaep.capacity rsa.length < message.length := by
  by_contra room
  have fits : message.length ≤ key.size / 8 - 42 := by
    rw [encrypts.capacity_eq] at room
    omega
  obtain ⟨body, made⟩ := exists_layout_rsa encrypts drawn fits
  rw [made] at unmade
  cases unmade

theorem encrypt_of_unsupported {key : Key} {error : Error}
    (unsupported : ∀ random, (key.startEncryption (header key.hash) random).1 = .error error)
    (message : Bytes) (random : Random) :
    (encrypt key message random).1 = .error error := by
  have started : (Sealer.start key random).1 = .error error := by
    rw [Sealer.start_eq, unsupported]
    rfl
  have read : (encryptReads key [.data message] {} random).1.1 = .error error := by
    rw [encryptReads]
    generalize Sealer.start key random = begun at started
    obtain ⟨result, after⟩ := begun
    cases started
    rfl
  rw [encrypt_eq_encryptReads, read]
  rfl

/-- Where a key makes nothing of a message, encryption fails. -/
theorem fails_encrypt {key : Key} {message : Bytes} {random : Random}
    (unmade : layout? key (random.draw key.drawSize).1 message = none) :
    Outcome.Fails (encrypt key message random).1 := by
  cases material : key.material with
  | aes aes => simp [layout?, material] at unmade
  | aesAead aes => simp [layout?, material] at unmade
  | rsaPrivate rsa =>
      have encrypts := encryptsBy_of_private material
      exact ⟨_, encrypt_of_long encrypts (long_of_unmade encrypts unmade) random⟩
  | rsaPublic rsa =>
      have encrypts := encryptsBy_of_public material
      exact ⟨_, encrypt_of_long encrypts (long_of_unmade encrypts unmade) random⟩
  | hmacSha1 mac | dsaPrivate dsa | dsaPublic dsa =>
      refine ⟨key.unsupported .encryption, encrypt_of_unsupported ?_ message random⟩
      intro random
      rw [Key.startEncryption, material]

theorem encrypt_eq_ok_iff_layout {key : Key} {message artifact : Bytes} {random : Random} :
    (encrypt key message random).1 = .ok artifact ↔
      layout? key (random.draw key.drawSize).1 message = some artifact := by
  constructor
  · intro encrypted
    cases made : layout? key (random.draw key.drawSize).1 message with
    | none =>
        obtain ⟨error, failed⟩ := fails_encrypt made
        rw [failed] at encrypted
        cases encrypted
    | some other =>
        rw [encrypt_eq_layout made, Except.ok.injEq] at encrypted
        rw [encrypted]
  · intro made
    rw [encrypt_eq_layout made]

/-- Whatever a key makes of a message has fixed parts, and is the same in whatever pieces
the message is delivered.  The tag of an artifact that has one covers all that is sent
before it, and at every point on the way has taken in what has been sent.  Every
key that encrypts makes an artifact of every message, a key of RSA of those that
fit in one block. -/
theorem composition (key : Key) (random : Random) (message : Bytes) :
    (∀ artifact, (encrypt key message random).1 = .ok artifact →
      Composed key (random.draw key.drawSize).1 message artifact ∧
      (∀ pieces : List Bytes, pieces.flatten = message → (∀ piece ∈ pieces, piece ≠ []) →
        ∀ sink : Sink, sink.room = none →
          encryptStream key (pieces.map .chunk) sink random =
            (Sink.flush { sink with written := sink.written ++ artifact },
              (random.draw key.drawSize).2)) ∧
      ∀ aes, key.material = .aes aes → ∀ pieces : List Bytes, pieces.flatten = message →
        SealedInPieces key aes.mac random pieces artifact) ∧
    ((key.keyType.supports .decryptAndEncrypt = true ∨ key.keyType.supports .encrypt = true) →
      (key.keyType = .rsaPrivate ∨ key.keyType = .rsaPublic →
        message.length ≤ key.size / 8 - 42) →
      ∃ artifact, (encrypt key message random).1 = .ok artifact) := by
  constructor
  · intro artifact encrypted
    have made := encrypt_eq_ok_iff_layout.mp encrypted
    refine ⟨composed_of_layout (Random.length_draw _ _) made, ?_, ?_⟩
    · rintro pieces rfl nonempty sink unlimited
      exact encryptStream_eq_layout made nonempty unlimited
    · rintro aes material pieces rfl
      exact sealedInPieces material made
  · intro encrypts fits
    obtain ⟨body, made⟩ := exists_layout_of_encrypts encrypts fits (random.draw key.drawSize).1
    exact ⟨_, encrypt_eq_ok_iff_layout.mpr made⟩

theorem composition_sample :
    ∃ artifact, (encrypt Sample.key [104, 105] {}).1 = .ok artifact ∧
      encryptStream Sample.key [.chunk [104], .chunk [105]] {} {} =
        (Sink.flush { written := artifact }, (Random.draw 16 {}).2) ∧
      artifact.length = 57 ∧
      SealedInPieces Sample.key (List.replicate 32 2) {} [[104], [], [105]] artifact := by
  obtain ⟨parts, returns⟩ := composition Sample.key {} [104, 105]
  obtain ⟨artifact, made⟩ := returns (.inl (by decide)) (by decide)
  obtain ⟨composed, streamed, sealed⟩ := parts artifact made
  have nonempty : ∀ piece ∈ ([[104], [105]] : List Bytes), piece ≠ [] := by decide
  obtain ⟨plain, cipher, tag, -, -, -, -, length⟩ := composed
  exact ⟨artifact, made, streamed _ rfl nonempty {} rfl, length, sealed _ rfl _ rfl⟩

end Artifact

end VersionedKeys
