import VersionedKeys.Proofs.Artifact.Composition
import VersionedKeys.Proofs.Artifact.Failure
import VersionedKeys.Proofs.Streaming.Vector

/-!
# Messages of one block

A key of RSA encrypts what fits in one block and refuses everything else, wherever the message is
cut (`exists_encryptReads`, `encryptReads_of_long`).  Its streams take in what fits, and what they
refuse leaves no trace in them: `Collects.offer_eq`.
-/

namespace VersionedKeys

namespace Streaming

/-- The pieces that are taken in one after another, where there is room for some bytes. -/
def fitting : (room : Nat) → List Bytes → List Bytes
  | _, [] => []
  | room, piece :: pieces =>
      if piece.length ≤ room then piece :: fitting (room - piece.length) pieces
      else fitting room pieces

theorem length_fitting_le (room : Nat) (pieces : List Bytes) :
    (fitting room pieces).flatten.length ≤ room := by
  induction pieces generalizing room with
  | nil => exact Nat.zero_le room
  | cons piece pieces inductionHypothesis =>
      rw [fitting]
      split
      · have later := inductionHypothesis (room - piece.length)
        rw [List.flatten_cons, List.length_append]
        omega
      · exact inductionHypothesis room

theorem fitting_of_length_le {room : Nat} {pieces : List Bytes}
    (fits : pieces.flatten.length ≤ room) : fitting room pieces = pieces := by
  induction pieces generalizing room with
  | nil => rfl
  | cons piece pieces inductionHypothesis =>
      rw [List.flatten_cons, List.length_append] at fits
      rw [fitting, if_pos (by omega), inductionHypothesis (by omega)]

section Offer

variable {Stream : Type} (write : Stream → Bytes → Stream × Except Error Bytes)

/-- A stream to which pieces have been offered, whether it took them in or refused them. -/
def offer (stream : Stream) (pieces : List Bytes) : Stream :=
  pieces.foldl (fun stream piece => (write stream piece).1) stream

/-- A stream that has refused pieces is as if only those had been offered that fit.  Whatever has
been offered, a refusal has one cause and changes nothing. -/
def Forgets (limit : Nat) (refusal : Error) (start : Stream) : Prop :=
  ∀ pieces,
    offer write start pieces = offer write start (fitting limit pieces) ∧
    ∀ input error, (write (offer write start pieces) input).2 = .error error →
      error = refusal ∧ (write (offer write start pieces) input).1 = offer write start pieces

/-- Laws of streams that only hold what they have taken in, which is no more than a limit. -/
structure Collects (limit : Nat) (refusal : Error) (holding : Bytes → Stream) : Prop where
  takes {buffer input : Bytes} : buffer.length + input.length ≤ limit →
    write (holding buffer) input = (holding (buffer ++ input), .ok [])
  refuses {buffer input : Bytes} : limit < buffer.length + input.length →
    write (holding buffer) input = (holding buffer, .error refusal)

variable {write} {limit : Nat} {refusal : Error} {holding : Bytes → Stream}
  (collects : Collects write limit refusal holding)

include collects

/-- What has been refused leaves no trace. -/
theorem Collects.offer_eq {buffer : Bytes} (within : buffer.length ≤ limit)
    (pieces : List Bytes) :
    offer write (holding buffer) pieces =
      holding (buffer ++ (fitting (limit - buffer.length) pieces).flatten) := by
  induction pieces generalizing buffer with
  | nil => simp [offer, fitting]
  | cons piece pieces inductionHypothesis =>
      rw [offer, List.foldl_cons, fitting]
      split
      · next fits =>
          have taken : (buffer ++ piece).length ≤ limit := by
            rw [List.length_append]
            omega
          have room : limit - (buffer ++ piece).length = limit - buffer.length - piece.length := by
            rw [List.length_append, Nat.sub_sub]
          rw [collects.takes (by omega), ← room, List.flatten_cons, ← List.append_assoc]
          exact inductionHypothesis taken
      · rw [collects.refuses (by omega)]
        exact inductionHypothesis within

theorem Collects.offer_fitting (pieces : List Bytes) :
    offer write (holding []) pieces = offer write (holding []) (fitting limit pieces) := by
  have empty : ([] : Bytes).length ≤ limit := Nat.zero_le limit
  have fits := fitting_of_length_le (length_fitting_le limit pieces)
  rw [collects.offer_eq empty, collects.offer_eq empty, List.length_nil, Nat.sub_zero, fits]

theorem Collects.eq_of_refused {pieces : List Bytes} {input : Bytes} {error : Error}
    (refused : (write (offer write (holding []) pieces) input).2 = .error error) :
    error = refusal ∧
      (write (offer write (holding []) pieces) input).1 = offer write (holding []) pieces := by
  have empty : ([] : Bytes).length ≤ limit := Nat.zero_le limit
  rw [collects.offer_eq empty] at refused ⊢
  generalize ([] : Bytes) ++ (fitting _ pieces).flatten = buffer at refused ⊢
  by_cases fits : buffer.length + input.length ≤ limit
  · rw [collects.takes fits] at refused
    cases refused
  · rw [collects.refuses (by omega)] at refused ⊢
    exact ⟨(Except.error.inj refused).symm, rfl⟩

theorem Collects.forgets : Forgets write limit refusal (holding []) :=
  fun pieces => ⟨collects.offer_fitting pieces, fun _ _ refused => collects.eq_of_refused refused⟩

end Offer

theorem OaepEncryptor.collects (key : Rsa.PublicKey) :
    Collects write (Rsa.Oaep.capacity key.length) (.malformed .longPlaintext)
      fun buffer => ⟨key, buffer, false⟩ where
  takes fits := by simp [write, Nat.not_lt.mpr fits]
  refuses long := by simp [write, long]

theorem OaepDecryptor.collects (key : Rsa.PrivateKey) :
    Collects write key.publicKey.length .invalidCryptoData
      fun buffer => ⟨key, buffer, false⟩ where
  takes fits := by simp [write, Nat.not_lt.mpr fits]
  refuses long := by simp [write, long]

end Streaming

namespace Artifact

open Streaming

section Encryption

variable {key : Key} {sink : Sink} (unlimited : sink.room = none)

include unlimited

/-- However a message that can be encrypted is cut, what is sent is its artifact. -/
theorem encryptReads_eq_layout {pieces : List Bytes} {artifact : Bytes} {random : Random}
    (made : layout? key (random.draw key.drawSize).1 pieces.flatten = some artifact) :
    (encryptReads key (pieces.map .data) sink random).1 =
      Sink.flush { sink with written := sink.written ++ artifact } := by
  obtain ⟨sealer, middle, output, started, running, sent, rfl⟩ := exists_start_of_layout made
  have transferred := Sealer.transfer_eq running pieces
    (show { sink with written := sink.written ++ header key.hash }.room = none from unlimited) sent
  rw [encryptReads, started]
  simp only [Sink.write, unlimited] at transferred ⊢
  rw [transferred, List.append_assoc]

/-- However a message that does not fit is cut, it is refused, and only the header is sent. -/
theorem encryptReads_of_long {rsa : Rsa.PublicKey} (encrypts : EncryptsBy key rsa)
    {pieces : List Bytes} (long : key.size / 8 - 42 < pieces.flatten.length) (random : Random) :
    (encryptReads key (pieces.map .data) sink random).1 =
      (.error (.malformed .longPlaintext),
        { sink with written := sink.written ++ header key.hash }) := by
  rw [← encrypts.capacity_eq] at long
  have ready : Sealer.Ready ⟨.oaep ⟨rsa, [], false⟩, none⟩ :=
    ⟨⟨rfl, Nat.zero_le _⟩, .absent⟩
  have refused : Sealer.write ⟨.oaep ⟨rsa, [], false⟩, none⟩ pieces.flatten =
      .error (.malformed .longPlaintext) := by
    have tooLong : Rsa.Oaep.capacity rsa.length <
        ([] : Bytes).length + pieces.flatten.length := by
      rwa [List.length_nil, Nat.zero_add]
    rw [Sealer.write, Encryptor.write, (OaepEncryptor.collects rsa).refuses tooLong]
    rfl
  simp only [encryptReads, start_rsa encrypts, Sink.write, unlimited]
  rw [Sealer.transfer_eq_deliver, (Sealer.seamless random).drain_flatten ready, drain, refused]
  simp only [Sink.deliver, Sink.write_nil]

end Encryption

theorem EncryptsBy.exists_block {key : Key} {rsa : Rsa.PublicKey} (encrypts : EncryptsBy key rsa)
    (seed : Bytes) {message : Bytes} (fits : message.length ≤ key.size / 8 - 42) :
    ∃ block, Rsa.Oaep.encrypt? rsa seed message = some block ∧ block.length = key.size / 8 := by
  obtain ⟨body, made⟩ := exists_layout_rsa encrypts seed fits
  rw [encrypts.layout] at made
  obtain ⟨block, encrypted, -⟩ := Option.map_eq_some_iff.mp made
  refine ⟨block, encrypted, ?_⟩
  rw [length_oaep encrypted, encrypts.size, Nat.mul_div_cancel _ (by decide)]

/-- A stream makes its block of the pieces that it has taken in. -/
theorem EncryptsBy.exists_finish {key : Key} {rsa : Rsa.PublicKey} (encrypts : EncryptsBy key rsa)
    (pieces : List Bytes) (random : Random) :
    ∃ block, block.length = key.size / 8 ∧
      ((offer OaepEncryptor.write (.start rsa) pieces).finish random).1.2 = .ok block ∧
      Encryptor.drain (.oaep (.start rsa)) random (fitting (key.size / 8 - 42) pieces) =
        (block, .ok ()) := by
  have short := length_fitting_le (key.size / 8 - 42) pieces
  obtain ⟨block, encrypted, length⟩ :=
    encrypts.exists_block (random.draw Digest.sha1Size).1 short
  have empty : ([] : Bytes).length ≤ Rsa.Oaep.capacity rsa.length := Nat.zero_le _
  have offered := (OaepEncryptor.collects rsa).offer_eq empty pieces
  rw [List.nil_append, List.length_nil, Nat.sub_zero, encrypts.capacity_eq] at offered
  refine ⟨block, length, ?_, ?_⟩
  · rw [OaepEncryptor.start, offered]
    simp [OaepEncryptor.finish, encrypted]
  · have ready : Encryptor.Ready (.oaep (.start rsa)) := ⟨rfl, empty⟩
    rw [Encryptor.drain, (Encryptor.seamless random).drain_flatten ready]
    exact Encryptor.drain_of_whole (whole_oaep encrypted)

/-- Reading a source in pieces is the same as being given them. -/
theorem encryptStream_eq_encryptReads {pieces : List Bytes}
    (nonempty : ∀ piece ∈ pieces, piece ≠ []) (key : Key) (sink : Sink) (random : Random) :
    (encryptStream key (pieces.map .chunk) sink random).1 =
      (encryptReads key (pieces.map .data) sink random).1 := by
  have streamed : encryptStream key (pieces.map .chunk) sink random =
      encryptReads key (Source.reads chunkSize (pieces.map .chunk)) sink random := rfl
  obtain ⟨parts, read, joined⟩ := exists_reads_eq nonempty
  rw [streamed, read]
  exact encryptReads_eq joined key sink random

theorem size_div_eq {key : Key} {rsa : Rsa.PrivateKey} (material : key.material = .rsaPrivate rsa) :
    key.size / 8 = rsa.publicKey.length := by
  rw [(encryptsBy_of_private material).size, Nat.mul_div_cancel _ (by decide)]

/-- A body that is longer than a block is refused, however it is cut. -/
theorem openPieces_of_long {key : Key} {rsa : Rsa.PrivateKey}
    (material : key.material = .rsaPrivate rsa) {head : Bytes} {streams : Decryption}
    (started : key.startDecryption head = .ok streams) {pieces : List Bytes}
    (long : key.size / 8 < pieces.flatten.length) :
    openPieces streams head pieces = .error .invalidCryptoData := by
  have tooLong : rsa.publicKey.length < ([] : Bytes).length + pieces.flatten.length := by
    rwa [List.length_nil, Nat.zero_add, ← size_div_eq material]
  have refused : Opener.decrypt (some (.oaep (.start rsa))) pieces.flatten =
      .error .invalidCryptoData := by
    rw [Opener.decrypt, Decryptor.write, OaepDecryptor.start,
      (OaepDecryptor.collects rsa).refuses tooLong]
    rfl
  have given := takeIn_eq_given (.key started) head pieces
  rw [Key.startDecryption, material] at started
  cases started
  have none : Decryption.tagLength ⟨some (.oaep (.start rsa)), none⟩ = 0 := rfl
  rw [none, Nat.sub_zero, List.take_length, Artifact.given, refused] at given
  rw [openPieces, given]
  rfl

theorem decryptWith_of_long {key : Key} {rsa : Rsa.PrivateKey}
    (material : key.material = .rsaPrivate rsa) (head : Bytes) {body : Bytes}
    (long : key.size / 8 < body.length) :
    decryptWith key head body = .error .invalidCryptoData := by
  have started : key.startDecryption head = .ok ⟨some (.oaep (.start rsa)), none⟩ := by
    rw [Key.startDecryption, material]
  have whole : [body].flatten = body := by simp
  rw [decryptWith, started, Outcome.ok_bind, ← whole,
    ← openPieces_eq_openBody (.key started) head [body]]
  exact openPieces_of_long material started (by rwa [whole])

/-- No key of RSA opens what is longer than its block, a public one opens nothing. -/
theorem decrypt_of_long {candidates : KeyHash → List Key} {hash : KeyHash} {body : Bytes}
    (asymmetric : ∀ key ∈ candidates hash,
      (key.keyType = .rsaPrivate ∨ key.keyType = .rsaPublic) ∧ key.size / 8 < body.length) :
    decrypt candidates (header hash ++ body) = .error .invalidCryptoData := by
  rw [decrypt_eq_firstOpened (parse_eq_ok_iff.mpr rfl)]
  rcases firstOpened_eq_ok_or (header hash) body (candidates hash) with
    ⟨key, membership, message, opened, -⟩ | ⟨-, refused⟩
  · obtain ⟨keyType, long⟩ := asymmetric key membership
    cases material : key.material with
    | rsaPrivate rsa =>
        rw [decryptWith_of_long material _ long] at opened
        cases opened
    | rsaPublic rsa =>
        rw [decryptWith, Key.startDecryption, material] at opened
        cases opened
    | _ => simp [Key.keyType, material, Material.keyType] at keyType
  · exact refused

/-- A key of RSA makes an artifact of exactly the messages that fit in one block, and it has the
length of the block and a header, in whatever pieces a message is written or read.  Every longer
message is refused.  What a stream refuses leaves no trace in it, so that it ends with the block of
the pieces that it has taken in.  A body that is longer than a block is not opened, however it is
cut and whatever keys of RSA are tried. -/
theorem one_block {key : Key}
    (asymmetric : key.keyType = .rsaPrivate ∨ key.keyType = .rsaPublic) :
    (∀ (pieces : List Bytes) (random : Random) (sink : Sink), sink.room = none →
      sink.flushFails = false →
      (pieces.flatten.length ≤ key.size / 8 - 42 → ∃ artifact,
        artifact.length = 5 + key.size / 8 ∧
        (encrypt key pieces.flatten random).1 = .ok artifact ∧
        (encryptReads key (pieces.map .data) sink random).1 =
          (.ok (), { sink with
            written := sink.written ++ artifact, flushes := sink.flushes + 1 })) ∧
      (key.size / 8 - 42 < pieces.flatten.length →
        (encrypt key pieces.flatten random).1 = .error (.malformed .longPlaintext) ∧
        (encryptReads key (pieces.map .data) sink random).1 =
          (.error (.malformed .longPlaintext),
            { sink with written := sink.written ++ header key.hash })) ∧
      ((∀ piece ∈ pieces, piece ≠ []) →
        (encryptStream key (pieces.map .chunk) sink random).1 =
          (encryptReads key (pieces.map .data) sink random).1)) ∧
    (∃ rsa, EncryptsBy key rsa ∧
      Forgets OaepEncryptor.write (key.size / 8 - 42) (.malformed .longPlaintext) (.start rsa) ∧
      ∀ pieces random, ∃ block, block.length = key.size / 8 ∧
        ((offer OaepEncryptor.write (.start rsa) pieces).finish random).1.2 = .ok block ∧
        Encryptor.drain (.oaep (.start rsa)) random (fitting (key.size / 8 - 42) pieces) =
          (block, .ok ())) ∧
    (∀ rsa, key.material = .rsaPrivate rsa →
      Forgets OaepDecryptor.write (key.size / 8) .invalidCryptoData (.start rsa) ∧
      (∀ head streams, key.startDecryption head = .ok streams → ∀ pieces : List Bytes,
        key.size / 8 < pieces.flatten.length →
        openPieces streams head pieces = .error .invalidCryptoData) ∧
      ∀ head body, key.size / 8 < body.length →
        decryptWith key head body = .error .invalidCryptoData) ∧
    ∀ candidates hash body, (∀ other ∈ candidates hash,
        (other.keyType = .rsaPrivate ∨ other.keyType = .rsaPublic) ∧
          other.size / 8 < body.length) →
      decrypt candidates (header hash ++ body) = .error .invalidCryptoData := by
  obtain ⟨rsa, encrypts⟩ := exists_encryptsBy asymmetric
  refine ⟨?_, ⟨rsa, encrypts, ?_, encrypts.exists_finish⟩, ?_, ?_⟩
  · intro pieces random sink unlimited flushes
    refine ⟨?_, ?_, fun nonempty => encryptStream_eq_encryptReads nonempty key sink random⟩
    · intro fits
      obtain ⟨block, encrypted, length⟩ :=
        encrypts.exists_block (random.draw Digest.sha1Size).1 fits
      have made : layout? key (random.draw key.drawSize).1 pieces.flatten =
          some (header key.hash ++ block) := by
        rw [encrypts.layout, encrypts.drawSize, encrypted]
        rfl
      refine ⟨_, ?_, congrArg Prod.fst (encrypt_eq_layout made), ?_⟩
      · rw [List.length_append, length_header, length]
      · rw [encryptReads_eq_layout unlimited made]
        simp [Sink.flush, flushes]
    · intro long
      refine ⟨encrypt_of_long encrypts ?_ random,
        encryptReads_of_long unlimited encrypts long random⟩
      rwa [encrypts.capacity_eq]
  · rw [← encrypts.capacity_eq]
    exact (OaepEncryptor.collects rsa).forgets
  · intro rsa material
    refine ⟨?_, ?_, ?_⟩
    · rw [size_div_eq material]
      exact (OaepDecryptor.collects rsa).forgets
    · intro head streams started pieces long
      exact openPieces_of_long material started long
    · intro head body long
      exact decryptWith_of_long material head long
  · intro candidates hash body asymmetric
    exact decrypt_of_long asymmetric

end Artifact

namespace Sample

/-- A private key of RSA with blocks of 128 bytes, whose factors are the same number. -/
def blockPair : Key :=
  ⟨.rsaPrivate ⟨⟨(2 ^ 512 - 1) ^ 2, 3, by decide +kernel⟩, (2 ^ 512 - 1) / 3, 2 ^ 512 - 1,
    2 ^ 512 - 1, by decide +kernel⟩, by decide +kernel⟩

end Sample

open Streaming in
/-- Messages that just fit and just do not, a piece that is refused between others, and a body that
is a byte too long. -/
theorem Artifact.one_block_sample :
    (∃ artifact, artifact.length = 133 ∧
      (encrypt Sample.blockPair (List.replicate 86 7) {}).1 = .ok artifact) ∧
    (encrypt Sample.blockPair (List.replicate 87 7) {}).1 = .error (.malformed .longPlaintext) ∧
    (∃ rsa, EncryptsBy Sample.blockPair rsa ∧
      offer OaepEncryptor.write (.start rsa)
          [List.replicate 80 7, List.replicate 7 8, List.replicate 6 9] =
        offer OaepEncryptor.write (.start rsa) [List.replicate 80 7, List.replicate 6 9]) ∧
    decrypt (fun _ => [Sample.blockPair]) (List.replicate 134 0) = .error .invalidCryptoData := by
  have block : Sample.blockPair.size / 8 = 128 := by decide +kernel
  have isPrivate : Sample.blockPair.keyType = .rsaPrivate := rfl
  obtain ⟨encrypts, ⟨rsa, sealing, forgets, -⟩, -, opens⟩ := one_block (.inl isPrivate)
  rw [block] at encrypts forgets
  refine ⟨?_, ?_, ⟨rsa, sealing, (forgets _).1⟩, ?_⟩
  · obtain ⟨artifact, length, made, -⟩ :=
      (encrypts [List.replicate 86 7] {} {} rfl rfl).1 (by decide)
    exact ⟨artifact, length, made⟩
  · exact ((encrypts [List.replicate 87 7] {} {} rfl rfl).2.1 (by decide)).1
  · refine opens (fun _ => [Sample.blockPair]) ⟨⟨0, 0, 0, 0⟩⟩ (List.replicate 129 0) ?_
    intro other membership
    obtain rfl := List.mem_singleton.mp membership
    exact ⟨.inl isPrivate, by rw [block, List.length_replicate]; decide⟩

end VersionedKeys
