import VersionedKeys.Proofs.Artifact.Pieces
import VersionedKeys.Proofs.Artifact.Transfer
import VersionedKeys.Proofs.Streaming.Vector

/-!
# Artifacts without seams

An artifact in the making sends the same bytes for any pieces of a message
(`Sealer.seamless`), whatever sink takes them (`Sealer.transfer_eq_deliver`).  An
artifact that is opened in any pieces gives its tag stream all but the last bytes,
and its decryptor the same without the header (`Opener.foldlM_write_eq_given`).
-/

namespace VersionedKeys

namespace Artifact

open Streaming

section Making

theorem Running.exists_tag {mac : Option TagStream} (running : Running mac) :
    ∃ last, Sealer.tag mac = .ok last := by
  cases running with
  | absent => exact ⟨[], rfl⟩
  | hmac mac => exact ⟨_, rfl⟩
  | decoy mac => exact ⟨[], rfl⟩

namespace Sealer

structure Ready (sealer : Sealer) : Prop where
  encryptor : sealer.encryptor.Ready
  running : Running sealer.mac

theorem write_eq_ok {sealer next : Sealer} {input output : Bytes} :
    sealer.write input = .ok (next, output) ↔
      push Encryptor.write sealer.encryptor input = .ok (next.encryptor, output) ∧
        feed sealer.mac output = .ok next.mac := by
  rw [write_eq]
  constructor
  · intro written
    obtain ⟨⟨encryptor, sent⟩, pushed, rest⟩ := Outcome.bind_eq_ok.mp written
    obtain ⟨mac, fed, equality⟩ := Outcome.bind_eq_ok.mp rest
    cases equality
    exact ⟨pushed, fed⟩
  · rintro ⟨pushed, fed⟩
    simp only [pushed, fed, Outcome.ok_bind]

/-- A write fails only if the encryptor refuses it. -/
theorem Ready.exists_write {sealer : Sealer} (ready : sealer.Ready) {encryptor : Encryptor}
    {input output : Bytes}
    (pushed : push Encryptor.write sealer.encryptor input = .ok (encryptor, output)) :
    ∃ mac, feed sealer.mac output = .ok mac ∧
      sealer.write input = .ok (⟨encryptor, mac⟩, output) ∧ Ready ⟨encryptor, mac⟩ := by
  obtain ⟨mac, fed, running⟩ := ready.running.exists_feed output
  exact ⟨mac, fed, write_eq_ok.mpr ⟨pushed, fed⟩, (ready.encryptor.push pushed).1, running⟩

theorem Ready.of_write {sealer next : Sealer} (ready : sealer.Ready) {input output : Bytes}
    (written : sealer.write input = .ok (next, output)) : next.Ready := by
  obtain ⟨pushed, fed⟩ := write_eq_ok.mp written
  obtain ⟨mac, fedAgain, running⟩ := ready.running.exists_feed output
  cases fed.symm.trans fedAgain
  exact ⟨(ready.encryptor.push pushed).1, running⟩

theorem Ready.write_append {sealer : Sealer} (ready : sealer.Ready) (front back : Bytes) :
    sealer.write (front ++ back) =
      sealer.write front >>= fun (next, output) =>
        next.write back >>= fun (last, more) => .ok (last, output ++ more) := by
  cases pushed : push Encryptor.write sealer.encryptor front with
  | error error => simp [write_eq, Encryptor.push_append, pushBoth, pushed]
  | ok result =>
      obtain ⟨encryptor, output⟩ := result
      obtain ⟨mac, fed, written, later⟩ := ready.exists_write pushed
      rw [written, Outcome.ok_bind]
      cases pushedAfter : push Encryptor.write encryptor back with
      | error error => simp [write_eq, Encryptor.push_append, pushBoth, pushed, pushedAfter]
      | ok result =>
          obtain ⟨last, more⟩ := result
          obtain ⟨ending, fedAfter, writtenAfter, -⟩ := later.exists_write pushedAfter
          simp only [writtenAfter, Outcome.ok_bind]
          refine write_eq_ok.mpr ⟨?_, ?_⟩
          · simp only [Encryptor.push_append, pushBoth, pushed, pushedAfter, Outcome.ok_bind]
          · rw [ready.running.feed_append, fed]
            exact fedAfter

theorem finish_eq (sealer : Sealer) (random : Random) :
    (sealer.finish random).1 =
      (sealer.encryptor.finish random).1.2 >>= fun output =>
        feed sealer.mac output >>= fun mac =>
          tag mac >>= fun last => .ok (output ++ last) := rfl

theorem Ready.exists_finish {sealer : Sealer} (ready : sealer.Ready) (random : Random) :
    ∃ next output, sealer.write [] = .ok (next, output) ∧
      (sealer.finish random).1 = (next.finish random).1.map (output ++ ·) ∧
      (output ≠ [] → ∃ rest, (next.finish random).1 = .ok rest) := by
  obtain ⟨encryptor, output, pushed, ended, accepts⟩ := ready.encryptor.exists_finish random
  obtain ⟨mac, fed, written, later⟩ := ready.exists_write pushed
  refine ⟨⟨encryptor, mac⟩, output, written, ?_, ?_⟩
  · rw [finish_eq, finish_eq, ended]
    cases (encryptor.finish random).1.2 with
    | error error => rfl
    | ok rest =>
        simp only [Outcome.map_ok, Outcome.ok_bind, ready.running.feed_append, fed]
        cases feed mac rest with
        | error error => rfl
        | ok mac =>
            simp only [Outcome.ok_bind]
            cases tag mac with
            | error error => rfl
            | ok last => simp
  · intro some
    obtain ⟨rest, finished⟩ := accepts some
    obtain ⟨ending, fedRest, running⟩ := later.running.exists_feed rest
    obtain ⟨last, tagged⟩ := running.exists_tag
    refine ⟨rest ++ last, ?_⟩
    simp only [finish_eq, finished, fedRest, tagged, Outcome.ok_bind]

theorem seamless (random : Random) :
    Seamless write (fun sealer => (sealer.finish random).1) Ready where
  ready ready written := ready.of_write written
  append ready front back := ready.write_append front back
  accepts ready written some := by
    obtain ⟨pushed, -⟩ := write_eq_ok.mp written
    intro later
    obtain ⟨⟨encryptor, output⟩, accepted⟩ := (ready.encryptor.push pushed).2 some later
    obtain ⟨mac, -, writtenAfter, -⟩ := (ready.of_write written).exists_write accepted
    exact ⟨_, writtenAfter⟩
  ended ready := ready.exists_finish random

theorem transfer_nil {sealer : Sealer} {random after : Random} {output : Bytes}
    (finished : sealer.finish random = (.ok output, after)) (sink : Sink) :
    sealer.transfer [] sink random = (sink.deliver (output, .ok ()), after) := by
  rw [transfer, finished]
  simp only [Sink.deliver]
  obtain ⟨result, sink⟩ := sink.write output
  cases result <;> rfl

/-- What arrives at a sink is what is drained. -/
theorem transfer_eq_deliver (sealer : Sealer) (pieces : List Bytes) (sink : Sink)
    (random : Random) :
    (sealer.transfer (pieces.map .data) sink random).1 =
      sink.deliver (drain write (fun sealer => (sealer.finish random).1) sealer pieces) := by
  induction pieces generalizing sealer sink with
  | nil =>
      rw [List.map_nil, drain]
      cases ended : sealer.finish random with
      | mk result after =>
          cases result with
          | error error => simp [transfer, ended, Sink.deliver, Sink.write_nil]
          | ok output => rw [transfer_nil ended]
  | cons piece pieces inductionHypothesis =>
      rw [List.map_cons, transfer, drain]
      cases sealer.write piece with
      | error error => simp [Sink.deliver, Sink.write_nil]
      | ok written =>
          obtain ⟨next, output⟩ := written
          simp only [Sink.deliver, Prod.map, Sink.write_append, id_eq]
          obtain ⟨result, sink⟩ := sink.write output
          cases result with
          | error error => rfl
          | ok nothing => exact inductionHypothesis next sink

theorem start_eq (key : Key) (random : Random) :
    (start key random).1 =
      (key.startEncryption (header key.hash) random).1 >>= fun streams =>
        feed streams.mac (header key.hash) >>= fun mac =>
          .ok (⟨streams.encryptor, mac⟩, header key.hash) := by
  rw [start]

end Sealer

theorem ready_of_startEncryption {key : Key} {header : Bytes} {random : Random}
    {streams : Encryption} (started : (key.startEncryption header random).1 = .ok streams) :
    streams.encryptor.Ready ∧ Running streams.mac := by
  unfold Key.startEncryption at started
  split at started
  · generalize begun : CbcEncryptor.start _ none false random = result at started
    obtain ⟨stream?, after⟩ := result
    obtain ⟨stream, rfl, rfl⟩ := Outcome.map_eq_ok.mp started
    exact ⟨Encryptor.Started.ready (.cbc begun), .hmac _⟩
  · generalize begun : GcmEncryptor.start _ header random = result at started
    obtain ⟨stream?, after⟩ := result
    obtain ⟨stream, rfl, rfl⟩ := Outcome.map_eq_ok.mp started
    exact ⟨Encryptor.Started.ready (.gcm begun), .absent⟩
  · cases started
    exact ⟨Encryptor.Started.ready (.oaep _), .absent⟩
  · cases started
    exact ⟨Encryptor.Started.ready (.oaep _), .absent⟩
  · cases started

theorem Sealer.ready_of_start {key : Key} {random after : Random} {sealer : Sealer}
    {head : Bytes} (started : start key random = (.ok (sealer, head), after)) :
    sealer.Ready := by
  have begun := (start_eq key random).symm.trans (congrArg Prod.fst started)
  obtain ⟨streams, found, rest⟩ := Outcome.bind_eq_ok.mp begun
  obtain ⟨ready, running⟩ := ready_of_startEncryption found
  obtain ⟨mac, fed, still⟩ := running.exists_feed (header key.hash)
  rw [fed, Outcome.ok_bind] at rest
  cases rest
  exact ⟨ready, still⟩

/-- Encrypt what comes from reads of any size. -/
def encryptReads (key : Key) (reads : List Read) (sink : Sink) (random : Random) :
    (Except Error Unit × Sink) × Random :=
  match Sealer.start key random with
  | (.error error, random) => ((.error error, sink), random)
  | (.ok (sealer, head), random) =>
      match sink.write head with
      | (.error error, sink) => ((.error error, sink), random)
      | (.ok (), sink) => sealer.transfer reads sink random

theorem encryptStream_ofBytes (key : Key) (message : Bytes) (sink : Sink) (random : Random) :
    encryptStream key (.ofBytes message) sink random =
      encryptReads key ((message.chunks chunkSize).map .data) sink random := by
  have streamed : encryptStream key (.ofBytes message) sink random =
      encryptReads key (Source.reads chunkSize (.ofBytes message)) sink random := rfl
  rw [streamed]
  by_cases empty : message = []
  · -- The end is read where there are no chunks, and it is the same as no read at all.
    subst empty
    rw [encryptReads, encryptReads]
    rfl
  · simp [Source.ofBytes, Source.reads, SourceEvent.reads, empty]

/-- The artifact of a message is the same for any pieces of it, in any sink. -/
theorem encryptReads_eq {left right : List Bytes} (same : left.flatten = right.flatten)
    (key : Key) (sink : Sink) (random : Random) :
    (encryptReads key (left.map .data) sink random).1 =
      (encryptReads key (right.map .data) sink random).1 := by
  rw [encryptReads, encryptReads]
  cases started : Sealer.start key random with
  | mk begun after =>
      cases begun with
      | error error => rfl
      | ok result =>
          obtain ⟨sealer, head⟩ := result
          have ready := Sealer.ready_of_start started
          dsimp only
          obtain ⟨result, sink⟩ := sink.write head
          cases result with
          | error error => rfl
          | ok nothing =>
              dsimp only
              rw [Sealer.transfer_eq_deliver, Sealer.transfer_eq_deliver,
                (Sealer.seamless after).drain_eq ready same]

end Making

section Opening

/-- The streams of a key, or of the decoy, for an artifact with a header. -/
inductive Provided (header : Bytes) : Decryption → Prop where
  | decoy : Provided header .decoy
  | key {key : Key} {streams : Decryption}
      (started : key.startDecryption header = .ok streams) : Provided header streams

theorem Provided.ready {header : Bytes} {streams : Decryption}
    (provided : Provided header streams) :
    Running streams.mac ∧
      ∀ decryptor, streams.decryptor = some decryptor → decryptor.Ready := by
  cases provided with
  | decoy =>
      refine ⟨.decoy _, ?_⟩
      intro decryptor present
      cases present
  | key started =>
      unfold Key.startDecryption at started
      split at started
      · obtain ⟨stream, found, rfl⟩ := Outcome.map_eq_ok.mp started
        refine ⟨.hmac _, ?_⟩
        rintro decryptor ⟨⟩
        exact Decryptor.Started.ready (.cbc found)
      · obtain ⟨stream, found, rfl⟩ := Outcome.map_eq_ok.mp started
        refine ⟨.absent, ?_⟩
        rintro decryptor ⟨⟩
        exact Decryptor.Started.ready (.gcm found)
      · cases started
        refine ⟨.absent, ?_⟩
        rintro decryptor ⟨⟩
        exact Decryptor.Started.ready (.oaep _)
      · cases started

/-- An opener that has taken in some pieces. -/
def takeIn (streams : Decryption) (head : Bytes) (pieces : List Bytes) : Except Error Opener := do
  let opener ← Opener.start streams head
  pieces.foldlM Opener.write opener

/-- Take a body through an opener, in any pieces. -/
def openPieces (streams : Decryption) (head : Bytes) (pieces : List Bytes) :
    Except Error Bytes := do
  let opener ← takeIn streams head pieces
  opener.finish

/-- An opener whose tag stream has been given certain bytes, and its decryptor others. -/
def given (streams : Decryption) (covered front held : Bytes) : Except Error Opener := do
  let mac ← feed streams.mac covered
  let (decryptor, output) ← Opener.decrypt streams.decryptor front
  .ok ⟨decryptor, mac, streams.tagLength, held, output⟩

theorem decrypt_nil {decryptor? : Option Decryptor}
    (ready : ∀ decryptor, decryptor? = some decryptor → decryptor.Ready) :
    Opener.decrypt decryptor? [] = .ok (decryptor?, []) := by
  cases decryptor? with
  | none => rfl
  | some decryptor =>
      rw [Opener.decrypt_some, (ready decryptor rfl).push_nil]
      rfl

theorem Running.eq_none_of_feed {mac : Option TagStream} (running : Running mac) {bytes : Bytes}
    (fed : feed mac bytes = .ok none) : mac = none := by
  cases running with
  | absent => rfl
  | hmac mac => cases fed
  | decoy mac => cases fed

theorem verify_of_short {opener : Opener} (running : Running opener.mac)
    (present : opener.mac ≠ none) (short : opener.held.length < opener.tagLength) :
    opener.verify = .ok false := by
  obtain ⟨decryptor, mac, tagLength, held, message⟩ := opener
  have different : held.length ≠ tagLength := Nat.ne_of_lt short
  cases running with
  | absent => exact absurd rfl present
  | hmac mac => simp [Opener.verify, TagStream.verify, different]
  | decoy mac => simp [Opener.verify, TagStream.verify]

theorem finish_of_unverified {opener : Opener} (refused : opener.verify = .ok false) :
    opener.finish = .error .invalidCryptoData := by
  rw [Opener.finish, refused, Outcome.ok_bind]
  cases Opener.rest? opener.decryptor <;> rfl

section Provided

variable {header : Bytes} {streams : Decryption} (provided : Provided header streams)
  (head : Bytes) (pieces : List Bytes)

include provided

/-- The tag stream gets the header and all but the end of the body, and the decryptor
all but the end of the body. -/
theorem takeIn_eq_given :
    takeIn streams head pieces =
      given streams
        (head ++ pieces.flatten.take (pieces.flatten.length - streams.tagLength))
        (pieces.flatten.take (pieces.flatten.length - streams.tagLength))
        (pieces.flatten.drop (pieces.flatten.length - streams.tagLength)) := by
  obtain ⟨running, ready⟩ := provided.ready
  obtain ⟨mac, fed, still⟩ := running.exists_feed head
  have openerReady : Opener.Ready ⟨streams.decryptor, mac, streams.tagLength, [], []⟩ := by
    refine ⟨still, ?_, Nat.zero_le _⟩
    intro decryptor present
    exact (ready decryptor present).consistent
  rw [takeIn, Opener.start, fed, Outcome.ok_bind, Outcome.ok_bind,
    Opener.foldlM_write openerReady]
  generalize pieces.flatten = body
  by_cases short : body.length ≤ streams.tagLength
  · have none : body.length - streams.tagLength = 0 := by omega
    have written := Opener.write_short
      (show ((Opener.mk streams.decryptor mac streams.tagLength [] []).held ++ body).length ≤ _
        from short)
    rw [written, none, List.take_zero, List.drop_zero, List.append_nil, given,
      fed, Outcome.ok_bind, decrypt_nil ready]
    rfl
  · have some : body.take (body.length - streams.tagLength) ≠ [] := by
      apply List.ne_nil_of_length_pos
      rw [List.length_take]
      omega
    have length : (body.drop (body.length - streams.tagLength)).length = streams.tagLength := by
      rw [List.length_drop]
      omega
    have written := Opener.write_long
      (show (Opener.mk streams.decryptor mac streams.tagLength [] []).held ++ body = _ from
        (List.take_append_drop (body.length - streams.tagLength) body).symm) length some
    rw [written, given, running.feed_append, fed]
    rfl

theorem openPieces_eq {left right : List Bytes} (same : left.flatten = right.flatten) :
    openPieces streams head left = openPieces streams head right := by
  rw [openPieces, openPieces, takeIn_eq_given provided, same, ← takeIn_eq_given provided]

theorem openPieces_eq_openBody :
    openPieces streams head pieces = openBody streams head pieces.flatten := by
  have joined : pieces.flatten = (Bytes.chunks chunkSize pieces.flatten).flatten :=
    (Bytes.flatten_chunks (by decide) pieces.flatten).symm
  rw [openPieces_eq provided head joined, openPieces, openBody, takeIn]
  cases Opener.start streams head <;> rfl

/-- What is shorter than a tag does not open. -/
theorem openPieces_of_short (short : pieces.flatten.length < streams.tagLength) :
    openPieces streams head pieces = .error .invalidCryptoData := by
  obtain ⟨running, ready⟩ := provided.ready
  have none : pieces.flatten.length - streams.tagLength = 0 := by omega
  have present : streams.mac ≠ Option.none := by
    intro absent
    rw [Decryption.tagLength, absent] at short
    exact absurd short (Nat.not_lt_zero _)
  obtain ⟨mac, fed, still⟩ := running.exists_feed (head ++ [])
  have stillPresent : mac ≠ Option.none := by
    rintro rfl
    exact present (running.eq_none_of_feed fed)
  rw [openPieces, takeIn_eq_given provided, none, List.take_zero, List.drop_zero, given, fed,
    Outcome.ok_bind, decrypt_nil ready]
  exact finish_of_unverified (verify_of_short still stillPresent short)

end Provided

end Opening

/-- It makes no difference in which pieces bytes are written: not to what a stream puts
out, its error, its tag and what it verifies, not to what an artifact opens to, and not
to the artifact that is made.  The tag stream of an artifact covers its header and its
body but for the tag, which the decryptor does not get either. -/
theorem indifferent_to_pieces {left right : List Bytes} (same : left.flatten = right.flatten) :
    (∀ encryptor : Encryptor, encryptor.Started → ∀ random,
      encryptor.drain random left = encryptor.drain random right) ∧
    (∀ decryptor : Decryptor, decryptor.Started →
      decryptor.drain left = decryptor.drain right) ∧
    (∀ stream : TagStream, stream.Started → stream.close left = stream.close right) ∧
    (∀ header streams, Provided header streams → ∀ head,
      openPieces streams head left = openPieces streams head right ∧
      openPieces streams head left = openBody streams head left.flatten ∧
      takeIn streams head left =
        given streams
          (head ++ left.flatten.take (left.flatten.length - streams.tagLength))
          (left.flatten.take (left.flatten.length - streams.tagLength))
          (left.flatten.drop (left.flatten.length - streams.tagLength)) ∧
      (left.flatten.length < streams.tagLength →
        openPieces streams head left = .error .invalidCryptoData)) ∧
    ∀ key sink random,
      (encryptReads key (left.map .data) sink random).1 =
        (encryptReads key (right.map .data) sink random).1 ∧
      (encryptReads key (left.map .data) sink random).1 =
        (encryptStream key (.ofBytes left.flatten) sink random).1 := by
  refine ⟨?_, ?_, ?_, ?_, ?_⟩
  · intro encryptor started random
    exact (Encryptor.seamless random).drain_eq started.ready same
  · intro decryptor started
    exact Decryptor.seamless.drain_eq started.ready same
  · intro stream started
    rw [started.unfinished.close_eq, same, ← started.unfinished.close_eq]
  · intro header streams provided head
    exact ⟨openPieces_eq provided head same, openPieces_eq_openBody provided head left,
      takeIn_eq_given provided head left, openPieces_of_short provided head left⟩
  · intro key sink random
    refine ⟨encryptReads_eq same key sink random, ?_⟩
    rw [encryptStream_ofBytes]
    exact encryptReads_eq (Bytes.flatten_chunks (by decide) left.flatten).symm key sink random

/-- A decryptor gets its vector and two cipher blocks in pieces that end within each of them, and
at once.  The decoy waits for its tag. -/
theorem indifferent_to_pieces_sample :
    let key : Aes.Key := ⟨List.replicate 16 7, .inl rfl⟩
    let iv : Block := .ofBytes (List.replicate 16 1)
    let message := List.replicate 20 5
    let cipher := Aes.Cbc.encrypt (.ofKey key) iv message
    let waiting : Decryptor := .cbc ⟨key.bytes, .collecting [], false⟩
    let left := [iv.toBytes.take 3, [], iv.toBytes.drop 3 ++ cipher.take 7, cipher.drop 7]
    let right := [[], [], iv.toBytes ++ cipher.take 16, cipher.drop 16]
    cipher.length = 32 ∧ left.flatten = right.flatten ∧
      waiting.drain left = (message, .ok ()) ∧ waiting.drain right = (message, .ok ()) ∧
      openPieces .decoy [0] [[1, 2], [], [3]] = .error .invalidCryptoData := by
  intro key iv message cipher waiting left right
  have blocks : cipher.length = 32 := by
    rw [Aes.Cbc.length_encrypt, List.length_replicate]
  have sent : left.flatten = iv.toBytes ++ cipher := Decryptor.flatten_cut _ _ 3 7
  have sentAgain : right.flatten = iv.toBytes ++ cipher := Decryptor.flatten_cut _ _ 0 16
  have same : left.flatten = right.flatten := sent.trans sentAgain.symm
  obtain ⟨-, decrypted, -⟩ := indifferent_to_pieces same
  obtain ⟨-, -, -, opened, -⟩ :=
    indifferent_to_pieces (rfl : ([[1, 2], [], [3]] : List Bytes).flatten = [[1, 2, 3]].flatten)
  have started : CbcDecryptor.start key.bytes none = .ok ⟨key.bytes, .collecting [], false⟩ := rfl
  have received : waiting.drain left = (message, .ok ()) :=
    Decryptor.drain_encrypt key iv message sent
  exact ⟨blocks, same, received, (decrypted waiting (.cbc started)).symm.trans received,
    (opened [] .decoy .decoy [0]).2.2.2 (by decide)⟩

end Artifact

end VersionedKeys
