import VersionedKeys.Artifact.Opening
import VersionedKeys.Proofs.Bytes
import VersionedKeys.Proofs.Streaming.Whole

/-!
# Artifacts in pieces

However a message is cut up on its way into an artifact, or an artifact on its
way out, the result is that of the whole (`encryptStream_eq`, `openBody_eq`).
The tag covers what has been sent and the held back bytes are the last ones,
wherever the cuts are.
-/

namespace VersionedKeys.Artifact

open Streaming

/-- A tag stream that can take in bytes, or none. -/
inductive Running : Option TagStream → Prop where
  | absent : Running none
  | hmac (mac : Digest.Hmac Digest.Sha1State) : Running (some (.hmac (.running mac)))
  | decoy (mac : Digest.Hmac Digest.Sha1State) : Running (some (.decoy (.running mac)))

theorem Running.exists_feed {mac : Option TagStream} (running : Running mac) (bytes : Bytes) :
    ∃ next, feed mac bytes = .ok next ∧ Running next := by
  cases running with
  | absent => exact ⟨none, rfl, .absent⟩
  | hmac mac => exact ⟨_, rfl, .hmac _⟩
  | decoy mac => exact ⟨_, rfl, .decoy _⟩

theorem Running.feed_append {mac : Option TagStream} (running : Running mac)
    (front back : Bytes) :
    feed mac (front ++ back) = feed mac front >>= fun mac => feed mac back := by
  cases running with
  | absent => rfl
  | hmac mac =>
      simp [feed, TagStream.write, HmacStream.write, Digest.HashFunction.updateHmac_append]
  | decoy mac =>
      simp [feed, TagStream.write, HmacStream.write, Digest.HashFunction.updateHmac_append]

namespace Sealer

theorem write_eq (sealer : Sealer) (bytes : Bytes) :
    sealer.write bytes =
      push Encryptor.write sealer.encryptor bytes >>= fun (encryptor, output) =>
        feed sealer.mac output >>= fun mac => .ok (⟨encryptor, mac⟩, output) := by
  rw [write, push]
  obtain ⟨encryptor, output⟩ := sealer.encryptor.write bytes
  cases output with
  | error error => rfl
  | ok output => rfl

/-- What is sent for a message that is written at once, up to the end. -/
def whole (sealer : Sealer) (message : Bytes) (random : Random) : Except Error Bytes × Random :=
  let (output, random) := sealer.encryptor.whole message random
  let sent := do
    let output ← output
    let mac ← feed sealer.mac output
    let tag ← tag mac
    .ok (output ++ tag)
  (sent, random)

theorem whole_eq_ok {sealer : Sealer} {message output : Bytes} {random after : Random} :
    sealer.whole message random = (.ok output, after) ↔
      ∃ cipher mac last, sealer.encryptor.whole message random = (.ok cipher, after) ∧
        feed sealer.mac cipher = .ok mac ∧ tag mac = .ok last ∧ output = cipher ++ last := by
  rw [whole]
  obtain ⟨result, final⟩ := sealer.encryptor.whole message random
  simp only [Prod.mk.injEq, Outcome.bind_eq_ok, Except.ok.injEq]
  constructor
  · rintro ⟨⟨cipher, rfl, mac, fed, last, tagged, rfl⟩, rfl⟩
    exact ⟨cipher, mac, last, ⟨rfl, rfl⟩, fed, tagged, rfl⟩
  · rintro ⟨cipher, mac, last, ⟨rfl, rfl⟩, fed, tagged, rfl⟩
    exact ⟨⟨cipher, rfl, mac, fed, last, tagged, rfl⟩, rfl⟩

theorem finish_eq_whole_nil {sealer : Sealer} {random after : Random} {output : Bytes}
    (sent : sealer.whole [] random = (.ok output, after)) :
    sealer.finish random = (.ok output, after) := by
  obtain ⟨cipher, mac, last, encrypted, fed, tagged, rfl⟩ := whole_eq_ok.mp sent
  obtain ⟨ended, drawn⟩ := Encryptor.finish_eq_whole_nil encrypted
  simp only [finish, ended, drawn, fed, tagged, Outcome.ok_bind]

theorem exists_write_of_whole_append {sealer : Sealer} (running : Running sealer.mac)
    {front back output : Bytes} {random after : Random}
    (sent : sealer.whole (front ++ back) random = (.ok output, after)) :
    ∃ next first rest, sealer.write front = .ok (next, first) ∧ Running next.mac ∧
      next.whole back random = (.ok rest, after) ∧ output = first ++ rest := by
  obtain ⟨cipher, mac, last, encrypted, fed, tagged, rfl⟩ := whole_eq_ok.mp sent
  rw [Encryptor.whole, Encryptor.push_append, pushBoth] at encrypted
  cases pushed : push Encryptor.write sealer.encryptor front with
  | error error => simp [pushed] at encrypted
  | ok result =>
      obtain ⟨encryptor, first⟩ := result
      cases later : push Encryptor.write encryptor back with
      | error error => simp [pushed, later] at encrypted
      | ok result =>
          obtain ⟨final, more⟩ := result
          obtain ⟨next, firstFed, nextRunning⟩ := running.exists_feed first
          simp only [pushed, later, Outcome.ok_bind, Prod.mk.injEq, Outcome.map_eq_ok] at encrypted
          obtain ⟨⟨ending, ended, rfl⟩, rfl⟩ := encrypted
          refine ⟨⟨encryptor, next⟩, first, more ++ ending ++ last, ?_, nextRunning, ?_, ?_⟩
          · rw [write_eq, pushed, Outcome.ok_bind]
            simp only [firstFed, Outcome.ok_bind]
          · refine whole_eq_ok.mpr ⟨more ++ ending, mac, last, ?_, ?_, tagged, rfl⟩
            · simp [Encryptor.whole, later, ended]
            · rw [List.append_assoc, running.feed_append, firstFed] at fed
              exact fed
          · simp

/-- A sink without a limit gets what is sent for the whole message. -/
theorem transfer_eq {sealer : Sealer} (running : Running sealer.mac) (pieces : List Bytes)
    {sink : Sink} (unlimited : sink.room = none) {random after : Random} {output : Bytes}
    (sent : sealer.whole pieces.flatten random = (.ok output, after)) :
    sealer.transfer (pieces.map .data) sink random =
      (Sink.flush { sink with written := sink.written ++ output }, after) := by
  induction pieces generalizing sealer sink random output with
  | nil =>
      have finished := finish_eq_whole_nil sent
      simp [transfer, finished, Sink.write, unlimited]
  | cons piece pieces inductionHypothesis =>
      obtain ⟨next, first, rest, written, nextRunning, restSent, rfl⟩ :=
        exists_write_of_whole_append running sent
      have after := inductionHypothesis nextRunning
        (show { sink with written := sink.written ++ first }.room = none from unlimited) restSent
      simpa [transfer, written, Sink.write, unlimited] using after

end Sealer

theorem exists_reads_eq {pieces : List Bytes} (nonempty : ∀ piece ∈ pieces, piece ≠ []) :
    ∃ parts : List Bytes, Source.reads chunkSize (pieces.map .chunk) = parts.map .data ∧
      parts.flatten = pieces.flatten := by
  induction pieces with
  | nil => exact ⟨[], rfl, rfl⟩
  | cons piece pieces inductionHypothesis =>
      obtain ⟨parts, read, joined⟩ := inductionHypothesis fun other membership =>
        nonempty other (List.mem_cons_of_mem _ membership)
      have present : piece ≠ [] := nonempty piece List.mem_cons_self
      refine ⟨piece.chunks chunkSize ++ parts, ?_, ?_⟩
      · rw [List.map_append, ← read]
        simp [Source.reads, SourceEvent.reads, present]
      · rw [List.flatten_append, Bytes.flatten_chunks (by decide), joined, List.flatten_cons]

section Encryption

variable {key : Key} {sealer : Sealer} {head output : Bytes} {random middle after : Random}

/-- A source that delivers a message in any pieces is encrypted like the whole
message. -/
theorem encryptStream_eq (started : Sealer.start key random = (.ok (sealer, head), middle))
    (running : Running sealer.mac) {pieces : List Bytes}
    (nonempty : ∀ piece ∈ pieces, piece ≠ []) {sink : Sink} (unlimited : sink.room = none)
    (sent : sealer.whole pieces.flatten middle = (.ok output, after)) :
    encryptStream key (pieces.map .chunk) sink random =
      (Sink.flush { sink with written := sink.written ++ (head ++ output) }, after) := by
  obtain ⟨parts, read, joined⟩ := exists_reads_eq nonempty
  rw [← joined] at sent
  have transferred := Sealer.transfer_eq running parts
    (show { sink with written := sink.written ++ head }.room = none from unlimited) sent
  simpa [encryptStream, started, read, Sink.write, unlimited] using transferred

theorem encrypt_eq (started : Sealer.start key random = (.ok (sealer, head), middle))
    (running : Running sealer.mac) {message : Bytes}
    (sent : sealer.whole message middle = (.ok output, after)) :
    encrypt key message random = (.ok (head ++ output), after) := by
  have streamed : encryptStream key (.ofBytes message) {} random =
      (Sink.flush { written := head ++ output }, after) := by
    by_cases empty : message = []
    · -- The end of an empty source is the end of no source at all.
      subst empty
      have none : ∀ piece ∈ ([] : List Bytes), piece ≠ [] := by simp
      exact encryptStream_eq started running none rfl sent
    · have alone : ∀ piece ∈ [message], piece ≠ [] := by simpa using empty
      have joined : [message].flatten = message := by simp
      rw [← joined] at sent
      exact encryptStream_eq started running alone rfl sent
  rw [encrypt, streamed]
  rfl

end Encryption

namespace Opener

theorem decrypt_some (decryptor : Decryptor) (bytes : Bytes) :
    decrypt (some decryptor) bytes =
      (push Decryptor.write decryptor bytes).map (Prod.map some id) := by
  rw [decrypt, push]
  obtain ⟨next, result⟩ := decryptor.write bytes
  cases result with
  | error error => rfl
  | ok output => rfl

theorem decrypt_append {decryptor? : Option Decryptor}
    (consistent : ∀ decryptor, decryptor? = some decryptor → decryptor.Consistent)
    (front back : Bytes) :
    decrypt decryptor? (front ++ back) =
      decrypt decryptor? front >>= fun (next, output) =>
        decrypt next back >>= fun (next, more) => .ok (next, output ++ more) := by
  cases decryptor? with
  | none => rfl
  | some decryptor =>
      rw [decrypt_some, Decryptor.push_append (consistent _ rfl), pushBoth, decrypt_some]
      cases push Decryptor.write decryptor front with
      | error error => rfl
      | ok first =>
          simp only [Outcome.ok_bind, Outcome.map_ok, Prod.map, decrypt_some]
          cases push Decryptor.write first.1 back with
          | error error => rfl
          | ok second => rfl

/-- An opener in use: it takes in bytes, and holds back no more than a tag. -/
structure Ready (opener : Opener) : Prop where
  running : Running opener.mac
  consistent : ∀ decryptor, opener.decryptor = some decryptor → decryptor.Consistent
  length_held : opener.held.length ≤ opener.tagLength

theorem write_short {opener : Opener} {bytes : Bytes}
    (short : (opener.held ++ bytes).length ≤ opener.tagLength) :
    opener.write bytes = .ok { opener with held := opener.held ++ bytes } := by
  rw [write, if_pos short]

theorem write_long {opener : Opener} {bytes body last : Bytes}
    (parts : opener.held ++ bytes = body ++ last) (length : last.length = opener.tagLength)
    (some : body ≠ []) :
    opener.write bytes =
      feed opener.mac body >>= fun mac =>
        decrypt opener.decryptor body >>= fun (decryptor, output) =>
          .ok ⟨decryptor, mac, opener.tagLength, last, opener.message ++ output⟩ := by
  have positive := List.length_pos_iff.mpr some
  have long : ¬ (body ++ last).length ≤ opener.tagLength := by
    rw [List.length_append]
    omega
  have cut : (body ++ last).length - opener.tagLength = body.length := by
    rw [List.length_append]
    omega
  simp only [write, parts, if_neg long, cut, List.take_left, List.drop_left]

theorem exists_held {bytes : Bytes} {length : Nat} (long : length < bytes.length) :
    ∃ body last, bytes = body ++ last ∧ last.length = length ∧ body ≠ [] := by
  refine ⟨_, _, (List.take_append_drop (bytes.length - length) bytes).symm, ?_, ?_⟩
  · rw [List.length_drop]
    omega
  · apply List.ne_nil_of_length_pos
    rw [List.length_take]
    omega

theorem write_nil {opener : Opener} (ready : opener.Ready) : opener.write [] = .ok opener := by
  have short : (opener.held ++ []).length ≤ opener.tagLength := by
    rw [List.append_nil]
    exact ready.length_held
  rw [write_short short, List.append_nil]

theorem Ready.write {opener next : Opener} (ready : opener.Ready) {bytes : Bytes}
    (written : opener.write bytes = .ok next) : next.Ready := by
  by_cases short : (opener.held ++ bytes).length ≤ opener.tagLength
  · rw [write_short short] at written
    cases written
    exact ⟨ready.running, ready.consistent, short⟩
  · obtain ⟨body, last, parts, length, some⟩ := exists_held (Nat.lt_of_not_le short)
    obtain ⟨mac, fed, running⟩ := ready.running.exists_feed body
    rw [write_long parts length some, fed, Outcome.ok_bind] at written
    obtain ⟨⟨decryptor, output⟩, decrypted, equality⟩ := Outcome.bind_eq_ok.mp written
    cases equality
    refine ⟨running, ?_, Nat.le_of_eq length⟩
    rintro decryptor rfl
    cases before : opener.decryptor with
    | none => simp [before, decrypt] at decrypted
    | some decryptor =>
        rw [before, decrypt_some, Outcome.map_eq_ok] at decrypted
        obtain ⟨⟨after, output⟩, pushed, equality⟩ := decrypted
        cases equality
        exact (ready.consistent _ before).push pushed

/-- Bytes may be given to an opener in pieces. -/
theorem write_append {opener : Opener} (ready : opener.Ready) (front back : Bytes) :
    opener.write (front ++ back) =
      opener.write front >>= fun opener => opener.write back := by
  -- After a long write a whole tag is held, so that only an empty one is short then.
  by_cases empty : back = []
  · subst empty
    rw [List.append_nil]
    cases written : opener.write front with
    | error error => rfl
    | ok next => exact (write_nil (ready.write written)).symm
  by_cases short : (opener.held ++ front).length ≤ opener.tagLength
  · rw [write_short short, Outcome.ok_bind]
    simp only [write, List.append_assoc]
  · obtain ⟨body, last, parts, length, some⟩ := exists_held (Nat.lt_of_not_le short)
    obtain ⟨mac, fed, running⟩ := ready.running.exists_feed body
    rw [write_long parts length some, fed, Outcome.ok_bind]
    have more : opener.tagLength < (last ++ back).length := by
      have positive := List.length_pos_iff.mpr empty
      rw [List.length_append]
      omega
    obtain ⟨later, final, laterParts, finalLength, laterSome⟩ := exists_held more
    have whole : opener.held ++ (front ++ back) = (body ++ later) ++ final := by
      rw [← List.append_assoc, parts, List.append_assoc, laterParts, List.append_assoc]
    have wholeSome : body ++ later ≠ [] := by simp [some]
    rw [write_long whole finalLength wholeSome, ready.running.feed_append, fed,
      Outcome.ok_bind, decrypt_append ready.consistent]
    obtain ⟨next, laterFed, -⟩ := running.exists_feed later
    cases decrypt opener.decryptor body with
    | error error => simp [laterFed]
    | ok result =>
        obtain ⟨decryptor, output⟩ := result
        have second := write_long
          (show (Opener.mk decryptor mac opener.tagLength last
            (opener.message ++ output)).held ++ back = _ from laterParts) finalLength laterSome
        simp only [Outcome.ok_bind, second, laterFed]
        cases decrypt decryptor later with
        | error error => rfl
        | ok result => simp

theorem foldlM_write {opener : Opener} (ready : opener.Ready) (pieces : List Bytes) :
    pieces.foldlM Opener.write opener = opener.write pieces.flatten := by
  induction pieces generalizing opener with
  | nil => exact (write_nil ready).symm
  | cons piece pieces inductionHypothesis =>
      rw [List.foldlM_cons, List.flatten_cons, write_append ready]
      cases written : opener.write piece with
      | error error => rfl
      | ok next => exact inductionHypothesis (ready.write written)

end Opener

/-- An artifact is opened as if its body were written at once. -/
theorem openBody_eq {streams : Decryption} (running : Running streams.mac)
    (consistent : ∀ decryptor, streams.decryptor = some decryptor → decryptor.Consistent)
    (head body : Bytes) :
    openBody streams head body =
      Opener.start streams head >>= fun opener =>
        opener.write body >>= fun opener => opener.finish := by
  obtain ⟨mac, fed, fedRunning⟩ := running.exists_feed head
  have ready : Opener.Ready ⟨streams.decryptor, mac, streams.tagLength, [], []⟩ :=
    ⟨fedRunning, consistent, Nat.zero_le _⟩
  have folded := Opener.foldlM_write ready (body.chunks chunkSize)
  rw [Bytes.flatten_chunks (by decide)] at folded
  simp only [openBody, Opener.start, fed, Outcome.ok_bind, folded]

end VersionedKeys.Artifact
