import VersionedKeys.Proofs.Artifact.Seamless
import VersionedKeys.Proofs.Kinds
import VersionedKeys.Proofs.RoundTrip

/-!
# Interrupted sources

Decryption reads on after an interruption of its source, and encryption ends there with an
error.  So encryption is the same without the interruptions exactly if it does not end with one,
and where it would succeed it ends with the first (`encryptStream_eq_uninterrupted_iff`).
-/

namespace VersionedKeys

open Outcome

namespace Source

/-- A source without its interruptions. -/
def uninterrupted (source : Source) : Source := source.filter (· != .interruption)

theorem readAll_uninterrupted (source : Source) :
    source.uninterrupted.readAll = source.readAll := by
  induction source with
  | nil => rfl
  | cons event rest inductionHypothesis =>
      cases event with
      | failure reason => rfl
      | interruption => exact inductionHypothesis
      | chunk bytes =>
          have kept : uninterrupted (.chunk bytes :: rest) =
              .chunk bytes :: uninterrupted rest := rfl
          rw [kept, readAll, readAll, inductionHypothesis]

theorem reads_uninterrupted (capacity : Nat) (source : Source) :
    source.uninterrupted.reads capacity =
      (source.reads capacity).filter (· != .failed .interrupted) := by
  induction source with
  | nil => rfl
  | cons event rest inductionHypothesis =>
      have split : reads capacity (event :: rest) = event.reads capacity ++ reads capacity rest :=
        rfl
      rw [split, List.filter_append, ← inductionHypothesis]
      cases event with
      | failure reason => rfl
      | interruption => rfl
      | chunk bytes =>
          have whole : (SourceEvent.reads capacity (.chunk bytes)).filter
              (· != .failed .interrupted) = SourceEvent.reads capacity (.chunk bytes) := by
            rw [List.filter_eq_self, SourceEvent.reads]
            split <;> simp
          rw [whole]
          rfl

theorem failed_interrupted_mem_reads {capacity : Nat} {source : Source} :
    .failed .interrupted ∈ source.reads capacity ↔ .interruption ∈ source := by
  simp only [reads, List.mem_flatMap]
  constructor
  · rintro ⟨event, membership, read⟩
    cases event with
    | interruption => exact membership
    | failure reason => simp [SourceEvent.reads] at read
    | chunk bytes =>
        rw [SourceEvent.reads] at read
        split at read <;> simp at read
  · intro membership
    exact ⟨.interruption, membership, List.mem_singleton_self _⟩

end Source

theorem Sink.write_ne_interrupted (sink : Sink) (bytes : Bytes) :
    (sink.write bytes).1 ≠ .error (.transfer .interrupted) := by
  rcases sink.write_eq_or bytes with ⟨after, accepted, -⟩ | ⟨received, after, refused, -⟩
  · simp [accepted]
  · simp [refused]

namespace Streaming

/-- What streams raise.  What sources and sinks raise is of another kind. -/
def ownEndings : List Error.Ending :=
  [.returned .invalidKey, .returned .malformed, .returned .streamFinished,
    .returned .invalidCryptoData]

theorem ne_interrupted {Value : Type} {error : Error}
    (raises : RaisesOnly ownEndings (.error error : Except Error Value)) :
    error ≠ .transfer .interrupted := by
  rintro rfl
  exact absurd (raises _ rfl) (by decide)

theorem Encryptor.raisesOnly_push (encryptor : Encryptor) (input : Bytes) :
    RaisesOnly ownEndings (push write encryptor input) := by
  rw [push, raisesOnly_map]
  cases encryptor with
  | cbc stream =>
      rw [write, CbcEncryptor.write]
      split <;> simp [ownEndings, Error.ending]
  | gcm stream =>
      rw [write, GcmEncryptor.write]
      split <;> simp [ownEndings, Error.ending]
  | oaep stream =>
      rw [write, OaepEncryptor.write]
      split
      · simp [ownEndings, Error.ending]
      · split <;> simp [ownEndings, Error.ending]

theorem Encryptor.raisesOnly_finish (encryptor : Encryptor) (random : Random) :
    RaisesOnly ownEndings (encryptor.finish random).1.2 := by
  cases encryptor with
  | cbc stream =>
      rw [finish, CbcEncryptor.finish]
      split <;> simp
  | gcm stream =>
      rw [finish, GcmEncryptor.finish]
      split <;> simp
  | oaep stream =>
      rw [finish, OaepEncryptor.finish]
      split
      · simp
      · cases made : Rsa.Oaep.encrypt? stream.key (random.draw Digest.sha1Size).1 stream.buffer with
        | none => simp [made, ownEndings, Error.ending]
        | some block => simp [made]

theorem raisesOnly_startEncryption (key : Key) (head : Bytes) (random : Random) :
    RaisesOnly ownEndings (key.startEncryption head random).1 := by
  rw [Key.startEncryption]
  split
  · simp only [CbcEncryptor.start]
    split <;> simp [ownEndings, Error.ending]
  · simp only [GcmEncryptor.start, raisesOnly_map, Aes.Key.ofBytes]
    split <;> simp [ownEndings, Error.ending]
  · simp
  · simp
  · simp [ownEndings, Key.unsupported, Error.ending]

end Streaming

namespace Artifact

open Streaming

namespace Sealer

theorem raisesOnly_start (key : Key) (random : Random) :
    RaisesOnly ownEndings (start key random).1 := by
  rw [start_eq]
  refine (raisesOnly_startEncryption key _ random).bind fun streams started => ?_
  obtain ⟨mac, fed, -⟩ := (ready_of_startEncryption started).2.exists_feed (header key.hash)
  rw [fed]
  exact raisesOnly_ok _

section Ready

variable {sealer : Sealer} (ready : sealer.Ready)

include ready

theorem Ready.raisesOnly_write (bytes : Bytes) : RaisesOnly ownEndings (sealer.write bytes) := by
  rw [write_eq]
  refine (sealer.encryptor.raisesOnly_push bytes).bind fun (_, output) _ => ?_
  obtain ⟨mac, fed, -⟩ := ready.running.exists_feed output
  dsimp only
  rw [fed]
  exact raisesOnly_ok _

theorem Ready.raisesOnly_finish (random : Random) :
    RaisesOnly ownEndings (sealer.finish random).1 := by
  rw [finish_eq]
  refine (sealer.encryptor.raisesOnly_finish random).bind fun output _ => ?_
  obtain ⟨mac, fed, running⟩ := ready.running.exists_feed output
  obtain ⟨last, tagged⟩ := running.exists_tag
  rw [fed, ok_bind, tagged]
  exact raisesOnly_ok _

theorem Ready.transfer_nil_ne_interrupted (sink : Sink) (random : Random) :
    (sealer.transfer [] sink random).1.1 ≠ .error (.transfer .interrupted) := by
  intro interrupted
  have raises := ready.raisesOnly_finish random
  cases finished : sealer.finish random with
  | mk ending after =>
      cases ending with
      | error error =>
          rw [finished] at raises
          rw [transfer, finished] at interrupted
          exact ne_interrupted raises (Except.error.inj interrupted)
      | ok output =>
          rw [transfer_nil finished] at interrupted
          rcases sink.deliver_eq_error output interrupted with complaint | complaint <;>
            cases complaint

/-- Making an artifact ends with an interruption only if there is one. -/
theorem Ready.mem_of_interrupted {reads : List Read} {sink : Sink} {random : Random}
    (interrupted : (sealer.transfer reads sink random).1.1 = .error (.transfer .interrupted)) :
    .failed .interrupted ∈ reads := by
  induction reads generalizing sealer sink with
  | nil => exact absurd interrupted (ready.transfer_nil_ne_interrupted sink random)
  | cons read reads inductionHypothesis =>
      cases read with
      | ended => exact absurd interrupted (ready.transfer_nil_ne_interrupted sink random)
      | failed fault =>
          cases interrupted
          exact List.mem_cons_self
      | data bytes =>
          rw [transfer] at interrupted
          have raises := ready.raisesOnly_write bytes
          cases written : sealer.write bytes with
          | error error =>
              rw [written] at interrupted raises
              exact absurd (Except.error.inj interrupted) (ne_interrupted raises)
          | ok result =>
              obtain ⟨next, output⟩ := result
              have complaint := sink.write_ne_interrupted output
              rw [written] at interrupted
              dsimp only at interrupted
              cases sent : sink.write output with
              | mk result after =>
                  rw [sent] at interrupted complaint
                  cases result with
                  | error error => exact absurd interrupted complaint
                  | ok nothing =>
                      exact List.mem_cons_of_mem _
                        (inductionHypothesis (ready.of_write written) interrupted)

end Ready

/-- Up to its first interruption a source is encrypted as if it had none. -/
theorem transfer_filter (sealer : Sealer) (reads : List Read) (sink : Sink) (random : Random) :
    sealer.transfer reads sink random =
        sealer.transfer (reads.filter (· != .failed .interrupted)) sink random ∨
      (sealer.transfer reads sink random).1.1 = .error (.transfer .interrupted) := by
  induction reads generalizing sealer sink with
  | nil => exact .inl rfl
  | cons read reads inductionHypothesis =>
      cases read with
      | ended => exact .inl rfl
      | failed fault =>
          cases fault with
          | interrupted => exact .inr rfl
          | _ => exact .inl rfl
      | data bytes =>
          have kept : (Read.data bytes :: reads).filter (· != .failed .interrupted) =
              .data bytes :: reads.filter (· != .failed .interrupted) := rfl
          rw [kept, transfer, transfer]
          cases sealer.write bytes with
          | error error => exact .inl rfl
          | ok written =>
              obtain ⟨next, output⟩ := written
              dsimp only
              obtain ⟨result, sink⟩ := sink.write output
              cases result with
              | error error => exact .inl rfl
              | ok nothing => exact inductionHypothesis next sink

/-- What has been read of a message that would be encrypted is sent before anything else is
read. -/
theorem exists_transfer_append {sealer : Sealer} (running : Running sealer.mac)
    (pieces : List Bytes) {back output : Bytes} {random after : Random}
    (sent : sealer.whole (pieces.flatten ++ back) random = (.ok output, after)) {sink : Sink}
    (unlimited : sink.room = none) (reads : List Read) :
    ∃ (next : Sealer) (rest : Bytes) (later : Sink),
      sealer.transfer (pieces.map .data ++ reads) sink random =
        next.transfer reads later random ∧
      Running next.mac ∧ next.whole back random = (.ok rest, after) ∧ later.room = none := by
  induction pieces generalizing sealer sink output with
  | nil => exact ⟨sealer, output, sink, rfl, running, sent, unlimited⟩
  | cons piece pieces inductionHypothesis =>
      rw [List.flatten_cons, List.append_assoc] at sent
      obtain ⟨next, first, rest, written, nextRunning, restSent, -⟩ :=
        exists_write_of_whole_append running sent
      obtain ⟨last, more, later, transferred, still⟩ := inductionHypothesis nextRunning restSent
        (show { sink with written := sink.written ++ first }.room = none from unlimited)
      refine ⟨last, more, later, ?_, still⟩
      rw [← transferred, List.map_cons, List.cons_append, transfer, written]
      simp only [Sink.write, unlimited]

/-- An encryption that would succeed ends with the first interruption. -/
theorem transfer_of_interruption {source : Source} {pieces : List Bytes}
    (nonempty : ∀ piece ∈ pieces, piece ≠ [])
    (message : source.uninterrupted = pieces.map .chunk) (interrupted : .interruption ∈ source)
    {sealer : Sealer} (running : Running sealer.mac) {output : Bytes} {random after : Random}
    (sent : sealer.whole pieces.flatten random = (.ok output, after)) {sink : Sink}
    (unlimited : sink.room = none) :
    (sealer.transfer (source.reads chunkSize) sink random).1.1 =
      .error (.transfer .interrupted) := by
  induction source generalizing pieces sealer output sink with
  | nil => cases interrupted
  | cons event rest inductionHypothesis =>
      cases event with
      | interruption => rfl
      | failure reason => cases pieces <;> cases message
      | chunk bytes =>
          cases pieces with
          | nil => cases message
          | cons piece pieces =>
              obtain ⟨same, later⟩ := List.cons.inj message
              cases same
              have some := nonempty bytes List.mem_cons_self
              have reads : Source.reads chunkSize (.chunk bytes :: rest) =
                  (bytes.chunks chunkSize).map .data ++ Source.reads chunkSize rest := by
                simp [Source.reads, SourceEvent.reads, some]
              have whole : (Bytes.chunks chunkSize bytes).flatten = bytes :=
                Bytes.flatten_chunks (by decide) bytes
              rw [List.flatten_cons, ← whole] at sent
              -- The piece is read in chunks, and the rest of the message is left to the rest.
              obtain ⟨next, output, sink, transferred, nextRunning, restSent, room⟩ :=
                exists_transfer_append running _ sent unlimited (Source.reads chunkSize rest)
              rw [reads, transferred]
              exact inductionHypothesis (fun piece membership =>
                nonempty piece (List.mem_cons_of_mem _ membership)) later
                (List.mem_of_ne_of_mem (by simp) interrupted) nextRunning restSent room

end Sealer

section Stream

theorem encryptReads_filter (key : Key) (reads : List Read) (sink : Sink) (random : Random) :
    encryptReads key reads sink random =
        encryptReads key (reads.filter (· != .failed .interrupted)) sink random ∨
      (encryptReads key reads sink random).1.1 = .error (.transfer .interrupted) := by
  rw [encryptReads, encryptReads]
  obtain ⟨begun, middle⟩ := Sealer.start key random
  cases begun with
  | error error => exact .inl rfl
  | ok begun =>
      dsimp only
      obtain ⟨result, sink⟩ := sink.write begun.2
      cases result with
      | error error => exact .inl rfl
      | ok nothing => exact begun.1.transfer_filter reads sink middle

variable {key : Key} {sink : Sink} {random : Random}

theorem mem_of_encryptReads {reads : List Read}
    (interrupted : (encryptReads key reads sink random).1.1 = .error (.transfer .interrupted)) :
    .failed .interrupted ∈ reads := by
  rw [encryptReads] at interrupted
  have raises := Sealer.raisesOnly_start key random
  cases started : Sealer.start key random with
  | mk begun middle =>
      rw [started] at interrupted raises
      cases begun with
      | error error => exact absurd (Except.error.inj interrupted) (ne_interrupted raises)
      | ok begun =>
          have complaint := sink.write_ne_interrupted begun.2
          dsimp only at interrupted
          cases sent : sink.write begun.2 with
          | mk result after =>
              rw [sent] at interrupted complaint
              cases result with
              | error error => exact absurd interrupted complaint
              | ok nothing =>
                  exact (Sealer.ready_of_start started).mem_of_interrupted interrupted

theorem encryptStream_uninterrupted_ne (source : Source) :
    (encryptStream key source.uninterrupted sink random).1.1 ≠ .error (.transfer .interrupted) := by
  intro interrupted
  have membership : .failed .interrupted ∈ source.uninterrupted.reads chunkSize :=
    mem_of_encryptReads interrupted
  rw [source.reads_uninterrupted] at membership
  simp at membership

/-- Nothing but an interruption that ends encryption is lost when interruptions are left out. -/
theorem encryptStream_eq_iff (source : Source) :
    encryptStream key source sink random = encryptStream key source.uninterrupted sink random ↔
      (encryptStream key source sink random).1.1 ≠ .error (.transfer .interrupted) := by
  constructor
  · intro same
    rw [same]
    exact encryptStream_uninterrupted_ne source
  · intro other
    have streamed := encryptReads_filter key (source.reads chunkSize) sink random
    rw [← source.reads_uninterrupted] at streamed
    exact streamed.resolve_right other

/-- An encryption that would succeed ends with an interruption exactly if there is one. -/
theorem encryptStream_eq_interrupted_iff {source : Source} {pieces : List Bytes}
    {artifact : Bytes}
    (made : layout? key (random.draw key.drawSize).1 pieces.flatten = some artifact)
    (nonempty : ∀ piece ∈ pieces, piece ≠ [])
    (message : source.uninterrupted = pieces.map .chunk) (unlimited : sink.room = none) :
    (encryptStream key source sink random).1.1 = .error (.transfer .interrupted) ↔
      .interruption ∈ source := by
  constructor
  · intro interrupted
    exact Source.failed_interrupted_mem_reads.mp (mem_of_encryptReads interrupted)
  · intro interrupted
    obtain ⟨sealer, middle, output, started, running, sent, rfl⟩ := exists_start_of_layout made
    simp only [encryptStream, started, Sink.write, unlimited]
    exact Sealer.transfer_of_interruption nonempty message interrupted running sent rfl

end Stream

/-- Encryption is the same without the interruptions of its source exactly if it does not end
with one.  Where pieces of a message would be encrypted, any interruption before, between or
after them ends it with an error, as decryption does for none. -/
theorem encryptStream_eq_uninterrupted_iff (key : Key) (source : Source) (sink : Sink)
    (random : Random) :
    (encryptStream key source sink random = encryptStream key source.uninterrupted sink random ↔
      (encryptStream key source sink random).1.1 ≠ .error (.transfer .interrupted)) ∧
    (∀ pieces : List Bytes,
      (key.keyType.supports .decryptAndEncrypt = true ∨ key.keyType.supports .encrypt = true) →
      (key.keyType = .rsaPrivate ∨ key.keyType = .rsaPublic →
        pieces.flatten.length ≤ key.size / 8 - 42) →
      (∀ piece ∈ pieces, piece ≠ []) → source.uninterrupted = pieces.map .chunk →
      sink.room = none → sink.flushFails = false →
      ∃ artifact, (encrypt key pieces.flatten random).1 = .ok artifact ∧
        (encryptStream key source.uninterrupted sink random).1 =
          (.ok (), { sink with
            written := sink.written ++ artifact, flushes := sink.flushes + 1 }) ∧
        ((encryptStream key source sink random).1.1 = .error (.transfer .interrupted) ↔
          .interruption ∈ source)) ∧
    ∀ (Holder : Type) [Decrypts Holder] (holder : Holder),
      Decrypts.decryptStream holder source sink =
        Decrypts.decryptStream holder source.uninterrupted sink := by
  refine ⟨encryptStream_eq_iff source, ?_, ?_⟩
  · intro pieces encrypts fits nonempty message unlimited flushes
    obtain ⟨body, made⟩ := exists_layout_of_encrypts encrypts fits (random.draw key.drawSize).1
    refine ⟨_, congrArg Prod.fst (encrypt_eq_layout made), ?_,
      encryptStream_eq_interrupted_iff made nonempty message unlimited⟩
    rw [message, encryptStream_eq_layout made nonempty unlimited]
    simp [Sink.flush, flushes]
  · intro Holder decrypts holder
    rw [Decrypts.decryptStream, Decrypts.decryptStream, source.readAll_uninterrupted]

end Artifact

namespace Sample

/-- Two pieces, with an interruption between them. -/
def interrupted : Source := [.chunk [104], .interruption, .chunk [105]]

theorem exists_layout_interrupted :
    ∃ artifact, Artifact.layout? key (Random.draw key.drawSize {}).1
      [[104], [105]].flatten = some artifact := by
  obtain ⟨body, made⟩ := Artifact.exists_layout isSymmetric
    (Random.draw key.drawSize {}).1 [[104], [105]].flatten
  exact ⟨_, made⟩

end Sample

theorem Artifact.encryptStream_eq_uninterrupted_iff_sample :
    ∃ artifact, (encrypt Sample.key [104, 105] {}).1 = .ok artifact ∧
      (encryptStream Sample.key Sample.interrupted.uninterrupted {} {}).1 =
        (.ok (), { written := artifact, flushes := 1 }) ∧
      (encryptStream Sample.key Sample.interrupted {} {}).1.1 =
        .error (.transfer .interrupted) := by
  obtain ⟨-, stopped, -⟩ :=
    encryptStream_eq_uninterrupted_iff Sample.key Sample.interrupted {} {}
  obtain ⟨artifact, encrypted, whole, interrupted⟩ :=
    stopped [[104], [105]] (.inl rfl) (by rintro (other | other) <;> cases other) (by decide)
      rfl rfl rfl
  exact ⟨artifact, encrypted, whole, interrupted.mpr (by decide)⟩

/-- An interruption between two pieces ends encryption with an error, and without it the
pieces are encrypted. -/
theorem Artifact.encryptStream_interrupted :
    (encryptStream Sample.key Sample.interrupted {} {}).1.1 = .error (.transfer .interrupted) ∧
      (encryptStream Sample.key Sample.interrupted.uninterrupted {} {}).1.1 = .ok () := by
  obtain ⟨artifact, made⟩ := Sample.exists_layout_interrupted
  constructor
  · exact (encryptStream_eq_interrupted_iff made (by decide) rfl rfl).mpr (by decide)
  · have streamed := encryptStream_eq_layout made (by decide) (show Sink.room {} = none from rfl)
    exact congrArg (·.1.1) streamed

end VersionedKeys
