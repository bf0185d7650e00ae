import VersionedKeys.Proofs.Artifact.Composition

/-!
# Abandoned artifacts

Whatever stops encryption, what the sink has by then is the beginning of the artifact of
what has been read.  Before the end of the source it is what every longer message
would begin with, and neither padding nor tag has been sent
(`encryptStream_leaves_beginning`).
-/

namespace VersionedKeys

namespace Artifact

open Aes Streaming

section Noting

/-- `transfer`, with the bytes that have been read when it ends. -/
def Sealer.transferNoting (sealer : Sealer) :
    List Read → Sink → Random → ((Except Error Unit × Sink) × Random) × Bytes
  | .data bytes :: reads, sink, random =>
      match sealer.write bytes with
      | .error error => (((.error error, sink), random), bytes)
      | .ok (sealer, output) =>
          match sink.write output with
          | (.error error, sink) => (((.error error, sink), random), bytes)
          | (.ok (), sink) => (transferNoting sealer reads sink random).map id (bytes ++ ·)
  | reads, sink, random => (sealer.transfer reads sink random, [])

theorem Sealer.fst_transferNoting (sealer : Sealer) (reads : List Read) (sink : Sink)
    (random : Random) :
    (sealer.transferNoting reads sink random).1 = sealer.transfer reads sink random := by
  induction reads generalizing sealer sink with
  | nil => rfl
  | cons read reads inductionHypothesis =>
      cases read with
      | ended => rfl
      | failed fault => rfl
      | data bytes =>
          rw [transferNoting, transfer]
          cases sealer.write bytes with
          | error error => rfl
          | ok written =>
              obtain ⟨next, output⟩ := written
              dsimp only
              obtain ⟨result, sink⟩ := sink.write output
              cases result with
              | error error => rfl
              | ok nothing => exact inductionHypothesis next sink

/-- `encryptStream`, with the bytes that have been read when it ends. -/
def encryptNoting (key : Key) (source : Source) (sink : Sink) (random : Random) :
    ((Except Error Unit × Sink) × Random) × Bytes :=
  match Sealer.start key random with
  | (.error error, random) => (((.error error, sink), random), [])
  | (.ok (sealer, head), random) =>
      match sink.write head with
      | (.error error, sink) => (((.error error, sink), random), [])
      | (.ok (), sink) => sealer.transferNoting (source.reads chunkSize) sink random

theorem fst_encryptNoting (key : Key) (source : Source) (sink : Sink) (random : Random) :
    (encryptNoting key source sink random).1 = encryptStream key source sink random := by
  rw [encryptNoting, encryptStream]
  obtain ⟨begun, middle⟩ := Sealer.start key random
  cases begun with
  | error error => rfl
  | ok begun =>
      dsimp only
      obtain ⟨result, sink⟩ := sink.write begun.2
      cases result with
      | error error => rfl
      | ok nothing => exact Sealer.fst_transferNoting _ _ _ _

/-- What a source has delivered when `encryptStream` ends, with a result or an error. -/
def delivered (key : Key) (source : Source) (sink : Sink) (random : Random) : Bytes :=
  (encryptNoting key source sink random).2

end Noting

namespace Sealer

/-- What is put out for some bytes, if they are taken in, as long as there may be more. -/
def early (sealer : Sealer) (bytes : Bytes) : Bytes :=
  match sealer.write bytes with
  | .error _ => []
  | .ok (_, output) => output

theorem early_of_write {sealer next : Sealer} {bytes output : Bytes}
    (written : sealer.write bytes = .ok (next, output)) : sealer.early bytes = output := by
  rw [early, written]

theorem Ready.early_append {sealer next : Sealer} (ready : sealer.Ready) {front output : Bytes}
    (written : sealer.write front = .ok (next, output)) (back : Bytes) :
    sealer.early (front ++ back) = output ++ next.early back := by
  rw [early, ready.write_append, written, Outcome.ok_bind, early]
  dsimp only
  cases later : next.write back with
  | ok result => rfl
  | error error =>
      -- What refuses the rest has not put out anything before.
      have silent : output = [] := by
        by_contra some
        obtain ⟨result, accepted⟩ := (seamless {}).accepts ready written some back
        cases later.symm.trans accepted
      rw [silent]
      rfl

/-- How making an artifact ends, after `front` has been sent, when some bytes have been read
and some have been received in all. -/
inductive Ends (sealer : Sealer) (front : Bytes) (reads : List Read) (random : Random)
    (read received : Bytes) : Except Error Unit → Prop where
  /-- Something stops it before the end. -/
  | cut {error : Error} :
      received <+: front ++ sealer.early read → Ends sealer front reads random read received
        (.error error)
  /-- All that is read is encrypted, and only the sink may complain. -/
  | finished {result : Except Error Unit} {next : Sealer} {output : Bytes} :
      Source.Complete reads read → sealer.write read = .ok (next, output) →
      (∀ whole after, sealer.whole read random = (.ok whole, after) →
        received <+: front ++ whole ∧ (result = .ok () → received = front ++ whole)) →
      (∀ error, result = .error error →
        error = .transfer .writeFailed ∨ error = .transfer .flushFailed) →
      Ends sealer front reads random read received result

theorem Ends.of_write {sealer next : Sealer} (ready : sealer.Ready) {front bytes output : Bytes}
    (written : sealer.write bytes = .ok (next, output)) {reads : List Read} {random : Random}
    {read received : Bytes} {result : Except Error Unit}
    (ends : next.Ends (front ++ output) reads random read received result) :
    sealer.Ends front (.data bytes :: reads) random (bytes ++ read) received result := by
  cases ends with
  | cut beginning =>
      refine .cut ?_
      rwa [ready.early_append written, ← List.append_assoc]
  | @finished result last more complete later sent complaints =>
      have both : sealer.write (bytes ++ read) = .ok (last, output ++ more) := by
        simp only [ready.write_append, written, later, Outcome.ok_bind]
      refine .finished (.data complete) both ?_ complaints
      intro whole after made
      obtain ⟨same, first, rest, again, -, restMade, rfl⟩ :=
        exists_write_of_whole_append ready.running made
      cases written.symm.trans again
      rw [← List.append_assoc]
      exact sent rest after restMade

theorem Ready.exists_ends_of_end {sealer : Sealer} (ready : sealer.Ready) {start sink : Sink}
    {front : Bytes} (before : start.Received front sink) {reads : List Read}
    (complete : Source.Complete reads []) (random : Random) :
    ∃ received, start.Received received (sealer.transfer [] sink random).1.2 ∧
      sealer.Ends front reads random [] received (sealer.transfer [] sink random).1.1 := by
  cases ended : sealer.finish random with
  | mk ending after =>
      cases ending with
      | error error =>
          refine ⟨front, ?_, ?_⟩
          · rw [transfer, ended]
            exact before
          · rw [transfer, ended]
            exact .cut (List.prefix_append _ _)
      | ok output =>
          rw [transfer_nil ended]
          obtain ⟨received, beginning, arrived, all⟩ := sink.exists_received output
          obtain ⟨next, first, written, -⟩ := ready.exists_finish random
          refine ⟨front ++ received, before.append arrived, .finished complete written ?_ ?_⟩
          · intro whole last made
            cases ended.symm.trans (finish_eq_whole_nil made)
            refine ⟨?_, ?_⟩
            · exact (List.prefix_append_right_inj front).mpr beginning
            · intro good
              rw [all good]
          · intro error failed
            exact sink.deliver_eq_error output failed

/-- What has been sent is a beginning of what belongs to the bytes that have been read,
at every step. -/
theorem Ready.exists_ends {sealer : Sealer} (ready : sealer.Ready) {start sink : Sink}
    {front : Bytes} (before : start.Received front sink) (reads : List Read) (random : Random) :
    ∃ received,
      start.Received received (sealer.transferNoting reads sink random).1.1.2 ∧
      sealer.Ends front reads random (sealer.transferNoting reads sink random).2 received
        (sealer.transferNoting reads sink random).1.1.1 := by
  induction reads generalizing sealer sink front with
  | nil => exact ready.exists_ends_of_end before .exhausted random
  | cons read reads inductionHypothesis =>
      cases read with
      | ended => exact ready.exists_ends_of_end before (.ended reads) random
      | failed fault => exact ⟨front, before, .cut (List.prefix_append _ _)⟩
      | data bytes =>
          rw [transferNoting]
          cases written : sealer.write bytes with
          | error error => exact ⟨front, before, .cut (List.prefix_append _ _)⟩
          | ok result =>
              obtain ⟨next, output⟩ := result
              dsimp only
              rcases sink.write_eq_or output with
                ⟨after, accepted, arrived⟩ | ⟨received, after, refused, beginning, arrived⟩
              · rw [accepted]
                obtain ⟨received, total, ends⟩ :=
                  inductionHypothesis (ready.of_write written) (before.append arrived)
                exact ⟨received, total, ends.of_write ready written⟩
              · rw [refused]
                refine ⟨front ++ received, before.append arrived, .cut ?_⟩
                rw [early_of_write written]
                exact (List.prefix_append_right_inj front).mpr beginning

/-- A source stops nothing after its end. -/
theorem Ends.prefix_of_stops {sealer : Sealer} {front : Bytes} {reads : List Read}
    {random : Random} {read received : Bytes} {result : Except Error Unit}
    (ends : sealer.Ends front reads random read received result) (stops : Source.Stops result) :
    received <+: front ++ sealer.early read := by
  cases ends with
  | cut beginning => exact beginning
  | finished complete written sent complaints =>
      rcases stops with ⟨reason, rfl⟩ | rfl
      · rcases complaints _ rfl with equality | equality <;> cases equality
      · rcases complaints _ rfl with equality | equality <;> cases equality

end Sealer

section Stream

variable {key : Key} {sealer : Sealer} {head : Bytes} {random middle : Random}
  (started : Sealer.start key random = (.ok (sealer, head), middle))

include started

theorem head_of_start : head = header key.hash := by
  have begun := (Sealer.start_eq key random).symm.trans (congrArg Prod.fst started)
  obtain ⟨streams, -, rest⟩ := Outcome.bind_eq_ok.mp begun
  obtain ⟨mac, -, equality⟩ := Outcome.bind_eq_ok.mp rest
  cases equality
  rfl

theorem exists_ends (source : Source) (sink : Sink) :
    ∃ received, sink.Received received (encryptStream key source sink random).1.2 ∧
      sealer.Ends head (source.reads chunkSize) middle (delivered key source sink random)
        received (encryptStream key source sink random).1.1 := by
  rw [delivered, ← fst_encryptNoting, encryptNoting, started]
  dsimp only
  rcases sink.write_eq_or head with
    ⟨after, accepted, arrived⟩ | ⟨received, after, refused, beginning, arrived⟩
  · rw [accepted]
    exact (Sealer.ready_of_start started).exists_ends arrived _ _
  · rw [refused]
    exact ⟨received, arrived, .cut (beginning.trans (List.prefix_append _ _))⟩

section Symmetric

variable (symmetric : key.IsSymmetric)

include symmetric

/-- The artifact of a message and more begins with what is put out early for the message. -/
theorem exists_artifact (message more : Bytes) :
    ∃ next first rest,
      sealer.write message = .ok (next, first) ∧
      (∃ after, sealer.whole (message ++ more) middle = (.ok (first ++ rest), after)) ∧
      (encrypt key (message ++ more) random).1 = .ok (head ++ (first ++ rest)) := by
  obtain ⟨body, made⟩ := exists_layout symmetric (random.draw key.drawSize).1 (message ++ more)
  obtain ⟨other, between, output, begun, running, whole, same⟩ := exists_start_of_layout made
  cases started.symm.trans begun
  obtain ⟨next, first, rest, written, -, -, rfl⟩ :=
    Sealer.exists_write_of_whole_append running whole
  refine ⟨next, first, rest, written, ⟨_, whole⟩, ?_⟩
  rw [encrypt_eq_layout made, same]

/-- Before the end there are only a vector or nonce and whole blocks. -/
theorem length_early (message : Bytes) :
    (sealer.early message).length ≤ key.drawSize + 16 * (message.length / 16) := by
  obtain ⟨next, output, -, written, -⟩ := exists_artifact started symmetric message []
  rw [Sealer.early_of_write written]
  obtain ⟨pushed, -⟩ := Sealer.write_eq_ok.mp written
  cases material : key.material with
  | aes aes =>
      have size : key.drawSize = Block.size := by rw [Key.drawSize, material]
      rw [start_aes material] at started
      cases started
      rw [Encryptor.push_cbc rfl] at pushed
      obtain ⟨-, rfl⟩ := Prod.mk.inj (Except.ok.inj pushed)
      rw [CbcEncryptor.length_advance, size]
      simp
  | aesAead aes =>
      have size : key.drawSize = Gcm.nonceSize := by rw [Key.drawSize, material]
      rw [start_aesAead material] at started
      cases started
      rw [Encryptor.push_gcm rfl] at pushed
      obtain ⟨-, rfl⟩ := Prod.mk.inj (Except.ok.inj pushed)
      simp [size]
  | _ => simp [Key.IsSymmetric, Key.keyType, material, Material.keyType] at symmetric

/-- What is early is the beginning of the artifact of every longer message. -/
theorem prefix_of_early {received message : Bytes}
    (beginning : received <+: head ++ sealer.early message) (more : Bytes) :
    ∃ artifact, (encrypt key (message ++ more) random).1 = .ok artifact ∧
      received <+: artifact := by
  obtain ⟨next, first, rest, written, -, encrypted⟩ :=
    exists_artifact started symmetric message more
  refine ⟨_, encrypted, ?_⟩
  rw [Sealer.early_of_write written] at beginning
  rw [← List.append_assoc]
  exact beginning.trans (List.prefix_append _ _)

theorem prefix_of_ends {reads : List Read} {read received : Bytes} {result : Except Error Unit}
    (ends : sealer.Ends head reads middle read received result) :
    ∃ artifact, (encrypt key read random).1 = .ok artifact ∧ received <+: artifact ∧
      (result = .ok () → received = artifact) := by
  cases ends with
  | cut beginning =>
      obtain ⟨artifact, encrypted, part⟩ := prefix_of_early started symmetric beginning []
      rw [List.append_nil] at encrypted
      exact ⟨artifact, encrypted, part, fun good => by cases good⟩
  | finished complete written sent complaints =>
      obtain ⟨next, first, rest, -, ⟨after, whole⟩, encrypted⟩ :=
        exists_artifact started symmetric read []
      rw [List.append_nil] at whole encrypted
      exact ⟨_, encrypted, sent _ after whole⟩

/-- A source that stops encryption leaves what every longer message begins with, and no more
than whole blocks of what it has delivered. -/
theorem prefix_of_stops {reads : List Read} {read received : Bytes} {result : Except Error Unit}
    (ends : sealer.Ends head reads middle read received result) (stops : Source.Stops result) :
    (∀ more, ∃ artifact, (encrypt key (read ++ more) random).1 = .ok artifact ∧
      received <+: artifact) ∧
    received.length ≤ 5 + key.drawSize + 16 * (read.length / 16) := by
  have beginning := ends.prefix_of_stops stops
  refine ⟨prefix_of_early started symmetric beginning, ?_⟩
  have short := length_early started symmetric read
  have total := beginning.length_le
  rw [head_of_start started, List.length_append, length_header] at total
  omega

end Symmetric

end Stream

/-- An encryptor of one block keeps everything until its end. -/
theorem early_oaep (rsa : Rsa.PublicKey) (message : Bytes) :
    Sealer.early ⟨.oaep ⟨rsa, [], false⟩, none⟩ message = [] := by
  rw [Sealer.early]
  split
  · rfl
  · next next output written =>
      obtain ⟨pushed, -⟩ := Sealer.write_eq_ok.mp written
      exact ((Encryptor.push_oaep_eq_ok rfl).mp pushed).2.2

section Rsa

variable {key : Key} {rsa : Rsa.PublicKey} (encrypts : EncryptsBy key rsa)

include encrypts

theorem length_le_of_write {message output : Bytes} {next : Sealer}
    (written : Sealer.write ⟨.oaep ⟨rsa, [], false⟩, none⟩ message = .ok (next, output)) :
    message.length ≤ key.size / 8 - 42 := by
  obtain ⟨pushed, -⟩ := Sealer.write_eq_ok.mp written
  have fits := ((Encryptor.push_oaep_eq_ok rfl).mp pushed).1
  rwa [encrypts.capacity_eq, List.length_nil, Nat.zero_add] at fits

/-- What stops encryption, before all of a message that fits has been read, leaves no more
than the header. -/
theorem prefix_header_of_ends {source : Source} {random : Random} {read received : Bytes}
    {result : Except Error Unit}
    (ends : Sealer.Ends ⟨.oaep ⟨rsa, [], false⟩, none⟩ (header key.hash)
      (source.reads chunkSize) random read received result)
    (stopped : Source.Stops result ∨ key.size / 8 - 42 < read.length ∨
      ∃ message, source.Delivers message ∧ key.size / 8 - 42 < message.length) :
    received <+: header key.hash ∧ result ≠ .ok () := by
  have early := early_oaep rsa read
  rcases stopped with stops | long
  · have beginning := ends.prefix_of_stops stops
    rw [early, List.append_nil] at beginning
    exact ⟨beginning, stops.ne_ok⟩
  · cases ends with
    | cut beginning =>
        rw [early, List.append_nil] at beginning
        exact ⟨beginning, fun good => by cases good⟩
    | finished complete written sent complaints =>
        have fits := length_le_of_write encrypts written
        have delivers := Source.delivers_of_complete (by decide) complete
        rcases long with long | ⟨message, again, long⟩
        · omega
        · rw [again.eq delivers] at long
          omega

end Rsa

/-- Only keys of other kinds have no artifact to begin. -/
theorem not_encrypts_of_start {key : Key} {error : Error} {random middle : Random}
    (failed : Sealer.start key random = (.error error, middle)) :
    ¬ key.IsSymmetric ∧ ¬ (key.keyType = .rsaPrivate ∨ key.keyType = .rsaPublic) := by
  constructor
  · intro symmetric
    obtain ⟨body, made⟩ := exists_layout symmetric (random.draw key.drawSize).1 []
    obtain ⟨sealer, between, output, begins, -⟩ := exists_start_of_layout made
    cases failed.symm.trans begins
  · intro asymmetric
    obtain ⟨rsa, encrypts⟩ := exists_encryptsBy asymmetric
    cases failed.symm.trans (start_rsa encrypts random)

/-- Whatever stops encryption, the sink has received a beginning of the artifact of what has
been delivered, made with the same random bytes, and all of it if there was no error.  If the
source stops it, the artifact of every longer message begins like that: behind the header are
only the vector or nonce and whole blocks of what has been delivered, and no padding or tag.
A key of RSA leaves no more than the header then, and also if the message is too long. -/
theorem encryptStream_leaves_beginning (key : Key) (source : Source) (sink : Sink)
    (random : Random) :
    ∃ received, sink.Received received (encryptStream key source sink random).1.2 ∧
      (key.IsSymmetric →
        (∃ artifact, (encrypt key (delivered key source sink random) random).1 = .ok artifact ∧
          received <+: artifact ∧
          ((encryptStream key source sink random).1.1 = .ok () → received = artifact)) ∧
        (Source.Stops (encryptStream key source sink random).1.1 →
          (∀ more, ∃ artifact,
            (encrypt key (delivered key source sink random ++ more) random).1 = .ok artifact ∧
            received <+: artifact) ∧
          received.length ≤
            5 + key.drawSize + 16 * ((delivered key source sink random).length / 16))) ∧
      (key.keyType = .rsaPrivate ∨ key.keyType = .rsaPublic →
        (Source.Stops (encryptStream key source sink random).1.1 ∨
          key.size / 8 - 42 < (delivered key source sink random).length ∨
          ∃ message, source.Delivers message ∧ key.size / 8 - 42 < message.length) →
        received <+: header key.hash ∧ (encryptStream key source sink random).1.1 ≠ .ok ()) := by
  cases started : Sealer.start key random with
  | mk begun middle =>
      cases begun with
      | error error =>
          obtain ⟨symmetric, asymmetric⟩ := not_encrypts_of_start started
          have failed : encryptStream key source sink random = ((.error error, sink), middle) := by
            rw [encryptStream, started]
          rw [failed]
          exact ⟨[], .nil sink, fun holds => absurd holds symmetric,
            fun holds => absurd holds asymmetric⟩
      | ok begun =>
          obtain ⟨sealer, head⟩ := begun
          obtain ⟨received, arrived, ends⟩ := exists_ends started source sink
          refine ⟨received, arrived, ?_, ?_⟩
          · intro symmetric
            exact ⟨prefix_of_ends started symmetric ends, prefix_of_stops started symmetric ends⟩
          · intro asymmetric stopped
            obtain ⟨rsa, encrypts⟩ := exists_encryptsBy asymmetric
            cases started.symm.trans (start_rsa encrypts random)
            exact prefix_header_of_ends encrypts ends stopped

end Artifact

namespace Sample

/-- A public key of RSA, with room for 86 bytes. -/
def blockKey : Key := ⟨.rsaPublic ⟨2 ^ 1023 + 1, 3, by decide +kernel⟩, by decide +kernel⟩

end Sample

/-- A source that fails after 20 bytes, and a message that is a byte too long for its key. -/
theorem Artifact.encryptStream_leaves_beginning_sample :
    (∃ received,
      Sink.Received {} received
        (encryptStream Sample.key [.chunk (List.replicate 20 7), .failure "gone"] {} {}).1.2 ∧
      (∀ more, ∃ artifact,
        (encrypt Sample.key (List.replicate 20 7 ++ more) {}).1 = .ok artifact ∧
        received <+: artifact) ∧
      received.length ≤ 37) ∧
    ∃ received,
      Sink.Received {} received
        (encryptStream Sample.blockKey [.chunk (List.replicate 87 7)] {} {}).1.2 ∧
      received.length ≤ 5 := by
  constructor
  · obtain ⟨received, arrived, symmetric, -⟩ := encryptStream_leaves_beginning Sample.key
      [.chunk (List.replicate 20 7), .failure "gone"] {} {}
    obtain ⟨-, stopped⟩ := symmetric Sample.isSymmetric
    obtain ⟨beginning, short⟩ := stopped (.inl ⟨"gone", rfl⟩)
    exact ⟨received, arrived, beginning, short⟩
  · obtain ⟨received, arrived, -, asymmetric⟩ := encryptStream_leaves_beginning Sample.blockKey
      [.chunk (List.replicate 87 7)] {} {}
    have delivers : Source.Delivers [.chunk (List.replicate 87 7)] (List.replicate 87 7 ++ []) :=
      .chunk (List.cons_ne_nil _ _) .exhausted
    obtain ⟨beginning, -⟩ := asymmetric (.inr rfl) (.inr (.inr ⟨_, delivers, by decide +kernel⟩))
    exact ⟨received, arrived, beginning.length_le⟩

end VersionedKeys
