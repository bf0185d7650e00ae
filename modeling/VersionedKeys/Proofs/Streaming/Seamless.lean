import VersionedKeys.Proofs.Streaming.Whole
import VersionedKeys.Streaming.Tag

/-!
# Streams without seams

Pieces are written one after another and the stream is finished, up to the first
error.  What has been put out by then and whether there was an error do not
depend on where the pieces end (`Seamless.drain_eq`).  This comes down to four
laws of one write, and holds of everything that encrypts (`Encryptor.seamless`)
and decrypts (`Decryptor.seamless`).
-/

namespace VersionedKeys.Streaming

section Drain

variable {Stream : Type} (write : Stream → Bytes → Except Error (Stream × Bytes))
  (finish : Stream → Except Error Bytes)

/-- All that is put out for some pieces and the end, and the error that stops it. -/
def drain (stream : Stream) : List Bytes → Bytes × Except Error Unit
  | [] =>
      match finish stream with
      | .error error => ([], .error error)
      | .ok output => (output, .ok ())
  | piece :: pieces =>
      match write stream piece with
      | .error error => ([], .error error)
      | .ok (next, output) => (drain next pieces).map (output ++ ·) id

def AcceptsAll (stream : Stream) : Prop := ∀ input, ∃ result, write stream input = .ok result

/-- Laws of streams whose input may be cut anywhere. -/
structure Seamless (Ready : Stream → Prop) : Prop where
  ready {stream next : Stream} {input output : Bytes} :
    Ready stream → write stream input = .ok (next, output) → Ready next
  append {stream : Stream} (ready : Ready stream) (front back : Bytes) :
    write stream (front ++ back) =
      write stream front >>= fun (next, output) =>
        write next back >>= fun (last, more) => .ok (last, output ++ more)
  /-- What has put something out refuses nothing more. -/
  accepts {stream next : Stream} {input output : Bytes} :
    Ready stream → write stream input = .ok (next, output) → output ≠ [] →
      AcceptsAll write next
  /-- The end makes up for a write of nothing. -/
  ended {stream : Stream} : Ready stream →
    ∃ next output, write stream [] = .ok (next, output) ∧
      finish stream = (finish next).map (output ++ ·) ∧
      (output ≠ [] → ∃ rest, finish next = .ok rest)

section Laws

variable {write finish} {Ready : Stream → Prop} (seamless : Seamless write finish Ready)
  {stream : Stream} (ready : Ready stream)

include seamless ready

theorem Seamless.drain_cons_cons (front back : Bytes) (pieces : List Bytes) :
    drain write finish stream (front :: back :: pieces) =
      drain write finish stream ((front ++ back) :: pieces) := by
  rw [drain, drain, seamless.append ready]
  cases first : write stream front with
  | error error => rfl
  | ok result =>
      obtain ⟨next, output⟩ := result
      rw [Outcome.ok_bind]
      dsimp only
      rw [drain]
      cases second : write next back with
      | error error =>
          -- The error comes after the first output in one case and before it in the other.
          have silent : output = [] := by
            by_contra some
            obtain ⟨result, accepted⟩ := seamless.accepts ready first some back
            cases accepted.symm.trans second
          rw [silent]
          rfl
      | ok result =>
          simp [Prod.map]

theorem Seamless.drain_nil :
    drain write finish stream [[]] = drain write finish stream [] := by
  obtain ⟨next, output, written, ended, accepts⟩ := seamless.ended ready
  simp only [drain, written, ended]
  cases last : finish next with
  | error error =>
      have silent : output = [] := by
        by_contra some
        obtain ⟨rest, accepted⟩ := accepts some
        cases accepted.symm.trans last
      rw [silent]
      rfl
  | ok rest => rfl

/-- Any pieces are drained like their concatenation. -/
theorem Seamless.drain_flatten (pieces : List Bytes) :
    drain write finish stream pieces = drain write finish stream [pieces.flatten] := by
  induction pieces generalizing stream with
  | nil => exact (seamless.drain_nil ready).symm
  | cons piece pieces inductionHypothesis =>
      calc
        drain write finish stream (piece :: pieces)
            = drain write finish stream (piece :: [pieces.flatten]) := by
          rw [drain, drain]
          cases written : write stream piece with
          | error error => rfl
          | ok result =>
              dsimp only
              rw [inductionHypothesis (seamless.ready ready written)]
        _ = drain write finish stream [piece ++ pieces.flatten] :=
          seamless.drain_cons_cons ready piece pieces.flatten []

theorem Seamless.drain_eq {left right : List Bytes} (same : left.flatten = right.flatten) :
    drain write finish stream left = drain write finish stream right := by
  rw [seamless.drain_flatten ready left, same, ← seamless.drain_flatten ready right]

end Laws

end Drain

open Aes

namespace Encryptor

/-- An encryptor that is not finished and has taken in no more than it can encrypt. -/
def Ready : Encryptor → Prop
  | cbc stream => stream.finished = false
  | gcm stream => stream.finished = false
  | oaep stream =>
      stream.finished = false ∧
        stream.buffer.length ≤ Rsa.Oaep.capacity stream.key.length

theorem push_gcm {stream : GcmEncryptor} (running : stream.finished = false) (input : Bytes) :
    push write (.gcm stream) input =
      .ok (.gcm { stream with lead := [], buffer := stream.buffer ++ input }, stream.lead) := by
  simp [push, write, GcmEncryptor.write, running]

theorem push_oaep_eq_ok {stream : OaepEncryptor} (running : stream.finished = false)
    {next : Encryptor} {input output : Bytes} :
    push write (.oaep stream) input = .ok (next, output) ↔
      stream.buffer.length + input.length ≤ Rsa.Oaep.capacity stream.key.length ∧
        next = .oaep { stream with buffer := stream.buffer ++ input } ∧ output = [] := by
  by_cases long : Rsa.Oaep.capacity stream.key.length < stream.buffer.length + input.length
  · simp only [push, write, OaepEncryptor.write, running, long, Bool.false_eq_true, if_false,
      if_true, Prod.map_snd, id_eq, Outcome.map_error, reduceCtorEq, false_iff]
    omega
  · have fits : stream.buffer.length + input.length ≤
        Rsa.Oaep.capacity stream.key.length := by omega
    simp [push, write, OaepEncryptor.write, running, long, fits, eq_comm]

theorem Ready.push {encryptor next : Encryptor} (ready : encryptor.Ready) {input output : Bytes}
    (pushed : push write encryptor input = .ok (next, output)) :
    next.Ready ∧ (output ≠ [] → AcceptsAll (Streaming.push write) next) := by
  cases encryptor with
  | cbc stream =>
      have running : stream.finished = false := ready
      have stillRunning : (stream.advance input).1.finished = false := running
      rw [push_cbc running] at pushed
      cases pushed
      exact ⟨stillRunning, fun _ later => ⟨_, push_cbc stillRunning later⟩⟩
  | gcm stream =>
      have running : stream.finished = false := ready
      rw [push_gcm running] at pushed
      cases pushed
      refine ⟨running, fun _ later => ?_⟩
      rw [push_gcm]
      · exact ⟨_, rfl⟩
      · exact running
  | oaep stream =>
      obtain ⟨running, -⟩ := ready
      obtain ⟨fits, rfl, rfl⟩ := (push_oaep_eq_ok running).mp pushed
      refine ⟨⟨running, ?_⟩, fun some => absurd rfl some⟩
      rw [List.length_append]
      exact fits

theorem Ready.exists_finish {encryptor : Encryptor} (ready : encryptor.Ready)
    (random : Random) :
    ∃ next output, Streaming.push write encryptor [] = .ok (next, output) ∧
      (encryptor.finish random).1.2 = (next.finish random).1.2.map (output ++ ·) ∧
      (output ≠ [] → ∃ rest, (next.finish random).1.2 = .ok rest) := by
  cases encryptor with
  | cbc stream =>
      have running : stream.finished = false := ready
      have later : (stream.advance []).1.finished = false := running
      have padded := stream.advance_append [] (Cbc.padding stream.pending.length)
      have padding := stream.padding_advance []
      rw [List.nil_append] at padded
      rw [List.append_nil] at padding
      refine ⟨_, _, push_cbc running [], ?_, ?_⟩
      · simp [finish, CbcEncryptor.finish, running, later, padding, padded]
      · simp [finish, CbcEncryptor.finish, later]
  | gcm stream =>
      have running : stream.finished = false := ready
      refine ⟨_, _, push_gcm running [], ?_, ?_⟩
      · simp [finish, GcmEncryptor.finish, running]
      · simp [finish, GcmEncryptor.finish, running]
  | oaep stream =>
      obtain ⟨running, fits⟩ := ready
      refine ⟨.oaep stream, [], ?_, ?_, ?_⟩
      · rw [push_oaep_eq_ok running, List.append_nil]
        exact ⟨fits, rfl, rfl⟩
      · cases ((oaep stream).finish random).1.2 <;> rfl
      · intro some
        exact absurd rfl some

theorem seamless (random : Random) :
    Seamless (push write) (fun encryptor => (encryptor.finish random).1.2) Ready where
  ready ready pushed := (ready.push pushed).1
  append _ front back := push_append _ front back
  accepts ready pushed some := (ready.push pushed).2 some
  ended ready := ready.exists_finish random

/-- All that an encryptor puts out for some pieces and the end. -/
def drain (encryptor : Encryptor) (random : Random) (pieces : List Bytes) :
    Bytes × Except Error Unit :=
  Streaming.drain (push write) (fun encryptor => (encryptor.finish random).1.2) encryptor pieces

/-- An encryptor as it is started, with any key. -/
inductive Started : Encryptor → Prop where
  | cbc {key : Bytes} {iv? : Option Block} {ciphertextOnly : Bool} {random after : Random}
      {stream : CbcEncryptor}
      (started : CbcEncryptor.start key iv? ciphertextOnly random = (.ok stream, after)) :
      Started (.cbc stream)
  | gcm {key associated : Bytes} {random after : Random} {stream : GcmEncryptor}
      (started : GcmEncryptor.start key associated random = (.ok stream, after)) :
      Started (.gcm stream)
  | oaep (key : Rsa.PublicKey) : Started (.oaep (.start key))

theorem Started.ready {encryptor : Encryptor} (started : encryptor.Started) :
    encryptor.Ready := by
  cases started with
  | @cbc key _ _ _ _ _ started =>
      simp only [CbcEncryptor.start] at started
      cases found : Key.ofBytes? key with
      | none => simp [found] at started
      | some aes =>
          rw [found] at started
          cases started
          rfl
  | gcm started =>
      obtain ⟨aes, -, rfl⟩ := Outcome.map_eq_ok.mp (congrArg Prod.fst started)
      rfl
  | oaep key => exact ⟨rfl, Nat.zero_le _⟩

end Encryptor

namespace CbcDecryptor

/-- A decryptor that is not finished and holds no more than it has to. -/
structure Ready (stream : CbcDecryptor) : Prop where
  running : stream.finished = false
  short : match stream.stage with
    | .collecting iv => iv.length < Block.size
    | .decrypting _ _ pending => pending.length ≤ Block.size

theorem Ready.consistent {stream : CbcDecryptor} (ready : stream.Ready) : stream.Consistent := by
  intro iv collecting
  have short := ready.short
  rw [collecting] at short
  exact short

theorem ready_advance (key : Bytes) (schedule : Schedule) (chain : Block) (bytes : Bytes) :
    Ready ⟨key, (advance schedule chain bytes).1, false⟩ := by
  obtain ⟨blocks, rest, rfl, short, kept⟩ := exists_kept bytes
  rw [advance_eq _ _ _ short kept]
  exact ⟨rfl, short⟩

/-- Once the vector is complete nothing is refused, and before nothing is put out. -/
theorem Ready.push {stream next : CbcDecryptor} (ready : stream.Ready) {input output : Bytes}
    (pushed : push write stream input = .ok (next, output)) :
    next.Ready ∧ (output ≠ [] → AcceptsAll (Streaming.push write) next) := by
  obtain ⟨key, stage, finished⟩ := stream
  obtain ⟨running, short⟩ := ready
  cases running
  have proceeds (schedule : Schedule) (chain : Block) (bytes : Bytes) :
      Ready ⟨key, (advance schedule chain bytes).1, false⟩ ∧ (output ≠ [] →
        AcceptsAll (Streaming.push write) ⟨key, (advance schedule chain bytes).1, false⟩) :=
    ⟨ready_advance key schedule chain bytes, fun _ _ => ⟨_, push_decrypting key _ _ _ _⟩⟩
  cases stage with
  | collecting iv =>
      by_cases incomplete : iv.length + input.length < Block.size
      · rw [push_incomplete key incomplete] at pushed
        cases pushed
        refine ⟨⟨rfl, ?_⟩, fun some => absurd rfl some⟩
        simpa using incomplete
      · have complete : iv.length + (input.take (Block.size - iv.length)).length = Block.size := by
          rw [List.length_take]
          omega
        rw [← List.take_append_drop (Block.size - iv.length) input,
          push_complete key complete] at pushed
        cases found : Key.ofBytes? key with
        | none => simp [found] at pushed
        | some aes =>
            rw [found] at pushed
            cases pushed
            exact proceeds _ _ _
  | decrypting schedule chain pending =>
      rw [push_decrypting] at pushed
      cases pushed
      exact proceeds _ _ _

theorem Ready.push_nil {stream : CbcDecryptor} (ready : stream.Ready) :
    Streaming.push write stream [] = .ok (stream, []) := by
  obtain ⟨key, stage, finished⟩ := stream
  obtain ⟨running, short⟩ := ready
  cases running
  cases stage with
  | collecting iv =>
      have incomplete : iv.length + ([] : Bytes).length < Block.size := short
      rw [push_incomplete key incomplete, List.append_nil]
  | decrypting schedule chain pending =>
      have kept := advance_eq schedule chain [] short fun _ => rfl
      rw [Block.join_nil, List.nil_append] at kept
      rw [push_decrypting, List.append_nil, kept]
      rfl

end CbcDecryptor

namespace Decryptor

/-- A decryptor that is not finished and holds no more than it can. -/
def Ready : Decryptor → Prop
  | cbc stream => stream.Ready
  | gcm stream => stream.finished = false
  | oaep stream =>
      stream.finished = false ∧ stream.buffer.length ≤ stream.key.publicKey.length

theorem Ready.consistent {decryptor : Decryptor} (ready : decryptor.Ready) :
    decryptor.Consistent := by
  cases decryptor with
  | cbc stream => exact CbcDecryptor.Ready.consistent ready
  | gcm stream => exact consistent_gcm stream
  | oaep stream => exact consistent_oaep stream

theorem push_gcm {stream : GcmDecryptor} (running : stream.finished = false) (input : Bytes) :
    push write (.gcm stream) input =
      .ok (.gcm { stream with buffer := stream.buffer ++ input }, []) := by
  simp [push, write, GcmDecryptor.write, running]

theorem push_oaep_eq_ok {stream : OaepDecryptor} (running : stream.finished = false)
    {next : Decryptor} {input output : Bytes} :
    push write (.oaep stream) input = .ok (next, output) ↔
      stream.buffer.length + input.length ≤ stream.key.publicKey.length ∧
        next = .oaep { stream with buffer := stream.buffer ++ input } ∧ output = [] := by
  by_cases long : stream.key.publicKey.length < stream.buffer.length + input.length
  · simp only [push, write, OaepDecryptor.write, running, long, Bool.false_eq_true, if_false,
      if_true, Prod.map_snd, id_eq, Outcome.map_error, reduceCtorEq, false_iff]
    omega
  · have fits : stream.buffer.length + input.length ≤ stream.key.publicKey.length := by omega
    simp [push, write, OaepDecryptor.write, running, long, fits, eq_comm]

theorem Ready.push {decryptor next : Decryptor} (ready : decryptor.Ready) {input output : Bytes}
    (pushed : push write decryptor input = .ok (next, output)) :
    next.Ready ∧ (output ≠ [] → AcceptsAll (Streaming.push write) next) := by
  cases decryptor with
  | cbc stream =>
      rw [push_of_wrapped CbcDecryptor.write fun _ _ => rfl] at pushed
      obtain ⟨result, written, equality⟩ := Outcome.map_eq_ok.mp pushed
      cases equality
      obtain ⟨still, accepts⟩ := CbcDecryptor.Ready.push ready written
      refine ⟨still, ?_⟩
      intro some later
      obtain ⟨after, accepted⟩ := accepts some later
      rw [push_of_wrapped CbcDecryptor.write fun _ _ => rfl, accepted]
      exact ⟨_, rfl⟩
  | gcm stream =>
      have running : stream.finished = false := ready
      rw [push_gcm running] at pushed
      cases pushed
      exact ⟨running, fun some => absurd rfl some⟩
  | oaep stream =>
      obtain ⟨running, -⟩ := ready
      obtain ⟨fits, rfl, rfl⟩ := (push_oaep_eq_ok running).mp pushed
      refine ⟨⟨running, ?_⟩, fun some => absurd rfl some⟩
      rw [List.length_append]
      exact fits

/-- Writing nothing changes nothing. -/
theorem Ready.push_nil {decryptor : Decryptor} (ready : decryptor.Ready) :
    Streaming.push write decryptor [] = .ok (decryptor, []) := by
  cases decryptor with
  | cbc stream =>
      rw [push_of_wrapped CbcDecryptor.write fun _ _ => rfl, CbcDecryptor.Ready.push_nil ready]
      rfl
  | gcm stream =>
      have running : stream.finished = false := ready
      rw [push_gcm running, List.append_nil]
  | oaep stream =>
      obtain ⟨running, fits⟩ := ready
      rw [push_oaep_eq_ok running, List.append_nil]
      exact ⟨fits, rfl, rfl⟩

theorem seamless : Seamless (push write) (fun decryptor => decryptor.finish.2) Ready where
  ready ready pushed := (ready.push pushed).1
  append ready front back := push_append ready.consistent front back
  accepts ready pushed some := (ready.push pushed).2 some
  ended {decryptor} ready := by
    refine ⟨decryptor, [], ready.push_nil, ?_, ?_⟩
    · cases decryptor.finish.2 <;> rfl
    · intro some
      exact absurd rfl some

/-- All that a decryptor puts out for some pieces and the end. -/
def drain (decryptor : Decryptor) (pieces : List Bytes) : Bytes × Except Error Unit :=
  Streaming.drain (push write) (fun decryptor => decryptor.finish.2) decryptor pieces

/-- A decryptor as it is started, with any key. -/
inductive Started : Decryptor → Prop where
  | cbc {key : Bytes} {iv? : Option Block} {stream : CbcDecryptor}
      (started : CbcDecryptor.start key iv? = .ok stream) : Started (.cbc stream)
  | gcm {key associated : Bytes} {stream : GcmDecryptor}
      (started : GcmDecryptor.start key associated = .ok stream) : Started (.gcm stream)
  | oaep (key : Rsa.PrivateKey) : Started (.oaep (.start key))

theorem Started.ready {decryptor : Decryptor} (started : decryptor.Started) :
    decryptor.Ready := by
  cases started with
  | @cbc key iv? _ started =>
      cases iv? with
      | none =>
          cases started
          exact ⟨rfl, by simp [Block.size]⟩
      | some iv =>
          rw [CbcDecryptor.start] at started
          cases found : Key.ofBytes? key with
          | none => simp [found] at started
          | some aes =>
              rw [found] at started
              cases started
              exact ⟨rfl, by simp⟩
  | gcm started =>
      obtain ⟨aes, -, rfl⟩ := Outcome.map_eq_ok.mp started
      rfl
  | oaep key => exact ⟨rfl, Nat.zero_le _⟩

end Decryptor

namespace TagStream

/-- A stream after some pieces and the end, or where an error has stopped it. -/
def close (stream : TagStream) : List Bytes → TagStream × Except Error Unit
  | [] => stream.finish
  | piece :: pieces =>
      match stream.write piece with
      | (stream, .error error) => (stream, .error error)
      | (stream, .ok ()) => close stream pieces

inductive Unfinished : TagStream → Prop where
  | hmac (mac : Digest.Hmac Digest.Sha1State) : Unfinished (.hmac (.running mac))
  | decoy (mac : Digest.Hmac Digest.Sha1State) : Unfinished (.decoy (.running mac))
  | signature {stream : SignatureStream} (running : stream.finished = false) :
      Unfinished (.signature stream)

/-- A stream that is not finished takes in everything, and in any pieces. -/
theorem Unfinished.exists_write {stream : TagStream} (unfinished : stream.Unfinished)
    (front : Bytes) :
    ∃ next, stream.write front = (next, .ok ()) ∧ next.Unfinished ∧
      ∀ back, stream.write (front ++ back) = next.write back := by
  cases unfinished with
  | hmac mac =>
      refine ⟨_, rfl, .hmac _, ?_⟩
      simp [write, HmacStream.write, Digest.HashFunction.updateHmac_append]
  | decoy mac =>
      refine ⟨_, rfl, .decoy _, ?_⟩
      simp [write, HmacStream.write, Digest.HashFunction.updateHmac_append]
  | @signature stream running =>
      refine ⟨.signature { stream with absorbed := Digest.sha1.absorb stream.absorbed front },
        ?_, .signature running, ?_⟩
      · simp [write, SignatureStream.write, running]
      · simp [write, SignatureStream.write, running, Digest.HashFunction.absorb_append]

theorem Unfinished.close_eq {stream : TagStream} (unfinished : stream.Unfinished)
    (pieces : List Bytes) :
    stream.close pieces = (stream.write pieces.flatten).1.finish := by
  induction pieces generalizing stream with
  | nil =>
      cases unfinished with
      | hmac mac => rfl
      | decoy mac => rfl
      | @signature stream running =>
          obtain ⟨signer?, verifier, absorbed, finished, signature⟩ := stream
          cases running
          rfl
  | cons piece pieces inductionHypothesis =>
      obtain ⟨next, written, still, append⟩ := unfinished.exists_write piece
      rw [close, written, List.flatten_cons, append]
      exact inductionHypothesis still

/-- A stream as it is started, with any key. -/
inductive Started : TagStream → Prop where
  | hmac (key : Bytes) : Started (.hmac (.start key))
  | decoy : Started startDecoy
  | signing (key : SigningKey) : Started (.signature (.signing key))
  | verifying (key : VerifyingKey) : Started (.signature (.verifying key))

theorem Started.unfinished {stream : TagStream} (started : stream.Started) :
    stream.Unfinished := by
  cases started with
  | hmac key => exact .hmac _
  | decoy => exact .decoy _
  | signing key => exact .signature rfl
  | verifying key => exact .signature rfl

end TagStream

end VersionedKeys.Streaming
