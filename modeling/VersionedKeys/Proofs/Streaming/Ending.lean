import VersionedKeys.Proofs.Streaming.Seamless

/-!
# The end of a stream

The first call that finishes a stream, or verifies with it, ends it, whether the call succeeds or
not.  From then on no call changes the stream, and what each call returns is settled by the state
that the stream has come to (`Over.run_append`).
-/

namespace VersionedKeys.Streaming

section Run

variable {State Call Reply : Type} (serve : State → Call → State × Reply)

/-- What a stream has become after some calls, and what they have returned. -/
def run (state : State) : List Call → State × List Reply
  | [] => (state, [])
  | call :: calls =>
      let served := serve state call
      let later := run served.1 calls
      (later.1, served.2 :: later.2)

theorem run_append (state : State) (calls later : List Call) :
    run serve state (calls ++ later) =
      ((run serve (run serve state calls).1 later).1,
        (run serve state calls).2 ++ (run serve (run serve state calls).1 later).2) := by
  induction calls generalizing state with
  | nil => rfl
  | cons call calls inductionHypothesis =>
      rw [List.cons_append, run, inductionHypothesis]
      rfl

/-- What every call keeps, a run keeps. -/
theorem run_preserves {kept : State → Prop} {calls : List Call}
    (keeps : ∀ state, kept state → ∀ call ∈ calls, kept (serve state call).1)
    {state : State} (holds : kept state) : kept (run serve state calls).1 := by
  induction calls generalizing state with
  | nil => exact holds
  | cons call calls inductionHypothesis =>
      exact inductionHypothesis
        (fun state holds call membership => keeps state holds call (.tail _ membership))
        (keeps state holds call (.head _))

theorem run_replies {accepted : Reply → Prop} (always : ∀ state call, accepted (serve state call).2)
    (state : State) (calls : List Call) : ∀ reply ∈ (run serve state calls).2, accepted reply := by
  induction calls generalizing state with
  | nil => simp [run]
  | cons call calls inductionHypothesis =>
      intro reply membership
      obtain rfl | later := List.mem_cons.mp membership
      · exact always state call
      · exact inductionHypothesis _ reply later

variable (settled : State → Call → Reply)

/-- No call changes the state, which settles what calls return. -/
def Over (state : State) : Prop :=
  ∀ call, serve state call = (state, settled state call)

variable {serve settled}

theorem Over.run_eq {state : State} (isOver : Over serve settled state) (calls : List Call) :
    run serve state calls = (state, calls.map (settled state)) := by
  induction calls with
  | nil => rfl
  | cons call calls inductionHypothesis =>
      simp only [run, isOver call, inductionHypothesis, List.map_cons]

/-- A run with a call in it that ends the stream leaves it ended. -/
theorem over_run {ends : Call → Prop}
    (ending : ∀ state call, ends call → Over serve settled (serve state call).1)
    {calls : List Call} (ended : ∃ call ∈ calls, ends call) (state : State) :
    Over serve settled (run serve state calls).1 := by
  induction calls generalizing state with
  | nil =>
      obtain ⟨call, membership, -⟩ := ended
      cases membership
  | cons first calls inductionHypothesis =>
      obtain ⟨call, membership, last⟩ := ended
      cases membership with
      | head =>
          have isOver := ending state first last
          have same : (run serve state (first :: calls)).1 = (serve state first).1 :=
            congrArg Prod.fst (isOver.run_eq calls)
          rwa [same]
      | tail _ membership => exact inductionHypothesis ⟨call, membership, last⟩ _

theorem Over.run_append {state : State} {calls : List Call}
    (isOver : Over serve settled (run serve state calls).1) (later : List Call) :
    run serve state (calls ++ later) =
      ((run serve state calls).1,
        (run serve state calls).2 ++ later.map (settled (run serve state calls).1)) := by
  rw [Streaming.run_append, isOver.run_eq]

end Run

/-- What is asked of a stream. -/
inductive Call where
  | write (input : Bytes)
  | finish

/-- What a call returns once the stream has ended. -/
def Call.settled : Call → Except Error Bytes
  | write _ => .error .streamFinished
  | finish => .ok []

namespace Encryptor

def serve : Encryptor × Random → Call → (Encryptor × Random) × Except Error Bytes
  | (stream, random), .write input =>
      let (stream, outcome) := stream.write input
      ((stream, random), outcome)
  | (stream, random), .finish =>
      let ((stream, outcome), random) := stream.finish random
      ((stream, random), outcome)

def finished : Encryptor → Bool
  | cbc stream => stream.finished
  | gcm stream => stream.finished
  | oaep stream => stream.finished

theorem finished_finish (stream : Encryptor) (random : Random) :
    (stream.finish random).1.1.finished = true := by
  cases stream with
  | cbc stream =>
      cases done : stream.finished <;> simp [finish, CbcEncryptor.finish, finished, done]
  | gcm stream =>
      cases done : stream.finished <;> simp [finish, GcmEncryptor.finish, finished, done]
  | oaep stream =>
      cases done : stream.finished <;> simp [finish, OaepEncryptor.finish, finished, done]

theorem over_of_finished {stream : Encryptor} (done : stream.finished = true) (random : Random) :
    Over serve (fun _ => Call.settled) (stream, random) := by
  intro call
  cases stream with
  | cbc stream =>
      cases call <;> simp_all [serve, write, finish, finished, CbcEncryptor.write,
        CbcEncryptor.finish, Call.settled]
  | gcm stream =>
      cases call <;> simp_all [serve, write, finish, finished, GcmEncryptor.write,
        GcmEncryptor.finish, Call.settled]
  | oaep stream =>
      cases call <;> simp_all [serve, write, finish, finished, OaepEncryptor.write,
        OaepEncryptor.finish, Call.settled]

theorem ending (state : Encryptor × Random) (call : Call) (last : call = .finish) :
    Over serve (fun _ => Call.settled) (serve state call).1 := by
  subst last
  exact over_of_finished (state.1.finished_finish state.2) _

end Encryptor

namespace Decryptor

def serve : Decryptor → Call → Decryptor × Except Error Bytes
  | stream, .write input => stream.write input
  | stream, .finish => stream.finish

def finished : Decryptor → Bool
  | cbc stream => stream.finished
  | gcm stream => stream.finished
  | oaep stream => stream.finished

theorem finished_finish (stream : Decryptor) : stream.finish.1.finished = true := by
  cases stream with
  | cbc stream =>
      cases done : stream.finished <;> simp [finish, CbcDecryptor.finish, finished, done]
  | gcm stream =>
      cases done : stream.finished <;> simp [finish, GcmDecryptor.finish, finished, done]
  | oaep stream =>
      cases done : stream.finished <;> simp [finish, OaepDecryptor.finish, finished, done]

theorem over_of_finished {stream : Decryptor} (done : stream.finished = true) :
    Over serve (fun _ => Call.settled) stream := by
  intro call
  cases stream with
  | cbc stream =>
      cases call <;> simp_all [serve, write, finish, finished, CbcDecryptor.write,
        CbcDecryptor.finish, Call.settled]
  | gcm stream =>
      cases call <;> simp_all [serve, write, finish, finished, GcmDecryptor.write,
        GcmDecryptor.finish, Call.settled]
  | oaep stream =>
      cases call <;> simp_all [serve, write, finish, finished, OaepDecryptor.write,
        OaepDecryptor.finish, Call.settled]

theorem ending (stream : Decryptor) (call : Call) (last : call = .finish) :
    Over serve (fun _ => Call.settled) (serve stream call).1 := by
  subst last
  exact over_of_finished stream.finished_finish

end Decryptor

/-- What is asked of a tag stream. -/
inductive TagCall where
  | call (call : Call)
  | verify (candidate : Bytes)

/-- A verification finishes a stream as well. -/
inductive TagCall.Ends : TagCall → Prop where
  | finish : Ends (.call .finish)
  | verify (candidate : Bytes) : Ends (.verify candidate)

/-- What a tag stream returns. -/
inductive TagReply where
  | output (outcome : Except Error Bytes)
  | verdict (outcome : Except Error Bool)

/-- What a reply has put out. -/
def TagReply.bytes : TagReply → Bytes
  | output (.ok bytes) => bytes
  | _ => []

/-- The end of a stream gives it a signature, or leaves it the one it has, and changes nothing
else. -/
theorem SignatureStream.exists_finish (stream : SignatureStream) :
    ∃ signature, stream.finish.1 = { stream with finished := true, signature } := by
  obtain ⟨signer?, verifier, absorbed, finished, signature⟩ := stream
  cases finished with
  | true => exact ⟨signature, rfl⟩
  | false =>
      cases signer? with
      | none => exact ⟨signature, rfl⟩
      | some key =>
          cases signed : key.sign (Digest.sha1.finish absorbed) with
          | error error => exact ⟨signature, by simp [finish, signed]⟩
          | ok made => exact ⟨made, by simp [finish, signed]⟩

theorem SignatureStream.finished_finish (stream : SignatureStream) :
    stream.finish.1.finished = true := by
  obtain ⟨signature, ended⟩ := stream.exists_finish
  rw [ended]

theorem SignatureStream.verifier_finish (stream : SignatureStream) :
    stream.finish.1.verifier = stream.verifier := by
  obtain ⟨signature, ended⟩ := stream.exists_finish
  rw [ended]

namespace TagStream

/-- A tag stream puts nothing out. -/
def serve : TagStream → TagCall → TagStream × TagReply
  | stream, .call (.write input) =>
      let (stream, outcome) := stream.write input
      (stream, .output (outcome.map fun () => []))
  | stream, .call .finish =>
      let (stream, outcome) := stream.finish
      (stream, .output (outcome.map fun () => []))
  | stream, .verify candidate =>
      let (stream, outcome) := stream.verify candidate
      (stream, .verdict outcome)

/-- What a stream that has ended says of candidates. -/
def accepts : TagStream → (candidate : Bytes) → Bool
  | hmac stream, candidate => (stream.verify candidate).2
  | decoy _, _ => false
  | signature stream, candidate =>
      stream.verifier.verify (Digest.sha1.finish stream.absorbed) candidate

/-- What a call returns once a stream has ended. -/
def settled (stream : TagStream) : TagCall → TagReply
  | .call call => .output call.settled
  | .verify candidate => .verdict (.ok (stream.accepts candidate))

def finished : TagStream → Bool
  | hmac (.finished _) | decoy (.finished _) => true
  | hmac (.running _) | decoy (.running _) => false
  | signature stream => stream.finished

theorem over_of_finished {stream : TagStream} (done : stream.finished = true) :
    Over serve settled stream := by
  intro call
  cases stream with
  | hmac stream =>
      cases stream with
      | running mac => cases done
      | finished tag => rcases call with (input | _) | candidate <;> rfl
  | decoy stream =>
      cases stream with
      | running mac => cases done
      | finished tag => rcases call with (input | _) | candidate <;> rfl
  | signature stream =>
      obtain ⟨signer?, verifier, absorbed, finished, signature⟩ := stream
      cases done
      rcases call with (input | _) | candidate <;> rfl

theorem finished_of_ends (stream : TagStream) {call : TagCall} (last : call.Ends) :
    (serve stream call).1.finished = true := by
  cases stream with
  | hmac stream => cases stream <;> cases last <;> rfl
  | decoy stream => cases stream <;> cases last <;> rfl
  | signature stream => cases last <;> exact SignatureStream.finished_finish stream

theorem ending (stream : TagStream) (call : TagCall) (last : call.Ends) :
    Over serve settled (serve stream call).1 :=
  over_of_finished (stream.finished_of_ends last)

/-- Whatever ends a stream leaves it as finishing it does. -/
theorem serve_of_ends (stream : TagStream) {call : TagCall} (last : call.Ends) :
    (serve stream call).1 = stream.finish.1 := by
  cases stream <;> cases last <;> rfl

/-- A stream that has been written to and ended stays what it is at its end. -/
theorem Unfinished.run_ended {stream : TagStream} (unfinished : stream.Unfinished)
    (pieces : List Bytes) {last : TagCall} (ends : last.Ends) (later : List TagCall) :
    (run serve stream (pieces.map (fun piece => .call (.write piece)) ++ last :: later)).1 =
      (stream.close pieces).1 := by
  induction pieces generalizing stream with
  | nil =>
      rw [List.map_nil, List.nil_append, run, (ending stream last ends).run_eq,
        stream.serve_of_ends ends, close]
  | cons piece pieces inductionHypothesis =>
      obtain ⟨next, written, still, -⟩ := unfinished.exists_write piece
      have served : (serve stream (.call (.write piece))).1 = next := congrArg Prod.fst written
      rw [List.map_cons, List.cons_append, run, close, written, served]
      exact inductionHypothesis still

theorem tagLength_serve (stream : TagStream) (call : TagCall) :
    (serve stream call).1.tagLength = stream.tagLength := by
  cases stream with
  | hmac stream => rcases call with (input | _) | candidate <;> rfl
  | decoy stream => rcases call with (input | _) | candidate <;> rfl
  | signature stream =>
      rcases call with (input | _) | candidate
      · cases done : stream.finished <;>
          simp [serve, write, SignatureStream.write, tagLength, done]
      · exact congrArg VerifyingKey.tagLength stream.verifier_finish
      · exact congrArg VerifyingKey.tagLength stream.verifier_finish

theorem tagLength_run (stream : TagStream) (calls : List TagCall) :
    (run serve stream calls).1.tagLength = stream.tagLength := by
  have keeps : ∀ state : TagStream, state.tagLength = stream.tagLength → ∀ call ∈ calls,
      (serve state call).1.tagLength = stream.tagLength := by
    intro state same call membership
    exact (state.tagLength_serve call).trans same
  exact run_preserves serve keeps rfl

/-- A verification that does not fail says what every later one says. -/
theorem verify_eq_accepts (stream : TagStream) {candidate : Bytes} {answer : Bool}
    (answered : (stream.verify candidate).2 = .ok answer) :
    answer = (stream.verify candidate).1.accepts candidate := by
  cases stream with
  | hmac stream => cases stream <;> exact (Except.ok.inj answered).symm
  | decoy stream => exact (Except.ok.inj answered).symm
  | signature stream =>
      obtain ⟨finished, -, said⟩ := Outcome.map_eq_ok.mp answered
      exact said.symm

theorem bytes_serve (stream : TagStream) (call : TagCall) : (serve stream call).2.bytes = [] := by
  rcases call with (input | _) | candidate
  · cases outcome : (stream.write input).2 <;> simp [serve, outcome, TagReply.bytes]
  · cases outcome : stream.finish.2 <;> simp [serve, outcome, TagReply.bytes]
  · rfl

/-- Only what ends a stream makes its tag. -/
theorem tag_write (stream : TagStream) (input : Bytes) :
    (stream.write input).1.tag = stream.tag := by
  cases stream with
  | hmac stream => cases stream <;> rfl
  | decoy stream => rfl
  | signature stream =>
      cases done : stream.finished <;> simp [write, SignatureStream.write, tag, done]

theorem Started.tag_eq {stream : TagStream} (started : stream.Started) : stream.tag = [] := by
  cases started <;> rfl

theorem tag_run_of_unended {stream : TagStream} {calls : List TagCall}
    (unended : ∀ call ∈ calls, ¬ call.Ends) : (run serve stream calls).1.tag = stream.tag := by
  have keeps : ∀ state : TagStream, state.tag = stream.tag → ∀ call ∈ calls,
      (serve state call).1.tag = stream.tag := by
    intro state same call membership
    rcases call with (input | _) | candidate
    · exact (state.tag_write input).trans same
    · exact absurd .finish (unended _ membership)
    · exact absurd (.verify candidate) (unended _ membership)
  exact run_preserves serve keeps rfl

/-- Streams that never make a tag. -/
inductive Silent : TagStream → Prop where
  | decoy (stream : HmacStream) : Silent (.decoy stream)
  | verifying (key : VerifyingKey) (absorbed : Digest.Absorbed Digest.Sha1State)
      (finished : Bool) : Silent (.signature ⟨none, key, absorbed, finished, []⟩)

theorem Silent.tag_eq {stream : TagStream} (silent : stream.Silent) : stream.tag = [] := by
  cases silent <;> rfl

theorem Silent.serve {stream : TagStream} (silent : stream.Silent) (call : TagCall) :
    (TagStream.serve stream call).1.Silent := by
  cases silent with
  | decoy stream => rcases call with (input | _) | candidate <;> exact .decoy _
  | verifying key absorbed finished =>
      cases finished <;> rcases call with (input | _) | candidate <;> exact .verifying ..

theorem Silent.tag_run {stream : TagStream} (silent : stream.Silent) (calls : List TagCall) :
    (run TagStream.serve stream calls).1.tag = [] :=
  (run_preserves TagStream.serve (fun _ still call _ => still.serve call) silent).tag_eq

end TagStream

/-- Every stream ends once.  After the first call that finishes it, or verifies with it, whatever
that call returns, no call changes it: a write is refused, another finish puts nothing out, and a
verification answers by the candidate alone, as the first one did unless it failed.  Tag streams
put nothing out at all.  They have no tag before they end, and decoys and streams that only verify
signatures never have one. -/
theorem ends_once :
    (∀ stream random calls later, .finish ∈ calls →
      run Encryptor.serve (stream, random) (calls ++ later) =
        ((run Encryptor.serve (stream, random) calls).1,
          (run Encryptor.serve (stream, random) calls).2 ++ later.map Call.settled)) ∧
    (∀ stream calls later, .finish ∈ calls →
      run Decryptor.serve stream (calls ++ later) =
        ((run Decryptor.serve stream calls).1,
          (run Decryptor.serve stream calls).2 ++ later.map Call.settled)) ∧
    (∀ stream calls later, (∃ call ∈ calls, TagCall.Ends call) →
      run TagStream.serve stream (calls ++ later) =
        ((run TagStream.serve stream calls).1,
          (run TagStream.serve stream calls).2 ++
            later.map (run TagStream.serve stream calls).1.settled)) ∧
    (∀ stream candidate answer, (TagStream.verify stream candidate).2 = .ok answer →
      answer = (stream.verify candidate).1.accepts candidate) ∧
    (∀ stream calls, ∀ reply ∈ (run TagStream.serve stream calls).2, reply.bytes = []) ∧
    (∀ stream calls, TagStream.Started stream → (∀ call ∈ calls, ¬ TagCall.Ends call) →
      (run TagStream.serve stream calls).1.tag = []) ∧
    (∀ calls, (run TagStream.serve .startDecoy calls).1.tag = []) ∧
    ∀ key calls, (run TagStream.serve (.signature (.verifying key)) calls).1.tag = [] := by
  refine ⟨?_, ?_, ?_, ?_, ?_, ?_, ?_, ?_⟩
  · intro stream random calls later finished
    exact (over_run Encryptor.ending ⟨_, finished, rfl⟩ _).run_append later
  · intro stream calls later finished
    exact (over_run Decryptor.ending ⟨_, finished, rfl⟩ _).run_append later
  · intro stream calls later ended
    exact (over_run TagStream.ending ended _).run_append later
  · intro stream candidate answer answered
    exact stream.verify_eq_accepts answered
  · intro stream calls
    exact run_replies TagStream.serve TagStream.bytes_serve stream calls
  · intro stream calls started unended
    rw [TagStream.tag_run_of_unended unended, started.tag_eq]
  · intro calls
    exact (TagStream.Silent.decoy _).tag_run calls
  · intro key calls
    exact (TagStream.Silent.verifying key _ false).tag_run calls

/-- Calls after a decryption that failed, after a verification and after an encryption. -/
theorem ends_once_sample :
    (run Decryptor.serve (.cbc ⟨[], .collecting [], false⟩)
        ([.write [1], .finish] ++ [.write [2], .finish])).2 =
      [.ok [], .error .invalidCryptoData, .error .streamFinished, .ok []] ∧
    (run TagStream.serve .startDecoy
        ([.call (.write [1]), .verify [2]] ++ [.call (.write [3]), .call .finish, .verify [2]])).2 =
      [.output (.ok []), .verdict (.ok false), .output (.error .streamFinished), .output (.ok []),
        .verdict (.ok false)] ∧
    (run Encryptor.serve (.oaep (.start ⟨15, 3, by decide⟩), {})
        ([.finish] ++ [.write [1], .finish])).2 =
      [.error .invalidCryptoData, .error .streamFinished, .ok []] := by
  obtain ⟨encrypting, decrypting, tagging, -⟩ := ends_once
  refine ⟨?_, ?_, ?_⟩
  · rw [decrypting _ _ _ (by simp)]
    rfl
  · rw [tagging _ _ _ ⟨_, .tail _ (.head _), .verify [2]⟩]
    rfl
  · rw [encrypting _ _ _ _ (by simp)]
    rfl

end VersionedKeys.Streaming
