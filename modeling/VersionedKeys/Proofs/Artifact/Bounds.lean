import VersionedKeys.Proofs.Artifact.Seamless
import VersionedKeys.Proofs.Streaming.Bounds

/-!
# Openers within their bounds

An opener holds back the last bytes that it has received, as many as there are in a tag, or all of
them if they are fewer.  So what it takes off the front of the bytes it has is never more than there
is, whatever comes, and the same is true of the header of an artifact: `stays_in_bounds`.
-/

namespace VersionedKeys.Artifact

open Streaming

/-- Read a header, and check where it ends. -/
def checkedParse (artifact : Bytes) : Option (Except Error (KeyHash × Bytes)) :=
  if artifact.length < headerSize then some (.error .invalidCryptoData)
  else do
    let version ← artifact[0]?
    if version = formatVersion then
      let (header, body) ← Bytes.split? artifact headerSize
      let (_, hash) ← Bytes.split? header 1
      some ((KeyHash.ofBytes hash).map fun hash => (hash, body))
    else some (.error .invalidCryptoData)

theorem checkedParse_eq (artifact : Bytes) : checkedParse artifact = some (parse artifact) := by
  match artifact with
  | [] | [_] | [_, _] | [_, _, _] | [_, _, _, _] => rfl
  | version :: a :: b :: c :: d :: body =>
      have long : ¬ (version :: a :: b :: c :: d :: body).length < headerSize := by
        simp only [List.length_cons, headerSize]
        omega
      have cut : Bytes.split? (version :: a :: b :: c :: d :: body) headerSize =
          some ([version, a, b, c, d], body) := Bytes.split?_append [version, a, b, c, d] body
      rw [checkedParse, if_neg long, parse]
      by_cases current : version = formatVersion
      · rw [if_pos current, List.getElem?_cons_zero, Option.bind_eq_bind, Option.bind_some,
          if_pos current]
        rw [cut]
        rfl
      · rw [if_neg current, List.getElem?_cons_zero, Option.bind_eq_bind, Option.bind_some,
          if_neg current]

namespace Opener

/-- Give some bytes to the tag stream and the decryptor, and hold others back.  An opener that fails
is what it has become so far. -/
def checkedPass (opener : Opener) (body held : Bytes) : Option (Opener × Except Error Unit) :=
  match feed opener.mac body with
  | .error error => some ({ opener with held }, .error error)
  | .ok mac =>
      match opener.decryptor with
      | none => some ({ opener with held, mac }, .ok ())
      | some decryptor => do
          let (decryptor, outcome) ← decryptor.checkedWrite body
          match outcome with
          | .error error =>
              some (⟨some decryptor, mac, opener.tagLength, held, opener.message⟩, .error error)
          | .ok output =>
              some (⟨some decryptor, mac, opener.tagLength, held, opener.message ++ output⟩,
                .ok ())

/-- Take in bytes, and check how many of those that are there cannot be part of the tag. -/
def checkedWrite (opener : Opener) (bytes : Bytes) : Option (Opener × Except Error Unit) :=
  let held := opener.held ++ bytes
  if held.length ≤ opener.tagLength then some ({ opener with held }, .ok ())
  else do
    let (body, held) ← Bytes.split? held (← Nat.psub held.length opener.tagLength)
    opener.checkedPass body held

/-- The rest of the message, if the last block is in order. -/
def checkedRest : Option Decryptor → Option (Option Bytes)
  | none => some none
  | some decryptor => decryptor.checkedFinish.map fun (_, outcome) => outcome.toOption

/-- Whether the bytes held back are the tag, which is compared with their front. -/
def checkedVerify (opener : Opener) : Option (Except Error Bool) :=
  match opener.mac with
  | none => some (.ok true)
  | some mac => (mac.checkedVerify opener.held).map fun (_, verdict) =>
      verdict.map (· && opener.held.length == opener.tagLength)

def checkedFinish (opener : Opener) : Option (Except Error Bytes) := do
  let rest ← checkedRest opener.decryptor
  let valid ← opener.checkedVerify
  some (valid.bind fun valid =>
    match rest, valid with
    | some rest, true => .ok (opener.message ++ rest)
    | _, _ => .error .invalidCryptoData)

theorem checkedRest_eq (decryptor? : Option Decryptor) :
    checkedRest decryptor? = some (rest? decryptor?) := by
  cases decryptor? with
  | none => rfl
  | some decryptor =>
      rw [checkedRest, decryptor.checkedFinish_eq, rest?, Option.map_some]
      obtain ⟨next, outcome⟩ := decryptor.finish
      cases outcome <;> rfl

theorem checkedVerify_eq (opener : Opener) : opener.checkedVerify = some opener.verify := by
  rw [checkedVerify, verify]
  cases opener.mac with
  | none => rfl
  | some mac => simp only [mac.checkedVerify_eq, Option.map_some]

theorem checkedFinish_eq (opener : Opener) : opener.checkedFinish = some opener.finish := by
  rw [checkedFinish, checkedRest_eq, checkedVerify_eq]
  rfl

/-- The decryptor, if there is one, is within its bounds. -/
def Sound (opener : Opener) : Prop :=
  ∀ decryptor : Decryptor, opener.decryptor = some decryptor → decryptor.Bounded

/-- Whatever comes of the bytes that are passed on, the others are held. -/
theorem Sound.exists_checkedPass {opener : Opener} (sound : opener.Sound) (body held : Bytes) :
    ∃ next outcome, opener.checkedPass body held = some (next, outcome) ∧
      (feed opener.mac body >>= fun mac =>
        decrypt opener.decryptor body >>= fun (decryptor, output) =>
          .ok ⟨decryptor, mac, opener.tagLength, held, opener.message ++ output⟩) =
        outcome.map (fun () => next) ∧
      next.tagLength = opener.tagLength ∧ next.held = held ∧ next.Sound := by
  rw [checkedPass]
  cases feed opener.mac body with
  | error error => exact ⟨_, _, rfl, rfl, rfl, rfl, sound⟩
  | ok mac =>
      obtain ⟨decryptor?, before, tagLength, old, message⟩ := opener
      cases decryptor? with
      | none =>
          refine ⟨_, .ok (), rfl, ?_, rfl, rfl, sound⟩
          simp only [decrypt, Outcome.ok_bind, Outcome.map_ok, List.append_nil]
      | some decryptor =>
          have within : decryptor.Bounded := sound decryptor rfl
          have still := within.write body
          simp only [Decryptor.checkedWrite_eq within, decrypt]
          generalize decryptor.write body = written at still ⊢
          obtain ⟨next, outcome⟩ := written
          have onlyNext : ∀ other : Decryptor, some next = some other → other.Bounded := by
            rintro other ⟨⟩
            exact still
          cases outcome with
          | error error => exact ⟨_, _, rfl, rfl, rfl, rfl, onlyNext⟩
          | ok output => exact ⟨_, _, rfl, rfl, rfl, rfl, onlyNext⟩

/-- An opener that has received some bytes: what it holds back is their end. -/
structure Bounded (tagLength : Nat) (received : Bytes) (opener : Opener) : Prop where
  tagLength_eq : opener.tagLength = tagLength
  suffix_received : opener.held <:+ received
  length_held : opener.held.length = min tagLength received.length
  sound : opener.Sound

/-- No check of a write fails, and whatever comes of it, the opener stays within its bounds. -/
theorem Bounded.exists_checkedWrite {tagLength : Nat} {received : Bytes} {opener : Opener}
    (bounded : opener.Bounded tagLength received) (bytes : Bytes) :
    ∃ next outcome, opener.checkedWrite bytes = some (next, outcome) ∧
      opener.write bytes = outcome.map (fun () => next) ∧
      next.Bounded tagLength (received ++ bytes) := by
  obtain ⟨front, whole⟩ := bounded.suffix_received
  have received_eq : received ++ bytes = front ++ (opener.held ++ bytes) := by
    rw [← whole, List.append_assoc]
  have length := bounded.length_held
  have tagLength_eq := bounded.tagLength_eq
  by_cases short : (opener.held ++ bytes).length ≤ opener.tagLength
  · refine ⟨_, .ok (), if_pos short, write_short short, tagLength_eq, ?_, ?_, bounded.sound⟩
    · rw [received_eq]
      exact List.suffix_append _ _
    · simp only [List.length_append] at short ⊢
      omega
  · -- More has come than there is in a tag, and exactly a tag of it stays.
    obtain ⟨body, last, parts, lastLength, some⟩ := exists_held (Nat.lt_of_not_le short)
    have position : Nat.psub (body ++ last).length opener.tagLength = Option.some body.length := by
      rw [Nat.psub_eq_some, List.length_append, lastLength]
    obtain ⟨next, outcome, passed, written, sameLength, held, sound⟩ :=
      bounded.sound.exists_checkedPass body last
    refine ⟨next, outcome, ?_, ?_, sameLength.trans tagLength_eq, ?_, ?_, sound⟩
    · simp only [checkedWrite, parts, position, Bytes.split?_append, Option.bind_eq_bind,
        Option.bind_some]
      rw [if_neg (parts ▸ short), passed]
    · rw [write_long parts lastLength some, written]
    · rw [held, received_eq, parts, ← List.append_assoc]
      exact List.suffix_append _ _
    · rw [held]
      simp only [List.length_append] at short ⊢
      omega

end Opener

/-- The openers that the streams of a key, or of the decoy, can come to with some bytes received,
those that have failed included. -/
inductive Reached (streams : Decryption) (head : Bytes) : (received : Bytes) → Opener → Prop where
  | start {opener : Opener} (started : Opener.start streams head = .ok opener) :
      Reached streams head [] opener
  | write {received bytes : Bytes} {opener next : Opener} {outcome : Except Error Unit}
      (reached : Reached streams head received opener)
      (written : opener.checkedWrite bytes = some (next, outcome)) :
      Reached streams head (received ++ bytes) next

/-- Each write keeps an opener within its bounds, so all openers are. -/
theorem Reached.bounded {header head received : Bytes} {streams : Decryption} {opener : Opener}
    (provided : Provided header streams) (reached : Reached streams head received opener) :
    opener.Bounded streams.tagLength received := by
  induction reached with
  | start started =>
      obtain ⟨mac, -, begun⟩ := Outcome.bind_eq_ok.mp started
      cases begun
      exact ⟨rfl, List.suffix_rfl, (Nat.min_zero _).symm,
        fun decryptor present => (provided.ready.2 decryptor present).bounded⟩
  | write reached written inductionHypothesis =>
      obtain ⟨next, outcome, result, -, bounded⟩ := inductionHypothesis.exists_checkedWrite _
      rw [written] at result
      cases result
      exact bounded

/-- Buffers stay within their bounds, and no check of a difference, a cut or a byte ever fails.
Whatever is asked of an encryptor, its vector is no longer than a block and what it keeps is
shorter, and a decryptor with any key holds a block at most.  With a proper key all writes to a
decryptor succeed, and what it has received is accounted for.  An opener, in every state it can
come to, holds the last bytes received, as many as there are in a tag or as have come.  Then the
checked operations have results, and these are the results of the operations themselves.  It is the
same with a tag that is compared and a header that is read. -/
theorem stays_in_bounds :
    (∀ key iv? ciphertextOnly random stream after,
      CbcEncryptor.start key iv? ciphertextOnly random = (.ok stream, after) →
      ∀ calls, let state := (run CbcEncryptor.serve stream calls).1
        state.lead.length ≤ 16 ∧ state.pending.length < 16 ∧
        (∀ input, state.checkedWrite input = some (state.write input)) ∧
        state.checkedFinish = some state.finish) ∧
    (∀ key iv? stream, CbcDecryptor.start key iv? = .ok stream →
      ∀ calls, let state := (run CbcDecryptor.serve stream calls).1
        state.stage.held.length ≤ 16 ∧
        (∀ input, state.checkedWrite input = some (state.write input)) ∧
        state.checkedFinish = some state.finish) ∧
    (∀ (key : Bytes) iv? stream, (key.length = 16 ∨ key.length = 24 ∨ key.length = 32) →
      CbcDecryptor.start key iv? = .ok stream →
      ∀ inputs : List Bytes, ∃ (state : CbcDecryptor) (outputs : List Bytes),
        run CbcDecryptor.serve stream (inputs.map .write) = (state, outputs.map .ok) ∧
        CbcDecryptor.Balanced (if iv?.isSome then 0 else 16) inputs.flatten outputs.flatten
          state.stage) ∧
    (∀ header streams, Provided header streams → ∀ head received opener,
      Reached streams head received opener →
        opener.held <:+ received ∧
        opener.held.length = min streams.tagLength received.length ∧
        (∀ bytes, ∃ next outcome, opener.checkedWrite bytes = some (next, outcome) ∧
          opener.write bytes = outcome.map fun () => next) ∧
        opener.checkedFinish = some opener.finish) ∧
    (∀ (stream : HmacStream) candidate,
      stream.checkedVerify candidate = some (stream.verify candidate)) ∧
    ∀ artifact, checkedParse artifact = some (parse artifact) := by
  refine ⟨?_, ?_, ?_, ?_, HmacStream.checkedVerify_eq, checkedParse_eq⟩
  · intro key iv? ciphertextOnly random stream after started calls state
    have bounded : state.Bounded :=
      run_preserves CbcEncryptor.serve (fun _ bounded call _ => bounded.serve call)
        (CbcEncryptor.bounded_of_start started)
    exact ⟨bounded.length_lead, bounded.length_pending, state.checkedWrite_eq,
      state.checkedFinish_eq⟩
  · intro key iv? stream started calls state
    have ready : stream.Ready := Decryptor.Started.ready (.cbc started)
    have bounded : state.Bounded :=
      run_preserves CbcDecryptor.serve (fun _ bounded call _ => bounded.serve call) ready.bounded
    exact ⟨bounded, CbcDecryptor.checkedWrite_eq bounded, state.checkedFinish_eq⟩
  · intro key iv? stream proper started inputs
    obtain ⟨rfl, running, balanced⟩ := CbcDecryptor.balanced_of_start started
    obtain ⟨state, outputs, result, accounted⟩ := balanced.run_writes proper running inputs
    exact ⟨state, outputs, result, accounted⟩
  · intro header streams provided head received opener reached
    have bounded := reached.bounded provided
    refine ⟨bounded.suffix_received, bounded.length_held, ?_, opener.checkedFinish_eq⟩
    intro bytes
    obtain ⟨next, outcome, checked, written, -⟩ := bounded.exists_checkedWrite bytes
    exact ⟨next, outcome, checked, written⟩

/-- A decryptor that gets ten bytes and then seven has one byte behind its vector, which it holds.
The decoy holds back twenty bytes of twenty-five, and four bytes are no header. -/
theorem stays_in_bounds_sample :
    (∃ state outputs,
      run CbcDecryptor.serve ⟨List.replicate 16 7, .collecting [], false⟩
        [.write (List.replicate 10 1), .write (List.replicate 7 2)] = (state, outputs) ∧
      state.stage.held.length = 1) ∧
    (∃ opener, Reached .decoy [0] (List.replicate 25 1) opener ∧ opener.held.length = 20) ∧
    checkedParse [0, 1, 2, 3] = some (.error .invalidCryptoData) := by
  obtain ⟨-, -, accounts, openers, -, headers⟩ := stays_in_bounds
  refine ⟨?_, ?_, headers _⟩
  · have started : CbcDecryptor.start (List.replicate 16 7) none =
        .ok ⟨List.replicate 16 7, .collecting [], false⟩ := rfl
    obtain ⟨state, outputs, result, accounted⟩ := accounts _ none _ (.inl rfl) started
      [List.replicate 10 1, List.replicate 7 2]
    have received : [List.replicate 10 (1 : UInt8), List.replicate 7 2].flatten.length = 17 := rfl
    obtain ⟨length, whole, some⟩ := accounted.length_eq (by rw [received]; decide)
    rw [received] at length some
    rw [show Block.size = 16 from rfl] at whole
    simp only [Option.isSome_none, Bool.false_eq_true, if_false] at length some
    exact ⟨state, _, result, by omega⟩
  · obtain ⟨opener, started⟩ : ∃ opener, Opener.start .decoy [0] = .ok opener := ⟨_, rfl⟩
    have reached := Reached.start started
    obtain ⟨next, outcome, written, -⟩ := (openers [] .decoy .decoy [0] _ opener reached).2.2.1
      (List.replicate 25 1)
    have later := Reached.write reached written
    exact ⟨next, later, (openers [] .decoy .decoy [0] _ next later).2.1⟩

end VersionedKeys.Artifact
