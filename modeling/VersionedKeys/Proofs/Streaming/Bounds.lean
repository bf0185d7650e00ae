import Mathlib.Data.Nat.PSub
import VersionedKeys.Proofs.Streaming.Ending

/-!
# Streams within their bounds

A stream takes differences of lengths, cuts buffers and looks at single bytes.  Here its steps are
written out with a check at each of these: there is no result if a number would fall below zero, a
buffer be cut behind its end or a byte be missing.  The checks never fail, because a stream holds at
most a block in every state that it can come to (`CbcDecryptor.checkedWrite_eq`,
`CbcDecryptor.checkedFinish_eq`), and what a decryptor with a proper key has put out and what it
holds add up to what it has received: `CbcDecryptor.Balanced.run_writes`.
-/

namespace VersionedKeys

namespace Bytes

/-- Cut a buffer at a position that it has. -/
def split? (buffer : Bytes) (count : Nat) : Option (Bytes × Bytes) :=
  if count ≤ buffer.length then some (buffer.take count, buffer.drop count) else none

theorem split?_eq {buffer : Bytes} {count : Nat} (within : count ≤ buffer.length) :
    split? buffer count = some (buffer.take count, buffer.drop count) := if_pos within

theorem split?_append (front back : Bytes) :
    split? (front ++ back) front.length = some (front, back) := by
  have within : front.length ≤ (front ++ back).length := by
    rw [List.length_append]
    exact Nat.le_add_right _ _
  rw [split?_eq within, List.take_left, List.drop_left]

/-- A cut behind the end is one at the end. -/
theorem split?_min (buffer : Bytes) (count : Nat) :
    split? buffer (min count buffer.length) = some (buffer.take count, buffer.drop count) := by
  rw [split?_eq (Nat.min_le_right _ _)]
  rcases Nat.le_total count buffer.length with within | behind
  · rw [Nat.min_eq_left within]
  · rw [Nat.min_eq_right behind, List.take_length, List.drop_length,
      List.take_of_length_le behind, List.drop_of_length_le behind]

/-- All differences to a byte are collected, and there are none if all bytes are this one. -/
theorem foldl_difference_eq_zero_iff (buffer : Bytes) (other found : UInt8) :
    buffer.foldl (fun found byte => found ||| (byte ^^^ other)) found = 0 ↔
      found = 0 ∧ buffer.all (· == other) = true := by
  induction buffer generalizing found with
  | nil => simp
  | cons byte buffer inductionHypothesis =>
      rw [List.foldl_cons, inductionHypothesis, UInt8.or_eq_zero_iff, UInt8.xor_eq_zero_iff,
        List.all_cons, Bool.and_eq_true, beq_iff_eq, and_assoc]

end Bytes

namespace Aes.Cbc

/-- Encrypt the blocks of a buffer where they stand.  What does not fill a block stays as it is. -/
def encryptBuffer (schedule : Schedule) (chain : Block) (buffer : Bytes) : Block × Bytes :=
  let (blocks, rest) := Block.splitAll buffer
  let cipher := encryptBlocks schedule chain blocks
  (cipher.getLastD chain, Block.join cipher ++ rest)

def decryptBuffer (schedule : Schedule) (chain : Block) (buffer : Bytes) : Block × Bytes :=
  let (blocks, rest) := Block.splitAll buffer
  (blocks.getLastD chain, Block.join (decryptBlocks schedule chain blocks) ++ rest)

theorem encryptBuffer_join (schedule : Schedule) (chain : Block) (blocks : List Block) :
    encryptBuffer schedule chain (Block.join blocks) =
      ((encryptBlocks schedule chain blocks).getLastD chain,
        Block.join (encryptBlocks schedule chain blocks)) := by
  rw [encryptBuffer, Block.splitAll_join]
  exact congrArg (Prod.mk _) (List.append_nil _)

theorem decryptBuffer_join (schedule : Schedule) (chain : Block) (blocks : List Block) :
    decryptBuffer schedule chain (Block.join blocks) =
      (blocks.getLastD chain, Block.join (decryptBlocks schedule chain blocks)) := by
  rw [decryptBuffer, Block.splitAll_join]
  exact congrArg (Prod.mk _) (List.append_nil _)

/-- What stands before the padding of a buffer, if it ends in padding.  The last byte says where to
cut. -/
def checkedUnpad (buffer : Bytes) : Option (Option Bytes) := do
  let last ← buffer[← Nat.psub Block.size 1]?
  if 1 ≤ last.toNat ∧ last.toNat ≤ Block.size then
    let (kept, padding) ← Bytes.split? buffer (← Nat.psub Block.size last.toNat)
    let difference := padding.foldl (fun found byte => found ||| (byte ^^^ last)) 0
    some (if difference = 0 then some kept else none)
  else some none

theorem checkedUnpad_toBytes (block : Block) : checkedUnpad block.toBytes = some (unpad? block) := by
  have index : Nat.psub Block.size 1 = some 15 := rfl
  have last : block.toBytes[15]? = some block.z.d := rfl
  rw [checkedUnpad, index, unpad?]
  simp only [Option.bind_eq_bind, Option.bind_some, last]
  by_cases proper : 1 ≤ block.z.d.toNat ∧ block.z.d.toNat ≤ Block.size
  · have position : Nat.psub Block.size block.z.d.toNat =
        some (Block.size - block.z.d.toNat) := Nat.psub_eq_some.mpr (Nat.sub_add_cancel proper.2)
    have within : Block.size - block.z.d.toNat ≤ block.toBytes.length := Nat.sub_le _ _
    rw [if_pos proper, position, Option.bind_some, Bytes.split?_eq within, Option.bind_some]
    simp only [Bytes.foldl_difference_eq_zero_iff, true_and, proper]
  · rw [if_neg proper, if_neg fun padded => proper ⟨padded.1, padded.2.1⟩]

end Aes.Cbc

namespace Streaming

open Aes

namespace CbcEncryptor

def serve : CbcEncryptor → Call → CbcEncryptor × Except Error Bytes
  | stream, .write input => stream.write input
  | stream, .finish => stream.finish

/-- Take in bytes, and check where the whole blocks end. -/
def checkedWrite (stream : CbcEncryptor) (input : Bytes) :
    Option (CbcEncryptor × Except Error Bytes) :=
  if stream.finished then some (stream, .error .streamFinished)
  else do
    let buffer := stream.pending ++ input
    let (front, rest) ← Bytes.split? buffer (← Nat.psub buffer.length (buffer.length % Block.size))
    let (chain, cipher) := Cbc.encryptBuffer stream.schedule stream.chain front
    some ({ stream with lead := [], chain, pending := rest }, .ok (stream.lead ++ cipher))

/-- Pad, and check how much there is to pad. -/
def checkedFinish (stream : CbcEncryptor) : Option (CbcEncryptor × Except Error Bytes) :=
  if stream.finished then some (stream, .ok [])
  else do
    let count ← Nat.psub Block.size (stream.pending.length % Block.size)
    let buffer := stream.pending ++ List.replicate count (UInt8.ofNat count)
    let (chain, cipher) := Cbc.encryptBuffer stream.schedule stream.chain buffer
    some ({ stream with lead := [], chain, pending := [], finished := true },
      .ok (stream.lead ++ cipher))

theorem checkedWrite_eq (stream : CbcEncryptor) (input : Bytes) :
    stream.checkedWrite input = some (stream.write input) := by
  rw [checkedWrite, write]
  by_cases finished : stream.finished = true
  · rw [if_pos finished, if_pos finished]
  · obtain ⟨blocks, rest, parts, short⟩ := Block.exists_eq_join_append (stream.pending ++ input)
    have position : Nat.psub (Block.join blocks ++ rest).length
        ((Block.join blocks ++ rest).length % Block.size) = some (Block.join blocks).length := by
      rw [Nat.psub_eq_some, List.length_append, Block.length_join, Block.size]
      omega
    rw [if_neg finished, if_neg finished]
    simp only [advance, parts, position, Bytes.split?_append, Option.bind_eq_bind,
      Option.bind_some, Cbc.encryptBuffer_join, Block.splitAll_join_append blocks short]

theorem checkedFinish_eq (stream : CbcEncryptor) : stream.checkedFinish = some stream.finish := by
  rw [checkedFinish, finish]
  by_cases finished : stream.finished = true
  · rw [if_pos finished, if_pos finished]
  · have position : Nat.psub Block.size (stream.pending.length % Block.size) =
        some (Block.size - stream.pending.length % Block.size) :=
      Nat.psub_eq_some.mpr (Nat.sub_add_cancel (Nat.mod_lt _ (by decide)).le)
    have whole : ∃ blocks, Block.splitAll (stream.pending ++ Cbc.padding stream.pending.length) =
        (blocks, []) := by
      obtain ⟨front, rest, last, -, -, -, split⟩ := Cbc.exists_padded stream.pending
      exact ⟨_, split⟩
    obtain ⟨blocks, split⟩ := whole
    rw [Cbc.padding] at split
    rw [if_neg finished, if_neg finished, position]
    simp only [advance, Cbc.padding, Cbc.encryptBuffer, split, Option.bind_eq_bind,
      Option.bind_some, List.append_nil]

/-- The vector is a block, and what does not fill a block is kept. -/
structure Bounded (stream : CbcEncryptor) : Prop where
  length_lead : stream.lead.length ≤ Block.size
  length_pending : stream.pending.length < Block.size

theorem bounded_advance (stream : CbcEncryptor) (input : Bytes) :
    (stream.advance input).1.Bounded := by
  obtain ⟨blocks, rest, parts, short⟩ := Block.exists_eq_join_append (stream.pending ++ input)
  rw [advance, parts, Block.splitAll_join_append blocks short]
  exact ⟨Nat.zero_le _, short⟩

theorem Bounded.serve {stream : CbcEncryptor} (bounded : stream.Bounded) (call : Call) :
    (CbcEncryptor.serve stream call).1.Bounded := by
  cases finished : stream.finished with
  | true => cases call <;> simpa [CbcEncryptor.serve, write, finish, finished] using bounded
  | false =>
      cases call with
      | write input =>
          simpa [CbcEncryptor.serve, write, finished] using stream.bounded_advance input
      | finish =>
          have advanced := stream.bounded_advance (Cbc.padding stream.pending.length)
          simp only [CbcEncryptor.serve, finish, finished, Bool.false_eq_true, if_false]
          exact ⟨advanced.length_lead, advanced.length_pending⟩

theorem bounded_of_start {key : Bytes} {iv? : Option Block} {ciphertextOnly : Bool}
    {random after : Random} {stream : CbcEncryptor}
    (started : start key iv? ciphertextOnly random = (.ok stream, after)) : stream.Bounded := by
  simp only [start] at started
  cases found : Key.ofBytes? key with
  | none => simp [found] at started
  | some aes =>
      rw [found] at started
      cases started
      refine ⟨?_, Nat.zero_lt_succ _⟩
      split
      · exact Nat.zero_le _
      · exact Nat.le_refl _

end CbcEncryptor

/-- The bytes that a decryptor has received and not decrypted: those of its vector until it is
complete, and later those behind the last block that was. -/
def CbcStage.held : CbcStage → Bytes
  | collecting iv => iv
  | decrypting _ _ pending => pending

namespace CbcDecryptor

def serve : CbcDecryptor → Call → CbcDecryptor × Except Error Bytes
  | stream, .write input => stream.write input
  | stream, .finish => stream.finish

/-- Decrypt all whole blocks but the last, and check where they end. -/
def checkedAdvance (schedule : Schedule) (chain : Block) (buffer : Bytes) :
    Option (CbcStage × Bytes) :=
  if Block.size < buffer.length then do
    let last ← Nat.psub buffer.length 1
    let (front, rest) ← Bytes.split? buffer (last / Block.size * Block.size)
    let (chain, plain) := Cbc.decryptBuffer schedule chain front
    some (.decrypting schedule chain rest, plain)
  else some (.decrypting schedule chain buffer, [])

/-- Take in bytes, and check how many are missing in the vector. -/
def checkedWrite (stream : CbcDecryptor) (input : Bytes) :
    Option (CbcDecryptor × Except Error Bytes) :=
  if stream.finished then some (stream, .error .streamFinished)
  else
    match stream.stage with
    | .collecting iv => do
        let missing ← Nat.psub Block.size iv.length
        let (front, rest) ← Bytes.split? input (min missing input.length)
        let iv := iv ++ front
        let stream := { stream with stage := .collecting iv }
        if iv.length < Block.size then some (stream, .ok [])
        else
          match Key.ofBytes? stream.key, Block.ofBytes? iv with
          | none, _ => some (stream, .error (.key (.aesLength stream.key.length)))
          | some _, none => some (stream, .error .invalidCryptoData)
          | some key, some vector => do
              let (stage, output) ← checkedAdvance (.ofKey key) vector rest
              some ({ stream with stage }, .ok output)
    | .decrypting schedule chain pending => do
        let (stage, output) ← checkedAdvance schedule chain (pending ++ input)
        some ({ stream with stage }, .ok output)

/-- The plain bytes of the last block, if there is one. -/
def checkedFinal : CbcStage → Option (Except Error Bytes)
  | .collecting _ => some (.error .invalidCryptoData)
  | .decrypting schedule chain pending =>
      if pending.length ≠ Block.size then some (.error .invalidCryptoData)
      else do
        let (_, plain) := Cbc.decryptBuffer schedule chain pending
        some ((← Cbc.checkedUnpad plain).elim (.error .invalidCryptoData) .ok)

def checkedFinish (stream : CbcDecryptor) : Option (CbcDecryptor × Except Error Bytes) :=
  if stream.finished then some (stream, .ok [])
  else do some ({ stream with finished := true }, ← checkedFinal stream.stage)

theorem checkedAdvance_eq (schedule : Schedule) (chain : Block) (buffer : Bytes) :
    checkedAdvance schedule chain buffer = some (advance schedule chain buffer) := by
  obtain ⟨blocks, rest, rfl, short, kept⟩ := exists_kept buffer
  rw [advance_eq _ _ _ short kept, checkedAdvance]
  have length : (Block.join blocks ++ rest).length = 16 * blocks.length + rest.length := by
    rw [List.length_append, Block.length_join]
  cases rest with
  | nil =>
      cases kept rfl
      rfl
  | cons byte rest =>
      rw [List.length_cons] at short length
      by_cases several : Block.size < (Block.join blocks ++ byte :: rest).length
      · have last : Nat.psub (Block.join blocks ++ byte :: rest).length 1 =
            some (16 * blocks.length + rest.length) := by
          rw [Nat.psub_eq_some, length]
          rfl
        have position : (16 * blocks.length + rest.length) / Block.size * Block.size =
            (Block.join blocks).length := by
          rw [Block.length_join, Block.size]
          omega
        rw [if_pos several, last]
        simp only [Option.bind_eq_bind, Option.bind_some, position, Bytes.split?_append,
          Cbc.decryptBuffer_join]
      · -- What is no longer than a block is kept as it is.
        have none : blocks = [] := by
          rw [length, Block.size] at several
          exact List.eq_nil_of_length_eq_zero (by omega)
        subst none
        rw [if_neg several]
        rfl

/-- A block at most is collected or held. -/
def Bounded (stream : CbcDecryptor) : Prop := stream.stage.held.length ≤ Block.size

theorem checkedWrite_eq {stream : CbcDecryptor} (bounded : stream.Bounded) (input : Bytes) :
    stream.checkedWrite input = some (stream.write input) := by
  obtain ⟨key, stage, finished⟩ := stream
  cases finished with
  | true => rfl
  | false =>
      cases stage with
      | collecting iv =>
          have atMost : iv.length ≤ Block.size := bounded
          have missing : Nat.psub Block.size iv.length = some (Block.size - iv.length) :=
            Nat.psub_eq_some.mpr (Nat.sub_add_cancel atMost)
          simp only [checkedWrite, write, missing, Bytes.split?_min, Bool.false_eq_true, if_false,
            Option.bind_eq_bind, Option.bind_some]
          by_cases incomplete : (iv ++ input.take (Block.size - iv.length)).length < Block.size
          · rw [if_pos incomplete, if_pos incomplete]
          · have complete : (iv ++ input.take (Block.size - iv.length)).length = Block.size := by
              rw [List.length_append, List.length_take] at incomplete ⊢
              omega
            obtain ⟨vector, collected⟩ := Block.exists_eq_toBytes complete
            rw [if_neg incomplete, if_neg incomplete, collected, Block.ofBytes?_toBytes,
              Block.ofBytes_toBytes]
            cases Key.ofBytes? key with
            | none => rfl
            | some aes => simp only [checkedAdvance_eq, Option.bind_some]
      | decrypting schedule chain pending =>
          simp only [checkedWrite, write, checkedAdvance_eq, Bool.false_eq_true, if_false,
            Option.bind_eq_bind, Option.bind_some]

theorem checkedFinal_eq (stage : CbcStage) : checkedFinal stage = some (final stage) := by
  cases stage with
  | collecting iv => rfl
  | decrypting schedule chain pending =>
      rw [checkedFinal, final]
      by_cases whole : pending.length = Block.size
      · obtain ⟨block, rfl⟩ := Block.exists_eq_toBytes whole
        have plain : Cbc.decryptBuffer schedule chain block.toBytes =
            (block, ((schedule.decrypt block).xor chain).toBytes) :=
          Cbc.decryptBuffer_join schedule chain [block]
        rw [if_neg (not_not_intro whole), Block.ofBytes?_toBytes, plain]
        simp only [Cbc.checkedUnpad_toBytes, Option.bind_eq_bind, Option.bind_some]
        cases Cbc.unpad? ((schedule.decrypt block).xor chain) <;> rfl
      · rw [if_pos whole, Block.ofBytes?_eq_none whole]

theorem checkedFinish_eq (stream : CbcDecryptor) : stream.checkedFinish = some stream.finish := by
  rw [checkedFinish, finish]
  split
  · rfl
  · rw [checkedFinal_eq]
    rfl

theorem length_held_advance_le (schedule : Schedule) (chain : Block) (bytes : Bytes) :
    (advance schedule chain bytes).1.held.length ≤ Block.size := by
  obtain ⟨blocks, rest, rfl, short, kept⟩ := exists_kept bytes
  rw [advance_eq _ _ _ short kept]
  exact short

theorem Bounded.serve {stream : CbcDecryptor} (bounded : stream.Bounded) (call : Call) :
    (CbcDecryptor.serve stream call).1.Bounded := by
  obtain ⟨key, stage, finished⟩ := stream
  cases finished with
  | true => cases call <;> exact bounded
  | false =>
      cases call with
      | finish => exact bounded
      | write input =>
          cases stage with
          | collecting iv =>
              have atMost : iv.length ≤ Block.size := bounded
              have filled : (iv ++ input.take (Block.size - iv.length)).length ≤ Block.size := by
                rw [List.length_append, List.length_take]
                omega
              simp only [CbcDecryptor.serve, write, Bool.false_eq_true, if_false]
              split
              · exact filled
              · split
                · exact filled
                · exact length_held_advance_le _ _ _
          | decrypting schedule chain pending =>
              exact length_held_advance_le schedule chain (pending ++ input)

theorem Ready.bounded {stream : CbcDecryptor} (ready : stream.Ready) : stream.Bounded := by
  obtain ⟨key, stage, finished⟩ := stream
  cases stage with
  | collecting iv => exact ready.short.le
  | decrypting schedule chain pending => exact ready.short

/-- What a decryptor has received, with a vector of a certain length in front, is what it has put
out and what it holds.  It puts out whole blocks, and the last byte it has received it holds. -/
inductive Balanced : (vector : Nat) → (received output : Bytes) → CbcStage → Prop where
  | collecting {received : Bytes} (short : received.length < Block.size) :
      Balanced Block.size received [] (.collecting received)
  | decrypting {schedule : Schedule} {chain : Block} {vector : Nat} {used pending output : Bytes}
      (length_used : used.length = vector + output.length)
      (whole : Block.size ∣ output.length)
      (short : pending.length ≤ Block.size)
      (kept : vector < (used ++ pending).length → 0 < pending.length) :
      Balanced vector (used ++ pending) output (.decrypting schedule chain pending)

/-- How long the parts are tells how many blocks are put out. -/
theorem Balanced.length_eq {vector : Nat} {received output : Bytes} {stage : CbcStage}
    (balanced : Balanced vector received output stage) (complete : vector ≤ received.length) :
    received.length = vector + output.length + stage.held.length ∧ Block.size ∣ output.length ∧
      (vector < received.length → 0 < stage.held.length) := by
  cases balanced with
  | collecting short => exact absurd complete (Nat.not_le.mpr short)
  | decrypting length_used whole short kept =>
      exact ⟨by rw [List.length_append, length_used]; rfl, whole, kept⟩

theorem Balanced.advance {vector : Nat} {used output : Bytes}
    (length_used : used.length = vector + output.length) (whole : Block.size ∣ output.length)
    {bytes : Bytes} (kept : vector < (used ++ bytes).length → 0 < bytes.length)
    (schedule : Schedule) (chain : Block) :
    Balanced vector (used ++ bytes) (output ++ (CbcDecryptor.advance schedule chain bytes).2)
      (CbcDecryptor.advance schedule chain bytes).1 := by
  obtain ⟨blocks, rest, rfl, short, none⟩ := exists_kept bytes
  have plain : (Block.join (Cbc.decryptBlocks schedule chain blocks)).length =
      (Block.join blocks).length := by
    rw [Block.length_join, Block.length_join, Cbc.length_decryptBlocks]
  rw [advance_eq _ _ _ short none, ← List.append_assoc]
  refine .decrypting ?_ ?_ short ?_
  · rw [List.length_append, List.length_append, plain, length_used, Nat.add_assoc]
  · rw [List.length_append, plain, Block.length_join]
    exact Nat.dvd_add whole (Nat.dvd_mul_right _ _)
  · intro more
    refine List.length_pos_iff.mpr fun empty => ?_
    subst empty
    cases none rfl
    exact absurd (kept (by simpa using more)) (Nat.lt_irrefl 0)

theorem balanced_of_start {key : Bytes} {iv? : Option Block} {stream : CbcDecryptor}
    (started : start key iv? = .ok stream) :
    stream.key = key ∧ stream.finished = false ∧
      Balanced (if iv?.isSome then 0 else Block.size) [] [] stream.stage := by
  cases iv? with
  | none =>
      cases started
      exact ⟨rfl, rfl, .collecting (by decide)⟩
  | some iv =>
      rw [start] at started
      split at started
      · cases started
      · next aes found =>
          cases started
          have accounted : Balanced 0 ([] ++ []) [] (.decrypting (.ofKey aes) iv []) :=
            .decrypting rfl (Nat.dvd_zero _) (Nat.zero_le _) id
          exact ⟨rfl, rfl, accounted⟩

section ProperKey

variable {stream : CbcDecryptor}
  (proper : stream.key.length = 16 ∨ stream.key.length = 24 ∨ stream.key.length = 32)
  (running : stream.finished = false) {vector : Nat}

include proper running

/-- With a proper key every write succeeds, and what it adds is accounted for. -/
theorem Balanced.exists_write {received output : Bytes}
    (balanced : Balanced vector received output stream.stage) (input : Bytes) :
    ∃ next more, stream.write input = (next, .ok more) ∧ next.key = stream.key ∧
      next.finished = false ∧
      Balanced vector (received ++ input) (output ++ more) next.stage := by
  obtain ⟨key, stage, finished⟩ := stream
  cases running
  have aes : Key.ofBytes? key = some ⟨key, proper⟩ := dif_pos proper
  cases balanced with
  | collecting short =>
      by_cases incomplete : received.length + input.length < Block.size
      · have written := eq_of_push_eq_ok (push_incomplete key incomplete)
        refine ⟨_, _, written, rfl, rfl, .collecting ?_⟩
        rwa [List.length_append]
      · have complete : received.length + (input.take (Block.size - received.length)).length =
            Block.size := by
          rw [List.length_take]
          omega
        have pushed := push_complete key complete (input.drop (Block.size - received.length))
        rw [List.take_append_drop, aes] at pushed
        refine ⟨_, _, eq_of_push_eq_ok pushed, rfl, rfl, ?_⟩
        have parts : received ++ input =
            received ++ input.take (Block.size - received.length) ++
              input.drop (Block.size - received.length) := by
          rw [List.append_assoc, List.take_append_drop]
        rw [parts]
        refine .advance ?_ (Nat.dvd_zero _) ?_ _ _
        · rwa [List.length_append]
        · intro more
          rw [List.length_append, List.length_append, complete] at more
          omega
  | @decrypting schedule chain _ used pending _ length_used whole short kept =>
      refine ⟨_, _, rfl, rfl, rfl, ?_⟩
      rw [List.append_assoc]
      refine .advance length_used whole ?_ schedule chain
      intro more
      simp only [List.length_append] at kept more ⊢
      omega

/-- However the input is cut up, each write succeeds. -/
theorem Balanced.run_writes {received output : Bytes}
    (balanced : Balanced vector received output stream.stage) (inputs : List Bytes) :
    ∃ (next : CbcDecryptor) (outputs : List Bytes),
      run CbcDecryptor.serve stream (inputs.map .write) = (next, outputs.map .ok) ∧
      Balanced vector (received ++ inputs.flatten) (output ++ outputs.flatten) next.stage := by
  induction inputs generalizing stream received output with
  | nil => exact ⟨stream, [], rfl, by simpa using balanced⟩
  | cons input inputs inductionHypothesis =>
      obtain ⟨middle, more, written, sameKey, still, accounted⟩ :=
        balanced.exists_write proper running input
      obtain ⟨next, outputs, later, final⟩ :=
        inductionHypothesis (sameKey ▸ proper) still accounted
      refine ⟨next, more :: outputs, ?_, ?_⟩
      · have served : CbcDecryptor.serve stream (.write input) = (middle, .ok more) := written
        rw [List.map_cons, run, served, later]
        rfl
      · rwa [List.flatten_cons, List.flatten_cons, ← List.append_assoc, ← List.append_assoc]

end ProperKey

end CbcDecryptor

/-- Put out the message, and check where the nonce ends. -/
def GcmDecryptor.checkedFinish (stream : GcmDecryptor) :
    Option (GcmDecryptor × Except Error Bytes) :=
  if stream.finished then some (stream, .ok [])
  else
    let ended := { stream with finished := true }
    if stream.buffer.length < Gcm.nonceSize then some (ended, .error .invalidCryptoData)
    else do
      let (nonce, cipher) ← Bytes.split? stream.buffer Gcm.nonceSize
      let message? := Gcm.decrypt? stream.schedule nonce stream.associated cipher
      some (ended, message?.elim (.error .invalidCryptoData) .ok)

theorem GcmDecryptor.checkedFinish_eq (stream : GcmDecryptor) :
    stream.checkedFinish = some stream.finish := by
  rw [checkedFinish, finish]
  split
  · rfl
  · by_cases short : stream.buffer.length < Gcm.nonceSize
    · have cut : (stream.buffer.take Gcm.nonceSize).length < Gcm.nonceSize := by
        rw [List.length_take]
        omega
      simp only [if_pos short, if_pos cut, Option.elim_none]
    · have within : Gcm.nonceSize ≤ stream.buffer.length := Nat.le_of_not_lt short
      have cut : ¬ (stream.buffer.take Gcm.nonceSize).length < Gcm.nonceSize := by
        rw [List.length_take]
        omega
      simp only [if_neg short, if_neg cut, Bytes.split?_eq within, Option.bind_eq_bind,
        Option.bind_some]

/-- Compare the tag with the front of a candidate, if that is long enough to have one. -/
def HmacStream.checkedVerify (stream : HmacStream) (candidate : Bytes) :
    Option (HmacStream × Bool) :=
  if candidate.length < Digest.sha1Size then some (stream.finish, false)
  else do
    let (front, _) ← Bytes.split? candidate Digest.sha1Size
    some (stream.finish, front == stream.finish.tag)

theorem HmacStream.checkedVerify_eq (stream : HmacStream) (candidate : Bytes) :
    stream.checkedVerify candidate = some (stream.verify candidate) := by
  rw [checkedVerify, verify]
  by_cases short : candidate.length < Digest.sha1Size
  · have cut : (candidate.take Digest.sha1Size).length ≠ Digest.sha1Size := by
      rw [List.length_take]
      omega
    simp only [if_pos short, beq_eq_false_iff_ne.mpr cut, Bool.false_and]
  · have within : Digest.sha1Size ≤ candidate.length := Nat.le_of_not_lt short
    have cut : (candidate.take Digest.sha1Size).length = Digest.sha1Size :=
      List.length_take_of_le within
    simp only [if_neg short, Bytes.split?_eq within, cut, beq_self_eq_true, Bool.true_and,
      Option.bind_eq_bind, Option.bind_some]

namespace Decryptor

def checkedWrite : Decryptor → Bytes → Option (Decryptor × Except Error Bytes)
  | cbc stream, input => (stream.checkedWrite input).map (Prod.map .cbc id)
  | gcm stream, input => some ((stream.write input).map .gcm id)
  | oaep stream, input => some ((stream.write input).map .oaep id)

def checkedFinish : Decryptor → Option (Decryptor × Except Error Bytes)
  | cbc stream => stream.checkedFinish.map (Prod.map .cbc id)
  | gcm stream => stream.checkedFinish.map (Prod.map .gcm id)
  | oaep stream => some (stream.finish.map .oaep id)

def Bounded : Decryptor → Prop
  | cbc stream => stream.Bounded
  | gcm _ | oaep _ => True

theorem checkedWrite_eq {decryptor : Decryptor} (bounded : decryptor.Bounded) (input : Bytes) :
    decryptor.checkedWrite input = some (decryptor.write input) := by
  cases decryptor with
  | cbc stream => rw [checkedWrite, CbcDecryptor.checkedWrite_eq bounded]; rfl
  | gcm stream => rfl
  | oaep stream => rfl

theorem checkedFinish_eq (decryptor : Decryptor) :
    decryptor.checkedFinish = some decryptor.finish := by
  cases decryptor with
  | cbc stream => rw [checkedFinish, CbcDecryptor.checkedFinish_eq]; rfl
  | gcm stream => rw [checkedFinish, GcmDecryptor.checkedFinish_eq]; rfl
  | oaep stream => rfl

theorem Bounded.write {decryptor : Decryptor} (bounded : decryptor.Bounded) (input : Bytes) :
    (decryptor.write input).1.Bounded := by
  cases decryptor with
  | cbc stream => exact CbcDecryptor.Bounded.serve bounded (.write input)
  | gcm stream => trivial
  | oaep stream => trivial

theorem Ready.bounded {decryptor : Decryptor} (ready : decryptor.Ready) : decryptor.Bounded := by
  cases decryptor with
  | cbc stream => exact CbcDecryptor.Ready.bounded ready
  | gcm stream => trivial
  | oaep stream => trivial

end Decryptor

/-- Only tags of HMAC are compared byte by byte. -/
def TagStream.checkedVerify : TagStream → Bytes → Option (TagStream × Except Error Bool)
  | hmac stream, candidate => (stream.checkedVerify candidate).map (Prod.map .hmac .ok)
  | decoy stream, candidate =>
      (stream.checkedVerify candidate).map (Prod.map .decoy fun _ => .ok false)
  | signature stream, candidate => some ((stream.verify candidate).map .signature id)

theorem TagStream.checkedVerify_eq (stream : TagStream) (candidate : Bytes) :
    stream.checkedVerify candidate = some (stream.verify candidate) := by
  cases stream with
  | hmac stream => rw [checkedVerify, HmacStream.checkedVerify_eq]; rfl
  | decoy stream => rw [checkedVerify, HmacStream.checkedVerify_eq]; rfl
  | signature stream => rfl

end Streaming

end VersionedKeys
