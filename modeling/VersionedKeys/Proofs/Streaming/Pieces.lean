import VersionedKeys.Proofs.Aes.Chaining
import VersionedKeys.Proofs.Outcomes
import VersionedKeys.Streaming.Cipher

/-!
# Writing in pieces

It does not matter in how many pieces bytes are written to a stream: the stream
comes to the same state and puts out the same bytes as if they were written at
once (`Encryptor.push_append`, `Decryptor.push_append`).
-/

namespace VersionedKeys.Streaming

open Aes

namespace CbcEncryptor

theorem advance_append (stream : CbcEncryptor) (front back : Bytes) :
    stream.advance (front ++ back) =
      (((stream.advance front).1.advance back).1,
        (stream.advance front).2 ++ ((stream.advance front).1.advance back).2) := by
  obtain ⟨blocks, rest, equality, short⟩ := Block.exists_eq_join_append (stream.pending ++ front)
  obtain ⟨later, last, laterEquality, laterShort⟩ := Block.exists_eq_join_append (rest ++ back)
  have before : Block.splitAll (stream.pending ++ front) = (blocks, rest) :=
    Block.splitAll_eq_iff.mpr ⟨equality, short⟩
  have after : Block.splitAll (rest ++ back) = (later, last) :=
    Block.splitAll_eq_iff.mpr ⟨laterEquality, laterShort⟩
  have whole : Block.splitAll (stream.pending ++ (front ++ back)) = (blocks ++ later, last) := by
    apply Block.splitAll_eq_iff.mpr
    refine ⟨?_, laterShort⟩
    rw [← List.append_assoc, equality, List.append_assoc, laterEquality, Block.join_append,
      List.append_assoc]
  simp only [advance, whole, before, after, Cbc.encryptBlocks_append, Block.join_append,
    List.nil_append, List.append_assoc, Cbc.getLastD_append]

/-- The padding depends on what has been taken in only up to whole blocks. -/
theorem padding_advance (stream : CbcEncryptor) (input : Bytes) :
    Cbc.padding (stream.advance input).1.pending.length =
      Cbc.padding (stream.pending ++ input).length := by
  obtain ⟨blocks, rest, equality, short⟩ := Block.exists_eq_join_append (stream.pending ++ input)
  have split : Block.splitAll (stream.pending ++ input) = (blocks, rest) :=
    Block.splitAll_eq_iff.mpr ⟨equality, short⟩
  rw [equality, Cbc.padding_join_append]
  simp only [advance, split]

/-- Whole blocks go out, and the vector before the first of them. -/
theorem length_advance (stream : CbcEncryptor) (input : Bytes) :
    (stream.advance input).2.length =
      stream.lead.length + 16 * ((stream.pending ++ input).length / 16) := by
  obtain ⟨blocks, rest, equality, short⟩ := Block.exists_eq_join_append (stream.pending ++ input)
  have split : Block.splitAll (stream.pending ++ input) = (blocks, rest) :=
    Block.splitAll_eq_iff.mpr ⟨equality, short⟩
  simp only [advance, split, List.length_append, Block.length_join, Cbc.length_encryptBlocks]
  rw [← List.length_append, equality, List.length_append, Block.length_join]
  omega

end CbcEncryptor

namespace CbcDecryptor

/-- Cut into whole blocks and a rest that is only empty if everything is. -/
theorem exists_kept (bytes : Bytes) :
    ∃ blocks rest, bytes = Block.join blocks ++ rest ∧ rest.length ≤ 16 ∧
      (rest = [] → blocks = []) := by
  obtain ⟨blocks, rest, equality, short⟩ := Block.exists_eq_join_append bytes
  by_cases empty : rest = []
  · subst empty
    rcases List.eq_nil_or_concat blocks with rfl | ⟨front, last, rfl⟩
    · exact ⟨[], [], by simpa using equality, by simp, by simp⟩
    · refine ⟨front, last.toBytes, by simpa using equality, by simp, ?_⟩
      intro none
      have length := Block.length_toBytes last
      simp [none] at length
  · exact ⟨blocks, rest, equality, by omega, fun none => absurd none empty⟩

/-- What is decrypted, and what is kept for later. -/
theorem advance_eq (schedule : Schedule) (chain : Block) (blocks : List Block) {rest : Bytes}
    (short : rest.length ≤ 16) (kept : rest = [] → blocks = []) :
    advance schedule chain (Block.join blocks ++ rest) =
      (.decrypting schedule (blocks.getLastD chain) rest,
        Block.join (Cbc.decryptBlocks schedule chain blocks)) := by
  have ready : ((Block.join blocks ++ rest).length - 1) / Block.size * Block.size =
      (Block.join blocks).length := by
    rw [List.length_append, Block.length_join, Block.size]
    by_cases empty : rest = []
    · simp [empty, kept empty]
    · have positive := List.length_pos_iff.mpr empty
      omega
  simp only [advance, ready, List.take_left, List.drop_left, Block.splitAll_join]

theorem advance_append {schedule : Schedule} {chain last : Block}
    {front pending output : Bytes} (back : Bytes)
    (advanced : advance schedule chain front = (.decrypting schedule last pending, output)) :
    advance schedule chain (front ++ back) =
      ((advance schedule last (pending ++ back)).1,
        output ++ (advance schedule last (pending ++ back)).2) := by
  obtain ⟨blocks, rest, rfl, short, kept⟩ := exists_kept front
  rw [advance_eq _ _ _ short kept] at advanced
  cases advanced
  obtain ⟨later, final, equality, laterShort, laterKept⟩ := exists_kept (pending ++ back)
  have whole : Block.join blocks ++ pending ++ back = Block.join (blocks ++ later) ++ final := by
    rw [List.append_assoc, equality, Block.join_append, List.append_assoc]
  have wholeKept : final = [] → blocks ++ later = [] := by
    intro empty
    rw [empty, laterKept empty, Block.join_nil, List.append_nil, List.append_eq_nil_iff] at equality
    simp [kept equality.1, laterKept empty]
  rw [whole, advance_eq _ _ _ laterShort wholeKept, equality,
    advance_eq _ _ _ laterShort laterKept, Cbc.decryptBlocks_append, Block.join_append,
    Cbc.getLastD_append]

end CbcDecryptor

section Push

variable {Stream : Type} (write : Stream → Bytes → Stream × Except Error Bytes)

/-- Write a piece; a stream that refuses it is left behind. -/
def push (stream : Stream) (input : Bytes) : Except Error (Stream × Bytes) :=
  (write stream input).2.map fun output => ((write stream input).1, output)

def pushBoth (stream : Stream) (front back : Bytes) : Except Error (Stream × Bytes) := do
  let (stream, output) ← push write stream front
  let (stream, more) ← push write stream back
  .ok (stream, output ++ more)

variable {write} in
theorem eq_of_push_eq_ok {stream next : Stream} {input output : Bytes}
    (pushed : push write stream input = .ok (next, output)) :
    write stream input = (next, .ok output) := by
  obtain ⟨result, written, equality⟩ := Outcome.map_eq_ok.mp pushed
  cases equality
  exact Prod.ext rfl written

variable {Wrapped : Type} {wrap : Stream → Wrapped}
  {writeWrapped : Wrapped → Bytes → Wrapped × Except Error Bytes}

/-- A push is one under another name for the streams. -/
theorem push_of_wrapped
    (wrapped : ∀ stream input,
      writeWrapped (wrap stream) input = (write stream input).map wrap id)
    (stream : Stream) (input : Bytes) :
    push writeWrapped (wrap stream) input = (push write stream input).map (Prod.map wrap id) := by
  rw [push, wrapped, push]
  obtain ⟨next, result⟩ := write stream input
  cases result with
  | error error => rfl
  | ok output => rfl

theorem push_append_of_wrapped
    (wrapped : ∀ stream input,
      writeWrapped (wrap stream) input = (write stream input).map wrap id)
    {stream : Stream} {front back : Bytes}
    (both : push write stream (front ++ back) = pushBoth write stream front back) :
    push writeWrapped (wrap stream) (front ++ back) =
      pushBoth writeWrapped (wrap stream) front back := by
  rw [push_of_wrapped _ wrapped, both, pushBoth, pushBoth, push_of_wrapped _ wrapped]
  cases push write stream front with
  | error error => rfl
  | ok first =>
      simp only [Outcome.ok_bind, Outcome.map_ok, Prod.map, push_of_wrapped _ wrapped]
      cases push write first.1 back with
      | error error => rfl
      | ok second => rfl

end Push

theorem CbcEncryptor.push_append (stream : CbcEncryptor) (front back : Bytes) :
    push write stream (front ++ back) = pushBoth write stream front back := by
  by_cases finished : stream.finished = true
  · simp [push, pushBoth, write, finished]
  · have later : (stream.advance front).1.finished = stream.finished := rfl
    simp [push, pushBoth, write, finished, later, advance_append]

theorem GcmEncryptor.push_append (stream : GcmEncryptor) (front back : Bytes) :
    push write stream (front ++ back) = pushBoth write stream front back := by
  by_cases finished : stream.finished = true
  · simp [push, pushBoth, write, finished]
  · simp [push, pushBoth, write, finished]

theorem OaepEncryptor.push_append (stream : OaepEncryptor) (front back : Bytes) :
    push write stream (front ++ back) = pushBoth write stream front back := by
  by_cases finished : stream.finished = true
  · simp [push, pushBoth, write, finished]
  · by_cases long : Rsa.Oaep.capacity stream.key.length < stream.buffer.length + front.length
    · have longer : Rsa.Oaep.capacity stream.key.length <
          stream.buffer.length + (front.length + back.length) := by omega
      simp [push, pushBoth, write, finished, long, longer]
    · by_cases longer : Rsa.Oaep.capacity stream.key.length <
          stream.buffer.length + (front.length + back.length)
      · simp [push, pushBoth, write, finished, long, longer, Nat.add_assoc]
      · simp [push, pushBoth, write, finished, long, longer, Nat.add_assoc]

namespace CbcDecryptor

theorem push_incomplete (key : Bytes) {iv input : Bytes}
    (short : iv.length + input.length < Block.size) :
    push write ⟨key, .collecting iv, false⟩ input =
      .ok (⟨key, .collecting (iv ++ input), false⟩, []) := by
  have all : input.take (Block.size - iv.length) = input := List.take_of_length_le (by omega)
  simp only [push, write, all, List.length_append, short, if_true, Bool.false_eq_true, if_false,
    Outcome.map_ok]

theorem push_complete (key : Bytes) {iv missing : Bytes}
    (complete : iv.length + missing.length = Block.size) (rest : Bytes) :
    push write ⟨key, .collecting iv, false⟩ (missing ++ rest) =
      match Key.ofBytes? key with
      | none => .error (.key (.aesLength key.length))
      | some aes =>
          .ok (⟨key, (advance (.ofKey aes) (.ofBytes (iv ++ missing)) rest).1, false⟩,
            (advance (.ofKey aes) (.ofBytes (iv ++ missing)) rest).2) := by
  have length : Block.size - iv.length = missing.length := by omega
  have long : ¬ (iv ++ missing).length < Block.size := by
    rw [List.length_append]
    omega
  simp only [push, write, length, List.take_left, List.drop_left, long, Bool.false_eq_true,
    if_false]
  cases Key.ofBytes? key with
  | none => rfl
  | some aes => rfl

theorem push_decrypting (key : Bytes) (schedule : Schedule) (chain : Block)
    (pending input : Bytes) :
    push write ⟨key, .decrypting schedule chain pending, false⟩ input =
      .ok (⟨key, (advance schedule chain (pending ++ input)).1, false⟩,
        (advance schedule chain (pending ++ input)).2) := by
  simp only [push, write, Bool.false_eq_true, if_false, Outcome.map_ok]

theorem push_append_decrypting (key : Bytes) (schedule : Schedule) (chain : Block)
    (pending front back : Bytes) :
    push write ⟨key, .decrypting schedule chain pending, false⟩ (front ++ back) =
      pushBoth write ⟨key, .decrypting schedule chain pending, false⟩ front back := by
  obtain ⟨last, rest, output, advanced⟩ : ∃ last rest output,
      advance schedule chain (pending ++ front) = (.decrypting schedule last rest, output) :=
    ⟨_, _, _, rfl⟩
  have whole := advance_append back advanced
  rw [List.append_assoc] at whole
  rw [push_decrypting, whole, pushBoth, push_decrypting, advanced, Outcome.ok_bind]
  dsimp only
  rw [push_decrypting, Outcome.ok_bind]

theorem push_append_collecting (key : Bytes) {iv : Bytes} (short : iv.length < Block.size)
    (front back : Bytes) :
    push write ⟨key, .collecting iv, false⟩ (front ++ back) =
      pushBoth write ⟨key, .collecting iv, false⟩ front back := by
  -- The vector is completed by neither piece, by the second, or by the first.
  by_cases incomplete : iv.length + front.length < Block.size
  · rw [pushBoth, push_incomplete key incomplete, Outcome.ok_bind]
    dsimp only
    by_cases still : iv.length + (front ++ back).length < Block.size
    · have later : (iv ++ front).length + back.length < Block.size := by
        simp only [List.length_append] at still ⊢
        omega
      rw [push_incomplete key still, push_incomplete key later, Outcome.ok_bind,
        List.append_assoc]
      rfl
    · obtain ⟨missing, rest, rfl, length⟩ : ∃ missing rest, back = missing ++ rest ∧
          iv.length + front.length + missing.length = Block.size :=
        ⟨_, _, (List.take_append_drop (Block.size - (iv.length + front.length)) back).symm, by
          simp only [List.length_append, List.length_take] at still ⊢
          omega⟩
      have whole : iv.length + (front ++ missing).length = Block.size := by
        rw [List.length_append, ← length, Nat.add_assoc]
      have later : (iv ++ front).length + missing.length = Block.size := by
        rw [List.length_append, length]
      rw [← List.append_assoc, push_complete key whole, push_complete key later,
        List.append_assoc]
      cases Key.ofBytes? key with
      | none => rfl
      | some aes => rfl
  · obtain ⟨missing, rest, rfl, length⟩ : ∃ missing rest, front = missing ++ rest ∧
        iv.length + missing.length = Block.size :=
      ⟨_, _, (List.take_append_drop (Block.size - iv.length) front).symm, by
        simp only [List.length_take]
        omega⟩
    rw [List.append_assoc, pushBoth, push_complete key length, push_complete key length]
    cases Key.ofBytes? key with
    | none => rfl
    | some aes =>
        obtain ⟨last, pending, output, advanced⟩ : ∃ last pending output,
            advance (.ofKey aes) (.ofBytes (iv ++ missing)) rest =
              (.decrypting (.ofKey aes) last pending, output) := ⟨_, _, _, rfl⟩
        dsimp only
        rw [advance_append back advanced, advanced, Outcome.ok_bind]
        dsimp only
        rw [push_decrypting, Outcome.ok_bind]

/-- A decryptor that is still collecting its initialization vector lacks some of
it. -/
def Consistent (stream : CbcDecryptor) : Prop :=
  ∀ iv, stream.stage = .collecting iv → iv.length < Block.size

theorem push_append {stream : CbcDecryptor} (consistent : stream.Consistent)
    (front back : Bytes) :
    push write stream (front ++ back) = pushBoth write stream front back := by
  obtain ⟨key, stage, finished⟩ := stream
  cases finished with
  | true => simp [push, pushBoth, write]
  | false =>
      cases stage with
      | collecting iv => exact push_append_collecting key (consistent iv rfl) front back
      | decrypting schedule chain pending => exact push_append_decrypting key _ _ _ _ _

theorem Consistent.push {stream next : CbcDecryptor} (consistent : stream.Consistent)
    {input output : Bytes} (pushed : push write stream input = .ok (next, output)) :
    next.Consistent := by
  obtain ⟨key, stage, finished⟩ := stream
  intro iv collecting
  cases finished with
  | true => simp [Streaming.push, write] at pushed
  | false =>
      cases stage with
      | collecting collected =>
          have short := consistent collected rfl
          by_cases incomplete : collected.length + input.length < Block.size
          · rw [push_incomplete key incomplete] at pushed
            cases pushed
            cases collecting
            rwa [List.length_append]
          · have length : collected.length +
                (input.take (Block.size - collected.length)).length = Block.size := by
              rw [List.length_take]
              omega
            rw [← List.take_append_drop (Block.size - collected.length) input,
              push_complete key length] at pushed
            cases found : Key.ofBytes? key with
            | none => simp [found] at pushed
            | some aes =>
                simp only [found, advance, Except.ok.injEq, Prod.mk.injEq] at pushed
                simp [← pushed.1] at collecting
      | decrypting schedule chain pending =>
          rw [push_decrypting] at pushed
          simp only [advance, Except.ok.injEq, Prod.mk.injEq] at pushed
          simp [← pushed.1] at collecting

end CbcDecryptor

theorem GcmDecryptor.push_append (stream : GcmDecryptor) (front back : Bytes) :
    push write stream (front ++ back) = pushBoth write stream front back := by
  by_cases finished : stream.finished = true
  · simp [push, pushBoth, write, finished]
  · simp [push, pushBoth, write, finished]

theorem OaepDecryptor.push_append (stream : OaepDecryptor) (front back : Bytes) :
    push write stream (front ++ back) = pushBoth write stream front back := by
  by_cases finished : stream.finished = true
  · simp [push, pushBoth, write, finished]
  · by_cases long : stream.key.publicKey.length < stream.buffer.length + front.length
    · have longer : stream.key.publicKey.length <
          stream.buffer.length + (front.length + back.length) := by omega
      simp [push, pushBoth, write, finished, long, longer]
    · by_cases longer : stream.key.publicKey.length <
          stream.buffer.length + (front.length + back.length)
      · simp [push, pushBoth, write, finished, long, longer, Nat.add_assoc]
      · simp [push, pushBoth, write, finished, long, longer, Nat.add_assoc]

theorem Encryptor.push_append (encryptor : Encryptor) (front back : Bytes) :
    push write encryptor (front ++ back) = pushBoth write encryptor front back := by
  cases encryptor with
  | cbc stream =>
      exact push_append_of_wrapped _ (fun _ _ => rfl) (stream.push_append front back)
  | gcm stream =>
      exact push_append_of_wrapped _ (fun _ _ => rfl) (stream.push_append front back)
  | oaep stream =>
      exact push_append_of_wrapped _ (fun _ _ => rfl) (stream.push_append front back)

/-- A decryptor of chained blocks that is still collecting its initialization
vector lacks some of it. -/
def Decryptor.Consistent : Decryptor → Prop
  | cbc stream => stream.Consistent
  | gcm _ | oaep _ => True

theorem Decryptor.consistent_gcm (stream : GcmDecryptor) : (gcm stream).Consistent := trivial

theorem Decryptor.consistent_oaep (stream : OaepDecryptor) : (oaep stream).Consistent := trivial

theorem Decryptor.push_append {decryptor : Decryptor} (consistent : decryptor.Consistent)
    (front back : Bytes) :
    push write decryptor (front ++ back) = pushBoth write decryptor front back := by
  cases decryptor with
  | cbc stream =>
      exact push_append_of_wrapped _ (fun _ _ => rfl)
        (CbcDecryptor.push_append consistent front back)
  | gcm stream =>
      exact push_append_of_wrapped _ (fun _ _ => rfl) (stream.push_append front back)
  | oaep stream =>
      exact push_append_of_wrapped _ (fun _ _ => rfl) (stream.push_append front back)

theorem Decryptor.Consistent.push {decryptor next : Decryptor}
    (consistent : decryptor.Consistent) {input output : Bytes}
    (pushed : push write decryptor input = .ok (next, output)) : next.Consistent := by
  cases decryptor with
  | cbc stream =>
      obtain ⟨result, written, equality⟩ := Outcome.map_eq_ok.mp pushed
      cases equality
      exact CbcDecryptor.Consistent.push consistent
        (Outcome.map_eq_ok.mpr ⟨output, written, rfl⟩)
  | gcm stream =>
      obtain ⟨result, written, equality⟩ := Outcome.map_eq_ok.mp pushed
      cases equality
      exact trivial
  | oaep stream =>
      obtain ⟨result, written, equality⟩ := Outcome.map_eq_ok.mp pushed
      cases equality
      exact trivial

end VersionedKeys.Streaming
