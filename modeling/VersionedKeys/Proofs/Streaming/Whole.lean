import VersionedKeys.Proofs.Aes.Counter
import VersionedKeys.Proofs.Key.Reading
import VersionedKeys.Proofs.Streaming.Pieces

/-!
# Whole messages through streams

What a stream makes of a message that is written at once.  Encryptors make the
vector, nonce or block together with the cipher text, and decryptors accept
exactly that (`Decryptor.whole_cbc_eq_ok`, `Decryptor.whole_gcm_eq_ok`).
-/

namespace VersionedKeys.Streaming

open Aes

namespace Encryptor

/-- What is put out for a message that is written at once, up to the end. -/
def whole (encryptor : Encryptor) (message : Bytes) (random : Random) :
    Except Error Bytes × Random :=
  match push write encryptor message with
  | .error error => (.error error, random)
  | .ok (encryptor, front) =>
      let ((_, back), random) := encryptor.finish random
      (back.map (front ++ ·), random)

theorem push_cbc {stream : CbcEncryptor} (running : stream.finished = false) (input : Bytes) :
    push write (.cbc stream) input =
      .ok (.cbc (stream.advance input).1, (stream.advance input).2) := by
  simp [push, write, CbcEncryptor.write, running]

/-- However far an encryptor of chained blocks has come, it ends with the padding
of all that it has taken in. -/
theorem whole_cbc_eq_advance {stream : CbcEncryptor} (running : stream.finished = false)
    (message : Bytes) (random : Random) :
    whole (.cbc stream) message random =
      (.ok (stream.advance
        (message ++ Cbc.padding (stream.pending ++ message).length)).2, random) := by
  have later : (stream.advance message).1.finished = false := running
  rw [whole, push_cbc running, ← CbcEncryptor.padding_advance, CbcEncryptor.advance_append]
  simp [finish, CbcEncryptor.finish, later]

theorem whole_cbc (schedule : Schedule) (lead : Bytes) (iv : Block) (message : Bytes)
    (random : Random) :
    whole (.cbc ⟨schedule, lead, iv, [], false⟩) message random =
      (.ok (lead ++ Cbc.encrypt schedule iv message), random) := by
  rw [whole_cbc_eq_advance rfl]
  rfl

theorem whole_gcm (schedule : Schedule) (associated nonce lead buffer message : Bytes)
    (random : Random) :
    whole (.gcm ⟨schedule, associated, nonce, lead, buffer, false⟩) message random =
      (.ok (lead ++ Gcm.encrypt schedule nonce associated (buffer ++ message)), random) := by
  simp [whole, push, write, finish, GcmEncryptor.write, GcmEncryptor.finish]

theorem whole_oaep (key : Rsa.PublicKey) {buffer message : Bytes}
    (fits : buffer.length + message.length ≤ Rsa.Oaep.capacity key.length) (random : Random) :
    whole (.oaep ⟨key, buffer, false⟩) message random =
      ((Rsa.Oaep.encrypt? key (random.draw Digest.sha1Size).1 (buffer ++ message)).elim
        (.error .invalidCryptoData) .ok, (random.draw Digest.sha1Size).2) := by
  have holds : ¬ Rsa.Oaep.capacity key.length < buffer.length + message.length := by omega
  have pushed : push write (.oaep ⟨key, buffer, false⟩) message =
      .ok (.oaep ⟨key, buffer ++ message, false⟩, []) := by
    simp [push, write, OaepEncryptor.write, holds]
  simp only [whole, pushed, finish, OaepEncryptor.finish, Bool.false_eq_true, if_false,
    Prod.map_fst, Prod.map_snd, id_eq]
  cases Rsa.Oaep.encrypt? key (random.draw Digest.sha1Size).1 (buffer ++ message) with
  | none => simp
  | some block => simp

theorem finish_eq_whole_nil {encryptor : Encryptor} {random after : Random} {output : Bytes}
    (ended : whole encryptor [] random = (.ok output, after)) :
    (encryptor.finish random).1.2 = .ok output ∧ (encryptor.finish random).2 = after := by
  cases encryptor with
  | cbc stream =>
      cases running : stream.finished with
      | true => simp [whole, push, write, CbcEncryptor.write, running] at ended
      | false =>
          rw [whole_cbc_eq_advance running] at ended
          simpa [finish, CbcEncryptor.finish, running] using ended
  | gcm stream =>
      obtain ⟨schedule, associated, nonce, lead, buffer, finished⟩ := stream
      cases finished with
      | true => simp [whole, push, write, GcmEncryptor.write] at ended
      | false =>
          rw [whole_gcm] at ended
          simpa [finish, GcmEncryptor.finish] using ended
  | oaep stream =>
      obtain ⟨key, buffer, finished⟩ := stream
      cases finished with
      | true => simp [whole, push, write, OaepEncryptor.write] at ended
      | false =>
          by_cases fits : buffer.length ≤ Rsa.Oaep.capacity key.length
          · have fitsNil : buffer.length + ([] : Bytes).length ≤
                Rsa.Oaep.capacity key.length := fits
            rw [whole_oaep key fitsNil] at ended
            simpa [finish, OaepEncryptor.finish] using ended
          · have long : Rsa.Oaep.capacity key.length < buffer.length := by omega
            simp [whole, push, write, OaepEncryptor.write, long] at ended

end Encryptor

namespace CbcDecryptor

theorem final_advance_eq_ok {schedule : Schedule} {chain : Block} {cipher message : Bytes} :
    (final (advance schedule chain cipher).1).map ((advance schedule chain cipher).2 ++ ·) =
        .ok message ↔
      cipher = Cbc.encrypt schedule chain message := by
  rw [← Cbc.decrypt?_eq_some_iff]
  obtain ⟨blocks, rest, rfl, short, kept⟩ := exists_kept cipher
  rw [advance_eq _ _ _ short kept]
  by_cases full : rest.length = 16
  · obtain ⟨block, rfl⟩ := Block.exists_eq_toBytes full
    have split : Block.splitAll (Block.join blocks ++ block.toBytes) = (blocks ++ [block], []) :=
      Block.splitAll_eq_iff.mpr ⟨by simp, by simp⟩
    simp only [final, Block.ofBytes?_toBytes, Cbc.decrypt?, split, Cbc.decryptBlocks_append,
      Cbc.decryptBlocks, List.getLast?_concat, List.dropLast_concat, Option.bind_eq_bind,
      Option.bind_some]
    cases Cbc.unpad? ((schedule.decrypt block).xor (blocks.getLastD chain)) with
    | none => simp
    | some ending => simp
  · have incomplete : rest.length < 16 := by omega
    simp only [final, Block.ofBytes?_eq_none full, Cbc.decrypt?,
      Block.splitAll_join_append blocks incomplete, Outcome.map_error, reduceCtorEq, false_iff]
    cases rest with
    | nil => simp [kept rfl, Cbc.decryptBlocks]
    | cons byte rest => simp

end CbcDecryptor

namespace Decryptor

/-- What is put out for a cipher text that is written at once, up to the end. -/
def whole (decryptor : Decryptor) (cipher : Bytes) : Except Error Bytes := do
  let (decryptor, front) ← push write decryptor cipher
  let back ← decryptor.finish.2
  .ok (front ++ back)

theorem whole_cbc (stream : CbcDecryptor) (cipher : Bytes) :
    whole (.cbc stream) cipher =
      push CbcDecryptor.write stream cipher >>= fun pushed =>
        pushed.1.finish.2.map (pushed.2 ++ ·) := by
  rw [whole, push_of_wrapped CbcDecryptor.write fun _ _ => rfl]
  cases push CbcDecryptor.write stream cipher with
  | error error => rfl
  | ok pushed =>
      simp only [Outcome.map_ok, Outcome.ok_bind, Prod.map, finish, id_eq]
      cases pushed.1.finish.2 with
      | error error => rfl
      | ok back => rfl

/-- A decryptor of chained blocks accepts a vector and what is encrypted with it. -/
theorem whole_cbc_eq_ok {key : Aes.Key} {cipher message : Bytes} :
    whole (.cbc ⟨key.bytes, .collecting [], false⟩) cipher = .ok message ↔
      ∃ iv : Block, cipher = iv.toBytes ++ Cbc.encrypt (.ofKey key) iv message := by
  rw [whole_cbc]
  by_cases long : Block.size ≤ cipher.length
  · obtain ⟨iv, rest, rfl⟩ := Block.exists_eq_toBytes_append long
    have complete : ([] : Bytes).length + iv.toBytes.length = Block.size := by simp [Block.size]
    rw [CbcDecryptor.push_complete key.bytes complete, Key.ofBytes?_bytes, List.nil_append,
      Block.ofBytes_toBytes]
    simp only [Outcome.ok_bind, CbcDecryptor.finish, Bool.false_eq_true, if_false,
      CbcDecryptor.final_advance_eq_ok]
    constructor
    · rintro rfl
      exact ⟨iv, rfl⟩
    · rintro ⟨other, equality⟩
      have parts := List.append_inj equality (by simp)
      rw [Block.toBytes_injective parts.1]
      exact parts.2
  · have short : ([] : Bytes).length + cipher.length < Block.size := by
      rw [List.length_nil]
      omega
    rw [CbcDecryptor.push_incomplete key.bytes short]
    simp only [Outcome.ok_bind, CbcDecryptor.finish, CbcDecryptor.final, Bool.false_eq_true,
      if_false, Outcome.map_error, reduceCtorEq, false_iff, not_exists]
    rintro iv rfl
    rw [List.length_append, Block.length_toBytes, Block.size] at long
    omega

/-- A decryptor in Galois/counter mode accepts a nonce and what is encrypted with
it. -/
theorem whole_gcm_eq_ok {schedule : Schedule} {associated cipher message : Bytes} :
    whole (.gcm ⟨schedule, associated, [], false⟩) cipher = .ok message ↔
      ∃ nonce : Bytes, nonce.length = Gcm.nonceSize ∧
        cipher = nonce ++ Gcm.encrypt schedule nonce associated message := by
  have pushed : push write (.gcm ⟨schedule, associated, [], false⟩) cipher =
      .ok (.gcm ⟨schedule, associated, cipher, false⟩, []) := by
    simp [push, write, GcmDecryptor.write]
  rw [whole, pushed]
  simp only [Outcome.ok_bind, finish, GcmDecryptor.finish, Bool.false_eq_true, if_false]
  by_cases short : (cipher.take Gcm.nonceSize).length < Gcm.nonceSize
  · simp only [short, if_true]
    constructor
    · intro opened
      cases opened
    · rintro ⟨nonce, length, rfl⟩
      rw [← length, List.take_left] at short
      omega
  · have length : (cipher.take Gcm.nonceSize).length = Gcm.nonceSize := by
      rw [List.length_take] at short ⊢
      omega
    have opens : (∃ nonce : Bytes, nonce.length = Gcm.nonceSize ∧
        cipher = nonce ++ Gcm.encrypt schedule nonce associated message) ↔
        Gcm.decrypt? schedule (cipher.take Gcm.nonceSize) associated
          (cipher.drop Gcm.nonceSize) = some message := by
      rw [Gcm.decrypt?_eq_some_iff]
      constructor
      · rintro ⟨nonce, drawn, rfl⟩
        rw [List.take_left' drawn, List.drop_left' drawn]
      · intro equality
        exact ⟨_, length, by rw [← equality, List.take_append_drop]⟩
    rw [opens]
    simp only [short, if_false]
    cases Gcm.decrypt? schedule (cipher.take Gcm.nonceSize) associated
        (cipher.drop Gcm.nonceSize) with
    | none => simp
    | some found => simp

theorem whole_oaep_eq_ok {key : Rsa.PrivateKey} {cipher message : Bytes} :
    whole (.oaep (.start key)) cipher = .ok message ↔
      Rsa.Oaep.decrypt? key cipher = some message := by
  by_cases long : key.publicKey.length < cipher.length
  · have refused : push write (.oaep (.start key)) cipher = .error .invalidCryptoData := by
      simp [push, write, OaepDecryptor.start, OaepDecryptor.write, long]
    have other : cipher.length ≠ key.publicKey.length := by omega
    simp [whole, refused, Rsa.Oaep.decrypt?, other]
  · have pushed : push write (.oaep (.start key)) cipher =
        .ok (.oaep ⟨key, cipher, false⟩, []) := by
      simp [push, write, OaepDecryptor.start, OaepDecryptor.write, long]
    rw [whole, pushed]
    simp only [Outcome.ok_bind, finish, OaepDecryptor.finish, Bool.false_eq_true, if_false]
    cases Rsa.Oaep.decrypt? key cipher with
    | none => simp
    | some found => simp

end Decryptor

end VersionedKeys.Streaming
