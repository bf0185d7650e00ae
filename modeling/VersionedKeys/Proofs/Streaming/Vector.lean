import VersionedKeys.Proofs.Key.Parts
import VersionedKeys.Proofs.Streaming.Seamless

/-!
# Initialization vectors in front

An encryptor that sends its vector puts out what one that does not would, after the vector
(`Encryptor.drain_cbc`).  A decryptor that has taken the vector from its input is one that was
started with it (`Decryptor.drain_of_vector`), wherever the input is cut.  Input that ends before
the vector does is refused: `Decryptor.drain_of_short`.
-/

namespace VersionedKeys.Streaming

open Aes

namespace CbcEncryptor

theorem start_bytes (key : Aes.Key) (iv : Block) (ciphertextOnly : Bool) (random : Random) :
    start key.bytes (some iv) ciphertextOnly random =
      (.ok ⟨.ofKey key, if ciphertextOnly then [] else iv.toBytes, iv, [], false⟩, random) := by
  rw [start, Aes.Key.ofBytes?_bytes]

/-- Without a vector one is drawn. -/
theorem start_none (key : Bytes) (ciphertextOnly : Bool) (random : Random) :
    start key none ciphertextOnly random =
      start key (some (.ofBytes (random.draw Block.size).1)) ciphertextOnly
        (random.draw Block.size).2 := by
  rw [start, start]

end CbcEncryptor

namespace Encryptor

/-- What is put out for a message in one piece. -/
theorem drain_of_whole {encryptor : Encryptor} {message output : Bytes} {random after : Random}
    (made : encryptor.whole message random = (.ok output, after)) :
    encryptor.drain random [message] = (output, .ok ()) := by
  rw [whole] at made
  rw [drain, Streaming.drain]
  split at made
  · cases made
  · next next front pushed =>
      rw [pushed]
      obtain ⟨back, ended, rfl⟩ := Outcome.map_eq_ok.mp (congrArg Prod.fst made)
      simp only [Streaming.drain, ended]
      rfl

/-- In any pieces, what is put out is what goes out first and the cipher text. -/
theorem drain_cbc (key : Aes.Key) (lead : Bytes) (iv : Block) (random : Random)
    (pieces : List Bytes) :
    drain (.cbc ⟨.ofKey key, lead, iv, [], false⟩) random pieces =
      (lead ++ Cbc.encrypt (.ofKey key) iv pieces.flatten, .ok ()) := by
  have ready : Ready (.cbc ⟨.ofKey key, lead, iv, [], false⟩) := rfl
  have atOnce := (seamless random).drain_flatten ready pieces
  exact atOnce.trans (drain_of_whole (whole_cbc (.ofKey key) lead iv pieces.flatten random))

end Encryptor

namespace CbcDecryptor

theorem start_bytes (key : Aes.Key) (iv : Block) :
    start key.bytes (some iv) = .ok ⟨key.bytes, .decrypting (.ofKey key) iv [], false⟩ := by
  rw [start, Aes.Key.ofBytes?_bytes]

/-- When its vector has come, a decryptor is as if it had been started with it. -/
theorem push_vector (key : Aes.Key) (iv : Block) :
    push write ⟨key.bytes, .collecting [], false⟩ iv.toBytes =
      .ok (⟨key.bytes, .decrypting (.ofKey key) iv [], false⟩, []) := by
  have complete : ([] : Bytes).length + iv.toBytes.length = Block.size := by simp [Block.size]
  have pushed := push_complete key.bytes complete []
  rw [List.append_nil] at pushed
  rw [pushed, Aes.Key.ofBytes?_bytes]
  rfl

end CbcDecryptor

namespace Decryptor

theorem ready_collecting (key : Bytes) : Ready (.cbc ⟨key, .collecting [], false⟩) :=
  ⟨rfl, show 0 < Block.size by decide⟩

theorem drain_of_vector (key : Aes.Key) (iv : Block) {pieces others : List Bytes}
    (inFront : pieces.flatten = iv.toBytes ++ others.flatten) :
    drain (.cbc ⟨key.bytes, .collecting [], false⟩) pieces =
      drain (.cbc ⟨key.bytes, .decrypting (.ofKey key) iv [], false⟩) others := by
  have recut : pieces.flatten = (iv.toBytes :: others).flatten := inFront
  rw [drain, seamless.drain_eq (ready_collecting key.bytes) recut, Streaming.drain,
    push_of_wrapped CbcDecryptor.write fun _ _ => rfl, CbcDecryptor.push_vector]
  rfl

/-- What is put out for a cipher text in one piece. -/
theorem drain_of_whole {decryptor : Decryptor} {cipher message : Bytes}
    (opened : decryptor.whole cipher = .ok message) :
    decryptor.drain [cipher] = (message, .ok ()) := by
  obtain ⟨⟨next, front⟩, pushed, ended⟩ := Outcome.bind_eq_ok.mp opened
  obtain ⟨back, finished, joined⟩ := Outcome.bind_eq_ok.mp ended
  obtain rfl : front ++ back = message := Except.ok.inj joined
  rw [drain, Streaming.drain, pushed]
  simp only [Streaming.drain, finished]
  rfl

/-- A vector and a cipher text that are cut, and an empty piece. -/
theorem flatten_cut (vector cipher : Bytes) (within beyond : Nat) :
    [vector.take within, [], vector.drop within ++ cipher.take beyond,
      cipher.drop beyond].flatten = vector ++ cipher := by
  simp only [List.flatten_cons, List.flatten_nil, List.append_nil, List.nil_append,
    List.append_assoc, List.take_append_drop]
  rw [← List.append_assoc, List.take_append_drop]

/-- In any pieces, a vector and what is encrypted with it give the message. -/
theorem drain_encrypt (key : Aes.Key) (iv : Block) (message : Bytes) {pieces : List Bytes}
    (sent : pieces.flatten = iv.toBytes ++ Cbc.encrypt (.ofKey key) iv message) :
    drain (.cbc ⟨key.bytes, .collecting [], false⟩) pieces = (message, .ok ()) := by
  rw [drain, seamless.drain_flatten (ready_collecting key.bytes)]
  exact drain_of_whole (whole_cbc_eq_ok.mpr ⟨iv, sent⟩)

/-- Input that ends within the vector is refused, and nothing has been put out. -/
theorem drain_of_short (key : Bytes) {pieces : List Bytes}
    (short : pieces.flatten.length < Block.size) :
    drain (.cbc ⟨key, .collecting [], false⟩) pieces = ([], .error .invalidCryptoData) := by
  have incomplete : ([] : Bytes).length + pieces.flatten.length < Block.size := by
    rwa [List.length_nil, Nat.zero_add]
  rw [drain, seamless.drain_flatten (ready_collecting key), Streaming.drain,
    push_of_wrapped CbcDecryptor.write fun _ _ => rfl,
    CbcDecryptor.push_incomplete key incomplete]
  rfl

end Decryptor

/-- Whether the vector travels in front of the cipher text or is known to both sides makes no other
difference.  What is sent with it is the vector and what is sent without it, of a message in any
pieces.  What is received with it, cut anywhere, comes to the same output and the same outcome as
what follows the vector does for a decryptor that knows it.  Input that is shorter than a vector is
refused, with no output. -/
theorem vector_modes_agree (key : Aes.Key) :
    (∀ iv random, ∃ inFront bare,
      CbcEncryptor.start key.bytes (some iv) false random = (.ok inFront, random) ∧
      CbcEncryptor.start key.bytes (some iv) true random = (.ok bare, random) ∧
      ∀ pieces, ∃ cipher,
        Encryptor.drain (.cbc bare) random pieces = (cipher, .ok ()) ∧
        Encryptor.drain (.cbc inFront) random pieces = (iv.toBytes ++ cipher, .ok ())) ∧
    (∀ ciphertextOnly random,
      CbcEncryptor.start key.bytes none ciphertextOnly random =
        CbcEncryptor.start key.bytes (some (.ofBytes (random.draw Block.size).1)) ciphertextOnly
          (random.draw Block.size).2) ∧
    ∃ waiting, CbcDecryptor.start key.bytes none = .ok waiting ∧
      (∀ iv, ∃ bare, CbcDecryptor.start key.bytes (some iv) = .ok bare ∧
        ∀ pieces others : List Bytes, pieces.flatten = iv.toBytes ++ others.flatten →
          Decryptor.drain (.cbc waiting) pieces = Decryptor.drain (.cbc bare) others) ∧
      ∀ pieces : List Bytes, pieces.flatten.length < 16 →
        Decryptor.drain (.cbc waiting) pieces = ([], .error .invalidCryptoData) := by
  refine ⟨?_, CbcEncryptor.start_none key.bytes, ?_⟩
  · intro iv random
    refine ⟨_, _, CbcEncryptor.start_bytes key iv false random,
      CbcEncryptor.start_bytes key iv true random, ?_⟩
    intro pieces
    exact ⟨_, Encryptor.drain_cbc key [] iv random pieces,
      Encryptor.drain_cbc key iv.toBytes iv random pieces⟩
  · refine ⟨_, rfl, ?_, ?_⟩
    · intro iv
      refine ⟨_, CbcDecryptor.start_bytes key iv, ?_⟩
      intro pieces others inFront
      exact Decryptor.drain_of_vector key iv inFront
    · intro pieces short
      exact Decryptor.drain_of_short key.bytes short

/-- A vector and two cipher blocks, of which the vector and the second block are cut, and a vector
that does not come whole. -/
theorem vector_modes_agree_sample :
    let key : Aes.Key := ⟨List.replicate 16 7, .inl rfl⟩
    let iv : Block := .ofBytes (List.replicate 16 1)
    let message := List.replicate 20 5
    let cipher := Cbc.encrypt (.ofKey key) iv message
    let waiting : Decryptor := .cbc ⟨key.bytes, .collecting [], false⟩
    let knowing : Decryptor := .cbc ⟨key.bytes, .decrypting (.ofKey key) iv [], false⟩
    let pieces := [iv.toBytes.take 3, [], iv.toBytes.drop 3 ++ cipher.take 17, cipher.drop 17]
    cipher.length = 32 ∧
      Decryptor.drain waiting pieces = (message, .ok ()) ∧
      Decryptor.drain knowing [cipher] = (message, .ok ()) ∧
      Decryptor.drain waiting [[1, 1], List.replicate 13 1] = ([], .error .invalidCryptoData) := by
  intro key iv message cipher waiting knowing pieces
  obtain ⟨-, -, collecting, started, agrees, refuses⟩ := vector_modes_agree key
  cases started
  obtain ⟨bare, bareStarted, same⟩ := agrees iv
  rw [CbcDecryptor.start_bytes] at bareStarted
  cases bareStarted
  have blocks : cipher.length = 32 := by
    rw [Cbc.length_encrypt, List.length_replicate]
  have sent : pieces.flatten = iv.toBytes ++ cipher := Decryptor.flatten_cut _ _ 3 17
  have received := Decryptor.drain_encrypt key iv message sent
  have agreed := same pieces [cipher] (by rw [sent, List.flatten_singleton])
  exact ⟨blocks, received, agreed.symm.trans received, refuses _ (by decide)⟩

end VersionedKeys.Streaming
