import VersionedKeys.Proofs.Artifact.Failure
import VersionedKeys.Proofs.Artifact.Transfer
import VersionedKeys.Proofs.RoundTrip
import VersionedKeys.Session

/-!
# Release of messages

What is decrypted from a source goes to a sink only after all of the artifact has been
read and authenticated.  Until then every failure leaves the sink as it was, and
afterwards the sink gets a beginning of the message (`Decrypts.releases_authenticated`).
-/

namespace VersionedKeys

namespace Decrypts

section Stream

variable {Holder : Type} [Decrypts Holder] {holder : Holder} {source : Source}
  {artifact : Bytes}

theorem decryptStream_of_breaks {reason : String} (breaks : source.Breaks reason) (sink : Sink) :
    decryptStream holder source sink = (.error (.transfer (.readFailed reason)), sink) := by
  rw [decryptStream, Source.readAll_of_breaks breaks]
  rfl

theorem decryptStream_of_refused (delivers : source.Delivers artifact) {error : Error}
    (refused : decrypt holder artifact = .error error) (sink : Sink) :
    decryptStream holder source sink = (.error error, sink) := by
  rw [decryptStream, Source.readAll_eq_ok_iff.mpr delivers]
  simp only [Except.bind, refused]

theorem decryptStream_of_opened (delivers : source.Delivers artifact) {message : Bytes}
    (opened : decrypt holder artifact = .ok message) (sink : Sink) :
    decryptStream holder source sink = sink.deliver (message, .ok ()) := by
  rw [decryptStream, Source.readAll_eq_ok_iff.mpr delivers]
  simp only [Except.bind, opened, Sink.deliver]
  obtain ⟨result, after⟩ := sink.write message
  cases result <;> rfl

/-- Only the artifact counts, and not how a source delivers it. -/
theorem decryptStream_eq {other : Source} (delivers : source.Delivers artifact)
    (again : other.Delivers artifact) (sink : Sink) :
    decryptStream holder other sink = decryptStream holder source sink := by
  rw [decryptStream, decryptStream, Source.readAll_eq_ok_iff.mpr delivers,
    Source.readAll_eq_ok_iff.mpr again]

end Stream

/-- Every source breaks or delivers an artifact.  A sink gets nothing from a source that
breaks, and nothing of an artifact that does not open.  Of one that opens under a key
that is tried, it gets a beginning of the message: all of it if the outcome is good, which it
is exactly if the sink has room and can be flushed.  How the artifact is delivered makes
no difference. -/
theorem releases_authenticated {Holder : Type} [Decrypts Holder] (holder : Holder)
    (source : Source) (sink : Sink) :
    ((∃ artifact, source.Delivers artifact) ∨ ∃ reason, source.Breaks reason) ∧
    (∀ reason, source.Breaks reason →
      decryptStream holder source sink = (.error (.transfer (.readFailed reason)), sink)) ∧
    ∀ artifact, source.Delivers artifact →
      (∀ error, decrypt holder artifact = .error error →
        decryptStream holder source sink = (.error error, sink)) ∧
      (∀ message, decrypt holder artifact = .ok message →
        (∃ hash body, artifact = Artifact.header hash ++ body ∧
          ∃ key ∈ decryptionKeys holder hash,
            Artifact.decryptWith key (Artifact.header hash) body = .ok message) ∧
        (∃ received, received <+: message ∧
          sink.Received received (decryptStream holder source sink).2 ∧
          ((decryptStream holder source sink).1 = .ok () → received = message)) ∧
        ((decryptStream holder source sink).1 = .ok () ↔
          sink.HasRoom message.length ∧ sink.flushFails = false)) ∧
      ∀ other, other.Delivers artifact →
        decryptStream holder other sink = decryptStream holder source sink := by
  refine ⟨source.delivers_or_breaks, ?_, ?_⟩
  · intro reason breaks
    exact decryptStream_of_breaks breaks sink
  · intro artifact delivers
    refine ⟨?_, ?_, ?_⟩
    · intro error refused
      exact decryptStream_of_refused delivers refused sink
    · intro message opened
      obtain ⟨hash, body, parsed, key, membership, first⟩ := Artifact.exists_key_of_decrypt opened
      rw [decryptStream_of_opened delivers opened]
      exact ⟨⟨hash, body, Artifact.parse_eq_ok_iff.mp parsed, key, membership, first⟩,
        sink.exists_received message, sink.deliver_eq_ok_iff message⟩
    · intro other again
      exact decryptStream_eq delivers again sink

/-- An artifact is sent to a crypter in two chunks, with an interruption in between.  If the
source fails after the first the sink gets nothing, and else as many bytes of the message
as it has room for.  A session gets what is not an artifact. -/
theorem releases_authenticated_sample :
    ∃ front back : Bytes,
      decryptStream Sample.crypter [.chunk front, .interruption, .failure "gone"] {} =
        (.error (.transfer (.readFailed "gone")), {}) ∧
      (decryptStream Sample.crypter [.chunk front, .interruption, .chunk back]
        { room := some 1 }).1 ≠ .ok () ∧
      (decryptStream Sample.crypter [.chunk front, .interruption, .chunk back]
        { room := some 2 }).1 = .ok () ∧
      decryptStream (Session.mk Sample.key) [.chunk [104, 105]] {} =
        (.error .invalidCryptoData, {}) := by
  obtain ⟨body, opened⟩ := Sample.exists_opened [104, 105]
  obtain ⟨rest, first⟩ := KeyRing.candidates_of_primary
    (Crypter.loads_of_load Sample.load_crypter).canonical
    (show Sample.crypter.ring.primary = .ok Sample.key from rfl)
  have decrypted : decrypt Sample.crypter (Artifact.header Sample.key.hash ++ body) =
      .ok [104, 105] := Artifact.decrypt_of_first first opened
  have delivers : Source.Delivers
      [.chunk [0], .interruption, .chunk (Sample.key.hash.toBytes ++ body)]
      (Artifact.header Sample.key.hash ++ body) := by
    have last : Source.Delivers [.chunk (Sample.key.hash.toBytes ++ body)]
        (Sample.key.hash.toBytes ++ body ++ []) := .chunk (List.cons_ne_nil _ _) .exhausted
    rw [List.append_nil] at last
    exact .chunk (List.cons_ne_nil 0 []) (.interruption last)
  have outcome (room : Nat) :
      (decryptStream Sample.crypter
        [.chunk [0], .interruption, .chunk (Sample.key.hash.toBytes ++ body)]
        { room := some room }).1 = .ok () ↔ 2 ≤ room := by
    obtain ⟨-, -, delivered⟩ := releases_authenticated Sample.crypter
      [.chunk [0], .interruption, .chunk (Sample.key.hash.toBytes ++ body)] { room := some room }
    obtain ⟨-, sent, -⟩ := delivered _ delivers
    obtain ⟨-, -, complete⟩ := sent _ decrypted
    simpa [Sink.HasRoom] using complete
  refine ⟨[0], Sample.key.hash.toBytes ++ body, ?_, ?_, (outcome 2).mpr (by decide), ?_⟩
  · obtain ⟨-, broken, -⟩ := releases_authenticated Sample.crypter
      [.chunk [0], .interruption, .failure "gone"] {}
    exact broken "gone" (.chunk (List.cons_ne_nil _ _) (.interruption (.failure _ _)))
  · rw [ne_eq, outcome 1]
    decide
  · obtain ⟨-, -, delivered⟩ := releases_authenticated (Session.mk Sample.key)
      [.chunk [104, 105]] {}
    obtain ⟨refused, -⟩ := delivered [104, 105] (.chunk (List.cons_ne_nil _ _) .exhausted)
    exact refused _ rfl

end Decrypts

end VersionedKeys
