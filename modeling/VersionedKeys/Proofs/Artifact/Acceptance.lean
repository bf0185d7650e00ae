import VersionedKeys.Proofs.Artifact.Pieces

/-!
# What opens

An opener ends with a message exactly if the bytes before the tag decrypt to it
and the tag is that over the header and those bytes: `openBody_eq_ok_iff`.
-/

namespace VersionedKeys.Artifact

open Digest Streaming

/-- Whether the last bytes are the tag over those before them. -/
def Accepts : Option TagStream → (covered last : Bytes) → Prop
  | none, _, _ => True
  | some (.hmac (.running mac)), covered, last =>
      last = sha1.finishHmac (sha1.updateHmac mac covered)
  | some _, _, _ => False

namespace Opener

theorem exists_verify_eq {mac begun ended : Option TagStream} (running : Running mac)
    {head front last : Bytes} (headFed : feed mac head = .ok begun)
    (frontFed : feed begun front = .ok ended) (length : last.length = mac.elim 0 (·.tagLength))
    (decryptor : Option Decryptor) (message : Bytes) :
    ∃ valid, verify ⟨decryptor, ended, mac.elim 0 (·.tagLength), last, message⟩ = .ok valid ∧
      (valid = true ↔ Accepts mac (head ++ front) last) := by
  cases running with
  | absent =>
      cases headFed
      cases frontFed
      exact ⟨true, rfl, by simp [Accepts]⟩
  | hmac mac =>
      cases headFed
      cases frontFed
      have size : last.length = sha1Size := length
      refine ⟨_, rfl, ?_⟩
      simp [HmacStream.finish, HmacStream.tag, Accepts, size, List.take_of_length_le,
        HashFunction.updateHmac_append, TagStream.tagLength]
  | decoy mac =>
      cases headFed
      cases frontFed
      exact ⟨false, rfl, by simp [Accepts]⟩

theorem finish_ne_ok {opener : Opener} (failed : rest? opener.decryptor = none)
    (message : Bytes) : opener.finish ≠ .ok message := by
  intro opened
  simp only [finish, failed, Outcome.bind_eq_ok, reduceCtorEq, and_false, exists_false] at opened

theorem rest?_eq_some {decryptor : Decryptor} {rest : Bytes} :
    rest? (some decryptor) = some rest ↔ decryptor.finish.2 = .ok rest := by
  rw [rest?]
  obtain ⟨next, result⟩ := decryptor.finish
  cases result <;> simp

end Opener

section Streams

variable {streams : Decryption} {decryptor : Decryptor}
  (present : streams.decryptor = some decryptor) (running : Running streams.mac)
  (consistent : decryptor.Consistent)

include present running consistent

/-- A body that ends in as many bytes as a tag opens to a message exactly if the
part before them decrypts to it and they are the tag. -/
theorem openBody_append_eq_ok_iff {head front last message : Bytes}
    (length : last.length = streams.tagLength) (some : front ≠ []) :
    openBody streams head (front ++ last) = .ok message ↔
      decryptor.whole front = .ok message ∧ Accepts streams.mac (head ++ front) last := by
  obtain ⟨begun, headFed, begunRunning⟩ := running.exists_feed head
  obtain ⟨ended, frontFed, -⟩ := begunRunning.exists_feed front
  have written := Opener.write_long
    (show (Opener.mk streams.decryptor begun streams.tagLength [] []).held ++ (front ++ last) =
      front ++ last from rfl) length some
  have openerConsistent : ∀ other, streams.decryptor = Option.some other → other.Consistent := by
    intro other equality
    cases present.symm.trans equality
    exact consistent
  rw [openBody_eq running openerConsistent, Opener.start, headFed, Outcome.ok_bind,
    Outcome.ok_bind, written, frontFed, Outcome.ok_bind, present, Opener.decrypt_some,
    Decryptor.whole]
  cases push Decryptor.write decryptor front with
  | error error => simp
  | ok result =>
      obtain ⟨final, output⟩ := result
      obtain ⟨valid, verified, accepts⟩ := Opener.exists_verify_eq running headFed frontFed length
        (Option.some final) ([] ++ output)
      change Opener.verify ⟨_, _, streams.tagLength, _, _⟩ = _ at verified
      simp only [Outcome.map_ok, Outcome.ok_bind, Prod.map, id_eq, Opener.finish, verified]
      cases rest : final.finish.2 with
      | error error =>
          have failed : Opener.rest? (Option.some final) = none :=
            Option.eq_none_iff_forall_ne_some.mpr fun found equality => by
              simp [Opener.rest?_eq_some, rest] at equality
          simp [failed]
      | ok back =>
          rw [Opener.rest?_eq_some.mpr rest]
          cases valid with
          | false => simpa using fun _ => accepts
          | true => simpa using fun _ => accepts

/-- A body opens to a message exactly if it is a part that decrypts to the
message and the tag over the header and that part. -/
theorem openBody_eq_ok_iff (unfinished : ∀ output, decryptor.finish.2 ≠ .ok output)
    {head body message : Bytes} :
    openBody streams head body = .ok message ↔
      ∃ front last, body = front ++ last ∧ last.length = streams.tagLength ∧ front ≠ [] ∧
        decryptor.whole front = .ok message ∧ Accepts streams.mac (head ++ front) last := by
  by_cases long : streams.tagLength < body.length
  · obtain ⟨front, last, rfl, length, some⟩ := Opener.exists_held long
    rw [openBody_append_eq_ok_iff present running consistent length some]
    constructor
    · rintro ⟨decrypted, accepted⟩
      exact ⟨front, last, rfl, length, some, decrypted, accepted⟩
    · rintro ⟨other, otherLast, equality, otherLength, -, decrypted, accepted⟩
      obtain ⟨rfl, rfl⟩ := List.append_inj' equality (length.trans otherLength.symm)
      exact ⟨decrypted, accepted⟩
  · constructor
    · intro opened
      obtain ⟨begun, headFed, -⟩ := running.exists_feed head
      have openerConsistent :
          ∀ other, streams.decryptor = Option.some other → other.Consistent := by
        intro other equality
        cases present.symm.trans equality
        exact consistent
      rw [openBody_eq running openerConsistent, Opener.start, headFed, Outcome.ok_bind,
        Outcome.ok_bind, Opener.write_short (Nat.le_of_not_lt long), Outcome.ok_bind] at opened
      refine absurd opened (Opener.finish_ne_ok ?_ message)
      apply Option.eq_none_iff_forall_ne_some.mpr
      intro rest found
      rw [present] at found
      exact unfinished rest (Opener.rest?_eq_some.mp found)
    · rintro ⟨front, last, rfl, length, some, -⟩
      have positive := List.length_pos_iff.mpr some
      rw [List.length_append] at long
      omega

end Streams

end VersionedKeys.Artifact
