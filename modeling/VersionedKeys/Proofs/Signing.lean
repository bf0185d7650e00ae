import VersionedKeys.Proofs.KeyRing.Loading
import VersionedKeys.Signer

/-!
# Signatures

How a ring signs with an authentication key, and which candidates accept a
signature.
-/

namespace VersionedKeys

open Digest Streaming

theorem Signer.loads_of_load {source : KeySource} {signer : Signer}
    (loaded : (load source).1 = .ok signer) : source.Loads [.signAndVerify] signer.ring := by
  obtain ⟨ring, found, rfl⟩ := Outcome.map_eq_ok.mp loaded
  exact KeySource.loads_of_loadRing found

theorem Verifier.loads_of_load {source : KeySource} {allowInactive : Bool} {verifier : Verifier}
    (loaded : (load source allowInactive).1 = .ok verifier) :
    source.Loads [.signAndVerify, .verify] verifier.ring := by
  obtain ⟨ring, found, rfl⟩ := Outcome.map_eq_ok.mp loaded
  exact (KeySource.loads_of_loadRing found).allowing allowInactive

theorem Verifier.allowInactive_of_load {source : KeySource} {allowInactive : Bool}
    {verifier : Verifier} (loaded : (load source allowInactive).1 = .ok verifier) :
    verifier.ring.allowInactive = allowInactive := by
  obtain ⟨ring, -, rfl⟩ := Outcome.map_eq_ok.mp loaded
  rfl

theorem Key.exists_mac {key : Key} (authenticates : key.keyType = .hmacSha1) :
    ∃ mac, key.material = .hmacSha1 mac := by
  cases material : key.material with
  | hmacSha1 mac => exact ⟨mac, rfl⟩
  | _ => simp [keyType, material, Material.keyType] at authenticates

namespace KeyRing

theorem check_eq_checkWith (ring : KeyRing) (hash : KeyHash) (signed signature : Bytes) :
    ring.check hash signed signature = checkWith signed signature (ring.candidates hash) := by
  rw [check]
  cases ring.candidates hash with
  | nil => rfl
  | cons key keys => rfl

theorem checkWith_of_first {key : Key} {signed signature : Bytes}
    (accepted : accepts key signed signature = .ok true) (rest : List Key) :
    checkWith signed signature (key :: rest) = .ok () := by
  rw [checkWith, accepted]
  rfl

section Authentication

variable {key : Key} {mac : Bytes} (material : key.material = .hmacSha1 mac)

include material

theorem sign_hmac {ring : KeyRing} (primary : ring.primary = .ok key) (signed sent : Bytes) :
    ring.sign signed sent = .ok (Artifact.header key.hash ++ sent ++ sha1.hmac mac signed) := by
  rw [sign, primary, Outcome.ok_bind, Key.startSigning, material]
  rfl

theorem accepts_hmac (signed signature : Bytes) :
    accepts key signed signature =
      .ok (signature.take sha1Size == sha1.hmac mac signed) := by
  have verified : accepts key signed signature =
      .ok ((signature.take sha1Size).length == sha1Size &&
        signature.take sha1Size == sha1.hmac mac signed) := by
    rw [accepts, Key.startVerifying, material]
    rfl
  rw [verified, Except.ok.injEq]
  by_cases same : signature.take sha1Size = sha1.hmac mac signed
  · simp [same, length_hmac_sha1]
  · simp [same]

theorem accepts_hmac_self (signed : Bytes) :
    accepts key signed (sha1.hmac mac signed) = .ok true := by
  rw [accepts_hmac material, ← length_hmac_sha1 mac signed, List.take_length]
  simp

end Authentication

end KeyRing

theorem Verifies.verify_eq_checkWith {Holder : Type} [Verifies Holder] {holder : Holder}
    {data signature body : Bytes} {hash : KeyHash}
    (parsed : Artifact.parse signature = .ok (hash, body)) :
    verify holder data signature =
      KeyRing.checkWith (Signed.plain data) body ((ring holder).candidates hash) := by
  rw [verify, parsed, Outcome.ok_bind]
  exact KeyRing.check_eq_checkWith _ _ _ _

end VersionedKeys
