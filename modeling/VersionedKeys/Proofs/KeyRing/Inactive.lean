import VersionedKeys.Proofs.Rotation

/-!
# Inactive keys among the candidates

Inactive versions come last in canonical order, so allowing them adds their keys
after all other candidates (`candidates_allowing`).  The keys in front answer as
they did before, and what they open or accept stays opened and accepted.
-/

namespace VersionedKeys

/-- A list in which all elements with a property stand at the end falls into those
without it and those with it. -/
theorem filter_append_filter_of_pairwise {Element : Type} {property : Element → Bool}
    {list : List Element}
    (last : list.Pairwise fun left right => property left = true → property right = true) :
    list.filter (fun element => !property element) ++ list.filter property = list := by
  induction list with
  | nil => rfl
  | cons element list inductionHypothesis =>
      rw [List.pairwise_cons] at last
      cases holds : property element with
      | false => simp [holds, inductionHypothesis last.2]
      | true =>
          -- From here on all have the property.
          have others : ∀ other ∈ list, property other = true :=
            fun other membership => last.1 other membership holds
          have none : list.filter (fun other => !property other) = [] :=
            List.filter_eq_nil_iff.mpr fun other membership => by simp [others other membership]
          simp [holds, none, List.filter_eq_self.mpr others]

theorem Artifact.firstOpened_append {head body message : Bytes} {keys : List Key}
    (opened : firstOpened head body keys = .ok message) (more : List Key) :
    firstOpened head body (keys ++ more) = .ok message := by
  induction keys with
  | nil => cases opened
  | cons key keys inductionHypothesis =>
      rw [List.cons_append, firstOpened]
      rw [firstOpened] at opened
      cases first : decryptWith key head body with
      | ok found =>
          rw [first] at opened
          exact opened
      | error error =>
          rw [first] at opened
          exact inductionHypothesis opened

namespace KeyRing

theorem checkWith_append {signed signature : Bytes} {keys : List Key}
    (accepted : checkWith signed signature keys = .ok ()) (more : List Key) :
    checkWith signed signature (keys ++ more) = .ok () := by
  induction keys with
  | nil => cases accepted
  | cons key keys inductionHypothesis =>
      obtain ⟨answer, answered, rest⟩ := Outcome.bind_eq_ok.mp accepted
      rw [List.cons_append, checkWith, answered, Outcome.ok_bind]
      cases answer with
      | true => rfl
      | false => exact inductionHypothesis rest

/-- The same ring, with or without inactive keys among the candidates. -/
def allowing (ring : KeyRing) (allowInactive : Bool) : KeyRing := { ring with allowInactive }

/-- The keys of inactive versions that have a hash. -/
def inactiveKeys (ring : KeyRing) (hash : KeyHash) : List Key :=
  ((ring.keys.filter fun entry => entry.1.status == .inactive).map (·.2)).filter (·.hash == hash)

section Canonical

variable {ring : KeyRing} (canonical : ring.Canonical)

include canonical

theorem Canonical.inactive_last :
    ring.keys.Pairwise fun left right =>
      (left.1.status == .inactive) = true → (right.1.status == .inactive) = true := by
  refine canonical.imp ?_
  intro left right ordered inactive
  rw [KeyVersion.canonicalCompare_ne_gt_iff, beq_iff_eq.mp inactive] at ordered
  cases status : right.1.status <;> simp [status, KeyStatus.rank] at ordered ⊢

theorem candidates_allowing (hash : KeyHash) :
    (ring.allowing true).candidates hash =
      (ring.allowing false).candidates hash ++ ring.inactiveKeys hash := by
  have usable : (ring.keys.filter fun entry => (ring.allowing true).isUsable entry.1) =
      (ring.keys.filter fun entry => (ring.allowing false).isUsable entry.1) ++
        ring.keys.filter fun entry => entry.1.status == .inactive := by
    refine Eq.trans ?_ (filter_append_filter_of_pairwise canonical.inactive_last).symm
    exact List.filter_eq_self.mpr fun entry _ => rfl
  simp only [candidates, inactiveKeys, allowing, ← List.filter_append, ← List.map_append]
  exact congrArg (fun entries => (entries.map Prod.snd).filter (·.hash == hash)) usable

theorem decrypt_allowing {artifact message : Bytes}
    (opened : Artifact.decrypt (ring.allowing false).candidates artifact = .ok message) :
    Artifact.decrypt (ring.allowing true).candidates artifact = .ok message := by
  cases parsed : Artifact.parse artifact with
  | error error =>
      rw [Artifact.decrypt_of_unparsed parsed] at opened
      cases opened
  | ok parts =>
      rw [Artifact.decrypt_eq_firstOpened parsed] at opened ⊢
      rw [candidates_allowing canonical]
      exact Artifact.firstOpened_append opened _

theorem check_allowing {hash : KeyHash} {signed signature : Bytes}
    (accepted : (ring.allowing false).check hash signed signature = .ok ()) :
    (ring.allowing true).check hash signed signature = .ok () := by
  rw [check_eq_checkWith] at accepted ⊢
  rw [candidates_allowing canonical]
  exact checkWith_append accepted _

end Canonical

end KeyRing

namespace Verifier

open Verifies

variable {ring : KeyRing} (canonical : ring.Canonical)

include canonical

theorem verify_allowing {data signature : Bytes}
    (verified : verify (Verifier.mk (ring.allowing false)) data signature = .ok ()) :
    verify (Verifier.mk (ring.allowing true)) data signature = .ok () := by
  obtain ⟨parts, parsed, accepted⟩ := Outcome.bind_eq_ok.mp verified
  exact Outcome.bind_eq_ok.mpr ⟨parts, parsed, KeyRing.check_allowing canonical accepted⟩

theorem attachedVerify_allowing {blob hidden message : Bytes}
    (verified : attachedVerify (Verifier.mk (ring.allowing false)) blob hidden = .ok message) :
    attachedVerify (Verifier.mk (ring.allowing true)) blob hidden = .ok message := by
  simp only [attachedVerify, Outcome.bind_eq_ok] at verified ⊢
  obtain ⟨parts, parsed, split, divided, signed, prefixed, done, accepted, result⟩ := verified
  exact ⟨parts, parsed, split, divided, signed, prefixed, done,
    KeyRing.check_allowing canonical accepted, result⟩

theorem timeoutVerify_allowing {data signature : Bytes} {clock after : Clock}
    (verified : timeoutVerify (Verifier.mk (ring.allowing false)) data signature clock =
      (.ok (), after)) :
    timeoutVerify (Verifier.mk (ring.allowing true)) data signature clock = (.ok (), after) := by
  rw [timeoutVerify] at verified ⊢
  split at verified
  · cases verified
  · dsimp only at verified ⊢
    split at verified
    · cases verified
    · split at verified
      · cases verified
      · next long inTime =>
          obtain ⟨accepted, rfl⟩ := Prod.mk.inj verified
          rw [if_neg long, if_neg inTime]
          exact congrArg (·, _) (KeyRing.check_allowing canonical accepted)

end Verifier

/-- Allowing inactive keys in a ring, loaded from any source for any purposes, adds
their keys after the candidates for every hash.  So what was decrypted or verified
without them is with them, and with the same message. -/
theorem KeyRing.allowing_inactive_keeps_successes {source : KeySource}
    {purposes : List KeyPurpose} {ring : KeyRing}
    (loaded : (source.loadRing purposes).1 = .ok ring) :
    (∀ hash, (ring.allowing true).candidates hash =
      (ring.allowing false).candidates hash ++ ring.inactiveKeys hash) ∧
    (∀ artifact message,
      Decrypts.decrypt (Crypter.mk (ring.allowing false)) artifact = .ok message →
        Decrypts.decrypt (Crypter.mk (ring.allowing true)) artifact = .ok message) ∧
    (∀ data signature,
      Verifies.verify (Verifier.mk (ring.allowing false)) data signature = .ok () →
        Verifies.verify (Verifier.mk (ring.allowing true)) data signature = .ok ()) ∧
    (∀ blob hidden message,
      Verifies.attachedVerify (Verifier.mk (ring.allowing false)) blob hidden = .ok message →
        Verifies.attachedVerify (Verifier.mk (ring.allowing true)) blob hidden = .ok message) ∧
    ∀ data signature clock after,
      Verifies.timeoutVerify (Verifier.mk (ring.allowing false)) data signature clock =
          (.ok (), after) →
        Verifies.timeoutVerify (Verifier.mk (ring.allowing true)) data signature clock =
          (.ok (), after) := by
  have canonical := (KeySource.loads_of_loadRing loaded).canonical
  refine ⟨candidates_allowing canonical, ?_, ?_, ?_, ?_⟩
  · intro artifact message opened
    exact decrypt_allowing canonical opened
  · intro data signature verified
    exact Verifier.verify_allowing canonical verified
  · intro blob hidden message verified
    exact Verifier.attachedVerify_allowing canonical verified
  · intro data signature clock after verified
    exact Verifier.timeoutVerify_allowing canonical verified

namespace Sample

/-- A key set with the same key twice, of which the older version is inactive. -/
def retired (purpose : KeyPurpose) (key : Key) : KeySet :=
  ⟨{ name := "sample", purpose, keyType := key.keyType,
     versions := [⟨1, .inactive, false⟩, ⟨2, .primary, false⟩] },
    [(1, key.toBytes), (2, key.toBytes)]⟩

def retiredRing (purpose : KeyPurpose) (key : Key) : KeyRing :=
  { name := "sample", purpose,
    keys := [(⟨2, .primary, false⟩, key), (⟨1, .inactive, false⟩, key)] }

theorem sortedVersions_retired (purpose : KeyPurpose) (key : Key) :
    (retired purpose key).metadata.sortedVersions =
      [⟨2, .primary, false⟩, ⟨1, .inactive, false⟩] :=
  Metadata.sortedVersions_of_pair rfl (by decide)

theorem loadRing_retired :
    ((KeySource.stored (retired .decryptAndEncrypt key)).loadRing [.decryptAndEncrypt]).1 =
      .ok (retiredRing .decryptAndEncrypt key) ∧
    ((KeySource.stored (retired .signAndVerify macKey)).loadRing [.signAndVerify]).1 =
      .ok (retiredRing .signAndVerify macKey) := by
  simp only [KeySource.loadRing, KeySource.metadata, sortedVersions_retired]
  exact ⟨rfl, rfl⟩

theorem candidates_retired (purpose : KeyPurpose) (key : Key) :
    ((retiredRing purpose key).allowing false).candidates key.hash = [key] ∧
      (retiredRing purpose key).inactiveKeys key.hash = [key] := by
  simp [KeyRing.candidates, KeyRing.isUsable, KeyRing.allowing, KeyRing.inactiveKeys, retiredRing]

end Sample

/-- An artifact and a signature under a key of which an older version is inactive. -/
theorem KeyRing.allowing_inactive_keeps_successes_sample :
    ((Sample.retiredRing .decryptAndEncrypt Sample.key).allowing true).candidates
        Sample.key.hash = [Sample.key, Sample.key] ∧
    (∃ artifact, Decrypts.decrypt
      (Crypter.mk ((Sample.retiredRing .decryptAndEncrypt Sample.key).allowing true))
        artifact = .ok [104, 105]) ∧
    Verifies.verify (Verifier.mk ((Sample.retiredRing .signAndVerify Sample.macKey).allowing true))
      [104, 105] (Artifact.header Sample.macKey.hash ++
        Digest.sha1.hmac (List.replicate 32 3) [104, 105, 0]) = .ok () := by
  obtain ⟨candidates, opens, -, -, -⟩ :=
    KeyRing.allowing_inactive_keeps_successes Sample.loadRing_retired.1
  obtain ⟨-, -, verifies, -, -⟩ :=
    KeyRing.allowing_inactive_keeps_successes Sample.loadRing_retired.2
  obtain ⟨first, inactive⟩ := Sample.candidates_retired .decryptAndEncrypt Sample.key
  refine ⟨?_, ?_, ?_⟩
  · rw [candidates, first, inactive]
    rfl
  · obtain ⟨body, opened⟩ := Sample.exists_opened [104, 105]
    exact ⟨_, opens _ _ (Artifact.decrypt_of_first first opened)⟩
  · have only := (Sample.candidates_retired .signAndVerify Sample.macKey).1
    have tagged : Sample.macKey.material = .hmacSha1 (List.replicate 32 3) := rfl
    refine verifies _ _ ?_
    rw [Verifies.verify_eq_checkWith (Artifact.parse_eq_ok_iff.mpr rfl)]
    refine (congrArg _ only).trans ?_
    exact KeyRing.checkWith_of_first (KeyRing.accepts_hmac_self tagged _) []

end VersionedKeys
