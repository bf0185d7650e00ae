import VersionedKeys.Proofs.Artifact.Acceptance

/-!
# Failures to open

Whatever goes wrong, opening an artifact ends in one and the same error.  Keys
that do not open it leave no trace (`firstOpened_filter`), and neither does the
absence of any key (`decrypt_eq_firstOpened`).
-/

namespace VersionedKeys.Artifact

open Streaming

/-- Whether a key opens an artifact with a key hash and a body. -/
def opens (hash : KeyHash) (body : Bytes) (key : Key) : Bool :=
  (decryptWith key (header hash) body).isOk

theorem opens_eq_true_iff {hash : KeyHash} {body : Bytes} {key : Key} :
    opens hash body key = true ↔ ∃ message, decryptWith key (header hash) body = .ok message := by
  rw [opens]
  cases decryptWith key (header hash) body with
  | error error => simp [Except.isOk, Except.toBool]
  | ok message => simp [Except.isOk, Except.toBool]

theorem exists_write_decoy {opener : Opener} {mac : Digest.Hmac Digest.Sha1State}
    (missing : opener.decryptor = none) (decoy : opener.mac = some (.decoy (.running mac)))
    (bytes : Bytes) :
    ∃ next mac, opener.write bytes = .ok next ∧ next.decryptor = none ∧
      next.mac = some (.decoy (.running mac)) := by
  by_cases short : (opener.held ++ bytes).length ≤ opener.tagLength
  · exact ⟨_, mac, Opener.write_short short, missing, decoy⟩
  · obtain ⟨body, last, parts, length, present⟩ := Opener.exists_held (Nat.lt_of_not_le short)
    have written := Opener.write_long parts length present
    rw [missing, decoy] at written
    exact ⟨_, _, written, rfl, rfl⟩

theorem openBody_decoy (head body : Bytes) :
    openBody .decoy head body = .error .invalidCryptoData := by
  have consistent : ∀ decryptor,
      Decryption.decoy.decryptor = some decryptor → decryptor.Consistent := by
    intro decryptor present
    cases present
  have started : ∃ opener mac, Opener.start .decoy head = .ok opener ∧ opener.decryptor = none ∧
      opener.mac = some (.decoy (.running mac)) := ⟨_, _, rfl, rfl, rfl⟩
  obtain ⟨opener, mac, started, missing, decoy⟩ := started
  obtain ⟨next, final, written, nextMissing, nextDecoy⟩ := exists_write_decoy missing decoy body
  rw [openBody_eq (.decoy _) consistent, started, Outcome.ok_bind, written, Outcome.ok_bind,
    Opener.finish, nextMissing, Opener.verify, nextDecoy]
  rfl

theorem firstOpened_filter (hash : KeyHash) (body : Bytes) (keys : List Key) :
    firstOpened (header hash) body (keys.filter (opens hash body)) =
      firstOpened (header hash) body keys := by
  induction keys with
  | nil => rfl
  | cons key keys inductionHypothesis =>
      -- A key that fails is passed over on both sides, and the first that opens ends both.
      cases opened : decryptWith key (header hash) body with
      | error error =>
          have fails : opens hash body key = false := by rw [opens, opened]; rfl
          rw [List.filter_cons_of_neg (by simp [fails]), inductionHypothesis, firstOpened, opened]
      | ok message =>
          have holds : opens hash body key = true := opens_eq_true_iff.mpr ⟨message, opened⟩
          rw [List.filter_cons_of_pos holds, firstOpened, firstOpened, opened]

theorem firstOpened_eq_ok_or (head body : Bytes) (keys : List Key) :
    (∃ key ∈ keys, ∃ message, decryptWith key head body = .ok message ∧
        firstOpened head body keys = .ok message) ∨
      (∀ key ∈ keys, ∀ message, decryptWith key head body ≠ .ok message) ∧
        firstOpened head body keys = .error .invalidCryptoData := by
  induction keys with
  | nil => simp [firstOpened]
  | cons key keys inductionHypothesis =>
      cases opened : decryptWith key head body with
      | ok message =>
          exact .inl ⟨key, List.mem_cons_self, message, opened, by rw [firstOpened, opened]⟩
      | error error =>
          have passed : firstOpened head body (key :: keys) = firstOpened head body keys := by
            rw [firstOpened, opened]
          rw [passed]
          rcases inductionHypothesis with
            ⟨found, membership, message, first, result⟩ | ⟨none, result⟩
          · exact .inl ⟨found, List.mem_cons_of_mem _ membership, message, first, result⟩
          · refine .inr ⟨?_, result⟩
            intro other membership message
            rcases List.mem_cons.mp membership with rfl | later
            · simp [opened]
            · exact none other later message

/-- What is not an artifact is refused with the error of all failures. -/
theorem parse_eq_error {artifact : Bytes} {error : Error}
    (refused : parse artifact = .error error) : error = .invalidCryptoData := by
  unfold parse at refused
  split at refused
  · split at refused
    · cases refused
    · cases refused
      rfl
  · cases refused
    rfl

/-- The decoy does what the absence of keys would. -/
theorem decrypt_eq_firstOpened {artifact body : Bytes} {hash : KeyHash}
    (parsed : parse artifact = .ok (hash, body)) (candidates : KeyHash → List Key) :
    decrypt candidates artifact = firstOpened (header hash) body (candidates hash) := by
  rw [decrypt, parsed, Outcome.ok_bind]
  dsimp only
  cases candidates hash with
  | nil => exact openBody_decoy _ _
  | cons key keys => rfl

theorem decrypt_of_unparsed {artifact : Bytes} {error : Error}
    (refused : parse artifact = .error error) (candidates : KeyHash → List Key) :
    decrypt candidates artifact = .error .invalidCryptoData := by
  rw [decrypt, refused, parse_eq_error refused]
  rfl

/-- What is opened is opened by one of the keys that are tried. -/
theorem exists_key_of_decrypt {candidates : KeyHash → List Key} {artifact message : Bytes}
    (opened : decrypt candidates artifact = .ok message) :
    ∃ hash body, parse artifact = .ok (hash, body) ∧
      ∃ key ∈ candidates hash, decryptWith key (header hash) body = .ok message := by
  cases parsed : parse artifact with
  | error error =>
      rw [decrypt_of_unparsed parsed] at opened
      cases opened
  | ok parts =>
      obtain ⟨hash, body⟩ := parts
      rw [decrypt_eq_firstOpened parsed] at opened
      refine ⟨hash, body, rfl, ?_⟩
      rcases firstOpened_eq_ok_or (header hash) body (candidates hash) with
        ⟨key, membership, found, first, result⟩ | ⟨-, refused⟩
      · cases opened.symm.trans result
        exact ⟨key, membership, first⟩
      · cases opened.symm.trans refused

theorem decrypt_eq_ok_or (candidates : KeyHash → List Key) (artifact : Bytes) :
    (∃ message, decrypt candidates artifact = .ok message) ∨
      decrypt candidates artifact = .error .invalidCryptoData := by
  cases parsed : parse artifact with
  | error error => exact .inr (decrypt_of_unparsed parsed candidates)
  | ok result =>
      rw [decrypt_eq_firstOpened parsed]
      rcases firstOpened_eq_ok_or (header result.1) result.2 (candidates result.1) with
        ⟨key, -, message, -, first⟩ | ⟨-, refused⟩
      · exact .inl ⟨message, first⟩
      · exact .inr refused

end VersionedKeys.Artifact
