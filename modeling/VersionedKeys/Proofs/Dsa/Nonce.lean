import Mathlib.Data.Finset.Card
import Mathlib.Data.Nat.ModEq
import Mathlib.Logic.Function.Iterate
import VersionedKeys.Dsa.Signature
import VersionedKeys.Proofs.Bytes
import VersionedKeys.Proofs.Key.Checks
import VersionedKeys.Proofs.Number.Inverse

/-!
# The search for a nonce

The nonce of a signature is the first number drawn that is positive, below the order and coprime
to it (`PrivateKey.exists_nonce?_iff`).  If no number drawn will do, the search does not end:
`PrivateKey.nonce?_eq_none_iff`.
-/

namespace VersionedKeys.Dsa

/-- A number can be a nonce for an order. -/
structure Admits (order nonce : Nat) : Prop where
  positive : 0 < nonce
  small : nonce < order
  coprime : nonce.Coprime order

theorem exists_nonceOf?_iff {order nonce : Nat} {drawn : Bytes} :
    (∃ inverse, nonceOf? order drawn = some (nonce, inverse)) ↔
      drawn.toNat = nonce ∧ Admits order nonce := by
  simp only [nonceOf?, Option.bind_eq_bind, Option.bind_eq_some_iff,
    Option.ite_none_right_eq_some, Option.some.injEq, Prod.mk.injEq]
  constructor
  · rintro ⟨inverse, found, inverts, ⟨positive, small⟩, rfl, rfl⟩
    refine ⟨rfl, positive, small, ?_⟩
    have modulo : drawn.toNat * found ≡ 1 [MOD order] := Number.inverse?_eq_some inverts
    exact Nat.Coprime.coprime_mul_right (modulo.gcd_eq.trans (Nat.gcd_one_left order))
  · rintro ⟨rfl, admits⟩
    have several : 1 < order := lt_of_le_of_lt admits.positive admits.small
    obtain ⟨inverse, inverts⟩ := Number.exists_inverse? admits.coprime several
    exact ⟨inverse, inverse, inverts, ⟨admits.positive, admits.small⟩, rfl, rfl⟩

theorem nonceOf?_eq_none_iff {order : Nat} {drawn : Bytes} :
    nonceOf? order drawn = none ↔ ¬ Admits order drawn.toNat := by
  rw [Option.eq_none_iff_forall_ne_some]
  constructor
  · intro missing admits
    obtain ⟨inverse, found⟩ := exists_nonceOf?_iff.mpr ⟨rfl, admits⟩
    exact missing _ found
  · rintro refused ⟨nonce, inverse⟩ found
    obtain ⟨rfl, admits⟩ := exists_nonceOf?_iff.mp ⟨inverse, found⟩
    exact refused admits

/-- A nonce comes with its inverse modulo the order. -/
theorem mul_mod_of_nonceOf? {order nonce inverse : Nat} {drawn : Bytes}
    (found : nonceOf? order drawn = some (nonce, inverse)) :
    nonce * inverse % order = 1 % order := by
  simp only [nonceOf?, Option.bind_eq_bind, Option.bind_eq_some_iff,
    Option.ite_none_right_eq_some, Option.some.injEq, Prod.mk.injEq] at found
  obtain ⟨inverse, inverts, -, rfl, rfl⟩ := found
  exact Number.inverse?_eq_some inverts

/-- Steps through fewer states than a bound come to no new state from the bound on. -/
theorem exists_iterate_eq {State : Type} {next : State → State} {start : State}
    {code : State → Nat} {bound : Nat} (small : ∀ steps, code (next^[steps] start) < bound)
    (unique : ∀ left right, code (next^[left] start) = code (next^[right] start) →
      next^[left] start = next^[right] start) (steps : Nat) :
    ∃ early < bound, next^[early] start = next^[steps] start := by
  -- Among one more state than there can be two are the same, and the steps between them do nothing.
  obtain ⟨left, right, before, within, same⟩ : ∃ left right, left < right ∧ right ≤ bound ∧
      next^[left] start = next^[right] start := by
    obtain ⟨left, leftWithin, right, rightWithin, different, same⟩ :=
      Finset.exists_ne_map_eq_of_card_lt_of_maps_to
        (s := Finset.range (bound + 1)) (t := Finset.range bound)
        (f := fun steps => code (next^[steps] start)) (by simp)
        (fun steps _ => Finset.mem_coe.mpr (Finset.mem_range.mpr (small steps)))
    rw [Finset.mem_range] at leftWithin rightWithin
    rcases Nat.lt_or_gt_of_ne different with before | after
    · exact ⟨left, right, before, by omega, unique _ _ same⟩
    · exact ⟨right, left, after, by omega, unique _ _ same.symm⟩
  induction steps using Nat.strongRecOn with
  | ind steps inductionHypothesis =>
      by_cases early : steps < bound
      · exact ⟨steps, early, rfl⟩
      · obtain ⟨found, foundEarly, reached⟩ :=
          inductionHypothesis (steps - right + left) (by omega)
        refine ⟨found, foundEarly, reached.trans ?_⟩
        calc
          next^[steps - right + left] start = next^[steps - right] (next^[left] start) :=
            Function.iterate_add_apply _ _ _ _
          _ = next^[steps - right] (next^[right] start) := by rw [same]
          _ = next^[steps] start := by
            rw [← Function.iterate_add_apply, Nat.sub_add_cancel (by omega)]

namespace Generator

/-- Up to twenty bytes are the front of one value. -/
theorem draw_of_short (generator : Generator) {length : Nat} (positive : 0 < length)
    (short : length ≤ Digest.sha1Size) :
    (generator.draw length).1 =
      (Digest.sha1.hmac generator.key generator.value).take length := by
  have one : (length + Digest.sha1Size - 1) / Digest.sha1Size = 1 := by
    rw [Digest.sha1Size] at short ⊢
    omega
  rw [draw, one, values, values, List.flatten_singleton]

/-- The generator after a draw. -/
def next (length : Nat) (generator : Generator) : Generator := (generator.draw length).2

/-- The bytes that are drawn after some others of the same length. -/
def drawnAfter (length count : Nat) (generator : Generator) : Bytes :=
  ((next length)^[count] generator |>.draw length).1

/-- The number that is drawn after some others. -/
def numberAfter (length count : Nat) (generator : Generator) : Nat :=
  (generator.drawnAfter length count).toNat

theorem drawnAfter_succ (length count : Nat) (generator : Generator) :
    generator.drawnAfter length (count + 1) = (generator.next length).drawnAfter length count :=
  rfl

/-- The key and the value have twenty bytes. -/
structure Sized (generator : Generator) : Prop where
  key : generator.key.length = Digest.sha1Size
  value : generator.value.length = Digest.sha1Size

theorem sized_stir (generator : Generator) (more : Bytes) : (generator.stir more).Sized := by
  rw [stir]
  exact ⟨Digest.length_hmac_sha1 _ _, Digest.length_hmac_sha1 _ _⟩

/-- A generator as one number. -/
def code (generator : Generator) : Nat := (generator.key ++ generator.value).toNat

theorem Sized.code_lt {generator : Generator} (sized : generator.Sized) :
    generator.code < count := by
  have bound := Bytes.toNat_lt (generator.key ++ generator.value)
  rwa [List.length_append, sized.key, sized.value, ← Nat.two_mul] at bound

theorem Sized.eq_of_code {left right : Generator} (leftSized : left.Sized)
    (rightSized : right.Sized) (same : left.code = right.code) : left = right := by
  have lengths : (left.key ++ left.value).length = (right.key ++ right.value).length := by
    rw [List.length_append, List.length_append, leftSized.key, leftSized.value, rightSized.key,
      rightSized.value]
  have joined : left.key ++ left.value = right.key ++ right.value := by
    rw [← Bytes.ofNat_toNat (left.key ++ left.value), ← Bytes.ofNat_toNat (right.key ++ right.value),
      lengths]
    exact congrArg _ same
  obtain ⟨key, value⟩ := List.append_inj joined (leftSized.key.trans rightSized.key.symm)
  cases left
  cases right
  simp_all

/-- Whatever is drawn has been drawn before as many draws as there are generators. -/
theorem Sized.exists_drawnAfter_eq {generator : Generator} (sized : generator.Sized)
    (length steps : Nat) :
    ∃ early < count, generator.drawnAfter length early = generator.drawnAfter length steps := by
  have keeps (steps : Nat) : ((next length)^[steps] generator).Sized := by
    cases steps with
    | zero => exact sized
    | succ steps =>
        rw [Function.iterate_succ_apply']
        exact sized_stir _ _
  obtain ⟨early, before, same⟩ := exists_iterate_eq (fun steps => (keeps steps).code_lt)
    (fun left right => (keeps left).eq_of_code (keeps right)) steps
  exact ⟨early, before, by rw [drawnAfter, same, drawnAfter]⟩

end Generator

/-- The search gives the first nonce there is among the draws. -/
theorem searchNonce?_eq_some_iff {order length draws : Nat} {generator : Generator}
    {found : Nat × Nat} :
    searchNonce? order length draws generator = some found ↔
      ∃ count < draws, nonceOf? order (generator.drawnAfter length count) = some found ∧
        ∀ earlier < count, nonceOf? order (generator.drawnAfter length earlier) = none := by
  induction draws generalizing generator with
  | zero => simp [searchNonce?]
  | succ draws inductionHypothesis =>
      rw [searchNonce?]
      cases first : nonceOf? order (generator.draw length).1 with
      | some other =>
          simp only [first]
          constructor
          · rintro ⟨⟩
            exact ⟨0, Nat.succ_pos _, first, fun earlier before => absurd before (by omega)⟩
          · rintro ⟨count, -, fits, before⟩
            cases count with
            | zero => exact first.symm.trans fits
            | succ count => cases first.symm.trans (before 0 (Nat.succ_pos _))
      | none =>
          simp only [first]
          rw [inductionHypothesis]
          constructor
          · rintro ⟨count, within, fits, before⟩
            refine ⟨count + 1, Nat.succ_lt_succ within, fits, ?_⟩
            rintro (_ | earlier) earlierWithin
            · exact first
            · exact before earlier (Nat.lt_of_succ_lt_succ earlierWithin)
          · rintro ⟨_ | count, within, fits, before⟩
            · cases first.symm.trans fits
            · exact ⟨count, Nat.lt_of_succ_lt_succ within, fits, fun earlier earlierWithin =>
                before (earlier + 1) (Nat.succ_lt_succ earlierWithin)⟩

namespace PrivateKey

/-- The number that is drawn for a digest after some others. -/
def drawn (key : PrivateKey) (digest : Bytes) (count : Nat) : Nat :=
  (key.generator digest).numberAfter key.publicKey.orderLength count

/-- The first number drawn for a digest that can be a nonce. -/
def Draws (key : PrivateKey) (digest : Bytes) (nonce : Nat) : Prop :=
  ∃ count, key.drawn digest count = nonce ∧ Admits key.publicKey.order nonce ∧
    ∀ earlier < count, ¬ Admits key.publicKey.order (key.drawn digest earlier)

/-- As many draws as there are generators are enough: the first nonce there is comes among them. -/
theorem nonce?_eq_some_iff {key : PrivateKey} {digest : Bytes} {found : Nat × Nat} :
    key.nonce? digest = some found ↔
      ∃ count, nonceOf? key.publicKey.order
          ((key.generator digest).drawnAfter key.publicKey.orderLength count) = some found ∧
        ∀ earlier < count, nonceOf? key.publicKey.order
          ((key.generator digest).drawnAfter key.publicKey.orderLength earlier) = none := by
  have sized : (key.generator digest).Sized := Generator.sized_stir _ _
  rw [nonce?, searchNonce?_eq_some_iff]
  constructor
  · rintro ⟨count, -, fits, before⟩
    exact ⟨count, fits, before⟩
  · rintro ⟨count, fits, before⟩
    obtain ⟨early, within, same⟩ := sized.exists_drawnAfter_eq key.publicKey.orderLength count
    refine ⟨count, ?_, fits, before⟩
    by_contra late
    have unfit := before early (by omega)
    rw [same, fits] at unfit
    cases unfit

theorem exists_nonce?_iff {key : PrivateKey} {digest : Bytes} {nonce : Nat} :
    (∃ inverse, key.nonce? digest = some (nonce, inverse)) ↔ key.Draws digest nonce := by
  simp only [nonce?_eq_some_iff, nonceOf?_eq_none_iff, Draws, drawn, Generator.numberAfter,
    ← and_assoc, ← exists_nonceOf?_iff]
  exact exists_comm.trans (exists_congr fun count => exists_and_right)

/-- The search does not end exactly if nothing that is drawn can be a nonce. -/
theorem nonce?_eq_none_iff {key : PrivateKey} {digest : Bytes} :
    key.nonce? digest = none ↔ ∀ count, ¬ Admits key.publicKey.order (key.drawn digest count) := by
  rw [Option.eq_none_iff_forall_ne_some]
  constructor
  · intro missing count
    induction count using Nat.strongRecOn with
    | ind count inductionHypothesis =>
        intro admits
        obtain ⟨inverse, found⟩ := exists_nonce?_iff.mpr ⟨count, rfl, admits, inductionHypothesis⟩
        exact missing _ found
  · rintro refused ⟨nonce, inverse⟩ found
    obtain ⟨count, rfl, admits, -⟩ := exists_nonce?_iff.mp ⟨inverse, found⟩
    exact refused count admits

theorem mul_mod_of_nonce? {key : PrivateKey} {digest : Bytes} {nonce inverse : Nat}
    (found : key.nonce? digest = some (nonce, inverse)) :
    nonce * inverse % key.publicKey.order = 1 % key.publicKey.order := by
  obtain ⟨count, fits, -⟩ := nonce?_eq_some_iff.mp found
  exact mul_mod_of_nonceOf? fits

end PrivateKey

end VersionedKeys.Dsa
