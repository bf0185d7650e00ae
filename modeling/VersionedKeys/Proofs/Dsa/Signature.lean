import Mathlib.Data.Nat.Prime.Basic
import VersionedKeys.Proofs.Dsa.Der
import VersionedKeys.Proofs.Dsa.Nonce

/-!
# Signatures with private keys of DSA

What a genuine key signs its public half accepts: `verify_of_sign?`.  The secret and the nonce
are exponents of the generator, and the equation between them modulo the order is what a
signature shows.  How long a signature is depends on the order only: `length_le_of_sign?`.  There
is one unless one of its two numbers is zero: `exists_sign?_iff`.
-/

namespace VersionedKeys.Dsa

/-- The numbers belong together, which reading a key does not check: the order is a prime below
the large modulus, the generator has it, and the public number is the power of the generator
with the secret. -/
structure PrivateKey.Genuine (key : PrivateKey) : Prop where
  order_prime : key.publicKey.order.Prime
  order_lt : key.publicKey.order < key.publicKey.prime
  generator_pow_order : key.publicKey.generator ^ key.publicKey.order % key.publicKey.prime = 1
  value_eq : key.publicKey.value = key.publicKey.generator ^ key.secret % key.publicKey.prime

/-- The signature of a digest, if the search for a nonce ends and there is one. -/
def sign? (key : PrivateKey) (digest : Bytes) : Option Bytes := do
  let (nonce, inverse) ← key.nonce? digest
  key.signWith? digest nonce inverse

theorem PublicKey.order_pos (key : PublicKey) : 0 < key.order := by
  have several := (publicFault?_eq_none_iff.mp key.sound).2.1
  omega

theorem PublicKey.firstNumber_lt (key : PublicKey) (nonce : Nat) :
    key.firstNumber nonce < key.order :=
  Nat.mod_lt _ key.order_pos

theorem PrivateKey.secondNumber_lt (key : PrivateKey) (digest : Bytes) (nonce inverse : Nat) :
    key.secondNumber digest nonce inverse < key.publicKey.order :=
  Nat.mod_lt _ key.publicKey.order_pos

theorem sign?_eq_some_iff {key : PrivateKey} {digest signature : Bytes} :
    sign? key digest = some signature ↔
      ∃ nonce inverse, key.nonce? digest = some (nonce, inverse) ∧
        key.publicKey.firstNumber nonce ≠ 0 ∧ key.secondNumber digest nonce inverse ≠ 0 ∧
        signature =
          Der.encode (key.publicKey.firstNumber nonce) (key.secondNumber digest nonce inverse) := by
  simp only [sign?, PrivateKey.signWith?, Option.bind_eq_bind, Option.bind_eq_some_iff,
    Option.ite_none_left_eq_some, Option.some.injEq, Prod.exists, not_or, and_assoc,
    eq_comm (a := signature), ne_eq]

theorem PrivateKey.signWith?_of_secondNumber {key : PrivateKey} {digest : Bytes}
    {nonce inverse : Nat} (zero : key.secondNumber digest nonce inverse = 0) :
    key.signWith? digest nonce inverse = none :=
  if_pos (.inr zero)

/-- Which inverse the nonce comes with does not count for whether the second number is zero. -/
theorem PrivateKey.secondNumber_eq_zero_iff {key : PrivateKey} {digest : Bytes}
    {nonce inverse : Nat} (drawn : key.nonce? digest = some (nonce, inverse)) :
    key.secondNumber digest nonce inverse = 0 ↔
      (key.publicKey.digestNumber digest + key.secret * key.publicKey.firstNumber nonce) %
        key.publicKey.order = 0 := by
  have inverts : nonce * inverse ≡ 1 [MOD key.publicKey.order] := mul_mod_of_nonce? drawn
  have coprime : inverse.Coprime key.publicKey.order :=
    Nat.Coprime.coprime_mul_left (inverts.gcd_eq.trans (Nat.gcd_one_left _))
  rw [secondNumber, ← Nat.dvd_iff_mod_eq_zero, ← Nat.dvd_iff_mod_eq_zero,
    coprime.symm.dvd_mul_left]

/-- There is a signature exactly if the two numbers that the first nonce gives are not zero. -/
theorem exists_sign?_iff {key : PrivateKey} {digest : Bytes} :
    (∃ signature, sign? key digest = some signature) ↔
      ∃ nonce, key.Draws digest nonce ∧ key.publicKey.firstNumber nonce ≠ 0 ∧
        (key.publicKey.digestNumber digest + key.secret * key.publicKey.firstNumber nonce) %
          key.publicKey.order ≠ 0 := by
  simp only [sign?_eq_some_iff]
  constructor
  · rintro ⟨signature, nonce, inverse, drawn, first, second, -⟩
    exact ⟨nonce, PrivateKey.exists_nonce?_iff.mp ⟨inverse, drawn⟩, first,
      (PrivateKey.secondNumber_eq_zero_iff drawn).not.mp second⟩
  · rintro ⟨nonce, draws, first, second⟩
    obtain ⟨inverse, drawn⟩ := PrivateKey.exists_nonce?_iff.mpr draws
    exact ⟨_, nonce, inverse, drawn, first,
      (PrivateKey.secondNumber_eq_zero_iff drawn).not.mpr second, rfl⟩

/-- Exponents of a generator count modulo its order. -/
theorem pow_modEq_pow {generator order prime : Nat}
    (cycle : generator ^ order ≡ 1 [MOD prime]) {left right : Nat}
    (same : left ≡ right [MOD order]) : generator ^ left ≡ generator ^ right [MOD prime] := by
  have reduced (exponent : Nat) :
      generator ^ exponent ≡ generator ^ (exponent % order) [MOD prime] := by
    calc
      generator ^ exponent
          = (generator ^ order) ^ (exponent / order) * generator ^ (exponent % order) := by
        rw [← Nat.pow_mul, ← Nat.pow_add, Nat.div_add_mod]
      _ ≡ 1 ^ (exponent / order) * generator ^ (exponent % order) [MOD prime] :=
        (cycle.pow _).mul_right _
      _ = generator ^ (exponent % order) := by rw [Nat.one_pow, Nat.one_mul]
  have remainder : left % order = right % order := same
  exact (reduced left).trans (remainder ▸ (reduced right).symm)

/-- The nonce follows from the two numbers of a signature and the secret. -/
theorem nonce_modEq {order nonce inverse number secret first second inverted : Nat}
    (nonceInverts : nonce * inverse ≡ 1 [MOD order])
    (made : second ≡ inverse * (number + secret * first) [MOD order])
    (secondInverts : second * inverted ≡ 1 [MOD order]) :
    number * inverted % order + secret * (first * inverted % order) ≡ nonce [MOD order] := by
  have shown : number + secret * first ≡ nonce * second [MOD order] := by
    calc
      number + secret * first = 1 * (number + secret * first) := (Nat.one_mul _).symm
      _ ≡ nonce * inverse * (number + secret * first) [MOD order] :=
        nonceInverts.symm.mul_right _
      _ = nonce * (inverse * (number + secret * first)) := Nat.mul_assoc _ _ _
      _ ≡ nonce * second [MOD order] := made.symm.mul_left _
  calc
    number * inverted % order + secret * (first * inverted % order)
        ≡ number * inverted + secret * (first * inverted) [MOD order] :=
      (Nat.mod_modEq _ _).add ((Nat.mod_modEq _ _).mul_left _)
    _ = (number + secret * first) * inverted := by ring
    _ ≡ nonce * second * inverted [MOD order] := shown.mul_right _
    _ = nonce * (second * inverted) := Nat.mul_assoc _ _ _
    _ ≡ nonce * 1 [MOD order] := secondInverts.mul_left _
    _ = nonce := Nat.mul_one _

namespace PrivateKey.Genuine

variable {key : PrivateKey} (genuine : key.Genuine)

include genuine

theorem verifyNumbers_eq_true {digest : Bytes} {nonce inverse first second : Nat}
    (nonceInverts : nonce * inverse % key.publicKey.order = 1 % key.publicKey.order)
    (firstMade : first =
      key.publicKey.generator ^ nonce % key.publicKey.prime % key.publicKey.order)
    (secondMade : second =
      inverse * (key.publicKey.digestNumber digest + key.secret * first) % key.publicKey.order)
    (firstNonzero : first ≠ 0) (secondNonzero : second ≠ 0) :
    verifyNumbers key.publicKey digest first second = true := by
  have firstSmall : first < key.publicKey.order :=
    firstMade ▸ Nat.mod_lt _ genuine.order_prime.pos
  have secondSmall : second < key.publicKey.order :=
    secondMade ▸ Nat.mod_lt _ genuine.order_prime.pos
  have coprime : second.Coprime key.publicKey.order :=
    (Nat.coprime_of_lt_prime secondNonzero secondSmall genuine.order_prime).symm
  obtain ⟨inverted, found⟩ := Number.exists_inverse? coprime genuine.order_prime.one_lt
  have cycle : key.publicKey.generator ^ key.publicKey.order ≡ 1 [MOD key.publicKey.prime] := by
    have larger : 1 < key.publicKey.prime :=
      genuine.order_prime.one_lt.trans genuine.order_lt
    rw [Nat.ModEq, genuine.generator_pow_order, Nat.mod_eq_of_lt larger]
  -- The two exponents that are computed from a signature add up to the nonce.
  have exponent := nonce_modEq nonceInverts
    (show second ≡ _ [MOD key.publicKey.order] from secondMade ▸ Nat.mod_modEq _ _)
    (Number.inverse?_eq_some found)
  have power : key.publicKey.generator ^
        (key.publicKey.digestNumber digest * inverted % key.publicKey.order) %
          key.publicKey.prime *
      (key.publicKey.value ^ (first * inverted % key.publicKey.order) % key.publicKey.prime) ≡
        key.publicKey.generator ^ nonce [MOD key.publicKey.prime] := by
    refine (((Nat.mod_modEq _ _).mul (Nat.mod_modEq _ _)).trans ?_).trans
      (pow_modEq_pow cycle exponent)
    rw [genuine.value_eq, Nat.pow_add, Nat.pow_mul]
    exact ((Nat.mod_modEq _ _).pow _).mul_left _
  rw [verifyNumbers, if_neg (by omega), found]
  simp only [Number.powMod_eq]
  rw [beq_iff_eq, show _ % key.publicKey.prime = _ from power]
  exact firstMade.symm

/-- What a genuine key signs its public half accepts. -/
theorem verify_of_sign? (short : Bytes.bitLength key.publicKey.prime ≤ 1024)
    {digest signature : Bytes} (made : sign? key digest = some signature) :
    verify key.publicKey digest signature = true := by
  obtain ⟨nonce, inverse, drawn, first, second, rfl⟩ := sign?_eq_some_iff.mp made
  have small {number : Nat} (below : number < key.publicKey.order) :
      Bytes.bitLength number ≤ 1024 :=
    (Bytes.bitLength_mono (below.trans genuine.order_lt).le).trans short
  rw [verify, Der.decode?_encode (small (key.publicKey.firstNumber_lt nonce))
    (small (key.secondNumber_lt digest nonce inverse))]
  exact genuine.verifyNumbers_eq_true (mul_mod_of_nonce? drawn)
    (by rw [PublicKey.firstNumber, Number.powMod_eq]) rfl first second

end PrivateKey.Genuine

/-- Both numbers of a signature are remainders modulo the order, whether or not it is prime. -/
theorem exists_encode_of_sign? {key : PrivateKey} {digest signature : Bytes}
    (made : sign? key digest = some signature) :
    ∃ first < key.publicKey.order, ∃ second < key.publicKey.order,
      signature = Der.encode first second := by
  obtain ⟨nonce, inverse, -, -, -, rfl⟩ := sign?_eq_some_iff.mp made
  exact ⟨_, key.publicKey.firstNumber_lt nonce, _, key.secondNumber_lt digest nonce inverse, rfl⟩

theorem length_le_of_sign? {key : PrivateKey}
    (short : Bytes.bitLength key.publicKey.order < 488) {digest signature : Bytes}
    (made : sign? key digest = some signature) :
    signature.length ≤ 2 * (Bytes.bitLength key.publicKey.order / 8) + 8 := by
  obtain ⟨first, firstBelow, second, secondBelow, rfl⟩ := exists_encode_of_sign? made
  have firstBits := Bytes.bitLength_mono firstBelow.le
  have secondBits := Bytes.bitLength_mono secondBelow.le
  rw [Der.length_encode (by omega)]
  omega

end VersionedKeys.Dsa
