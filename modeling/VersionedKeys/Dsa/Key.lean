import VersionedKeys.Number.Modular

/-!
# DSA keys

A key is a list of numbers that has passed the checks below.  That the moduli
are prime is not checked, nor is the order of the generator.
-/

namespace VersionedKeys.Dsa

/-- The part of a key in which a number is bad. -/
inductive Fault where
  | parameters
  | publicKey
  | privateKey
  deriving DecidableEq, Repr

def Fault.message : Fault → String
  | parameters => "bad DSA parameters: signature error"
  | publicKey => "bad DSA public key: signature error"
  | privateKey => "bad DSA private key: signature error"

/-- The fault of a public key: `prime` is the large modulus, `order` the small
one, `generator` the base of the powers and `value` the public power. -/
def publicFault? (prime order generator value : Nat) : Option Fault :=
  if prime < 2 ∨ order < 2 ∨ generator = 0 ∨ prime < generator then some .parameters
  else if value < 2 ∨ Number.powMod value order prime ≠ 1 then some .publicKey
  else none

/-- The fault of a secret exponent. -/
def privateFault? (order secret : Nat) : Option Fault :=
  if secret = 0 ∨ order < secret then some .privateKey else none

/-- A public key. -/
structure PublicKey where
  prime : Nat
  order : Nat
  generator : Nat
  value : Nat
  /-- The numbers pass the checks. -/
  sound : publicFault? prime order generator value = none
  deriving DecidableEq

/-- A private key. -/
structure PrivateKey where
  publicKey : PublicKey
  secret : Nat
  /-- The secret exponent passes the checks. -/
  sound : privateFault? publicKey.order secret = none
  deriving DecidableEq

/-- A public key that passes the checks. -/
def PublicKey.ofNumbers (prime order generator value : Nat) : Except Fault PublicKey :=
  match sound : publicFault? prime order generator value with
  | some fault => .error fault
  | none => .ok ⟨prime, order, generator, value, sound⟩

def PrivateKey.ofNumbers (publicKey : PublicKey) (secret : Nat) : Except Fault PrivateKey :=
  match sound : privateFault? publicKey.order secret with
  | some fault => .error fault
  | none => .ok ⟨publicKey, secret, sound⟩

end VersionedKeys.Dsa
