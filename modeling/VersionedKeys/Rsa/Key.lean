import VersionedKeys.Number.Modular

/-!
# RSA keys

A key is a list of numbers that has passed the checks below, in their order.
Whether the factors of the modulus are prime is not checked.
-/

namespace VersionedKeys.Rsa

/-- What is wrong with the numbers of a key. -/
inductive Fault where
  | modulusTooLarge
  | exponentTooLarge
  | exponentTooSmall
  | invalidModulus
  | invalidExponent
  | invalidPrime
  deriving DecidableEq, Repr

def Fault.message : Fault → String
  | modulusTooLarge => "modulus too large"
  | exponentTooLarge => "public exponent too large"
  | exponentTooSmall => "public exponent too small"
  | invalidModulus => "invalid modulus"
  | invalidExponent => "invalid exponent"
  | invalidPrime => "invalid prime value"

/-- The largest public exponent of 33 bits. -/
def largestExponent : Nat := 0x1FFFFFFFF

/-- The first fault of a public key, its length apart. -/
def publicFault? (modulus exponent : Nat) : Option Fault :=
  if 64 < Bytes.bitLength exponent then some .exponentTooLarge
  else if modulus ≤ exponent ∨ modulus % 2 = 0 then some .invalidModulus
  else if exponent % 2 = 0 then some .invalidExponent
  else if exponent < 2 then some .exponentTooSmall
  else if largestExponent < exponent then some .exponentTooLarge
  else none

/-- The first fault of a public key that is read by itself. -/
def readFault? (modulus exponent : Nat) : Option Fault :=
  if 4096 < Bytes.bitLength modulus then some .modulusTooLarge
  else publicFault? modulus exponent

/-- The first fault of the private numbers of a key whose public ones are good. -/
def privateFault? (modulus exponent secret first second : Nat) : Option Fault :=
  if first ≤ 1 ∨ second ≤ 1 then some .invalidPrime
  else if first * second ≠ modulus then some .invalidModulus
  else if secret * exponent % (first - 1) ≠ 1 ∨ secret * exponent % (second - 1) ≠ 1 then
    some .invalidExponent
  else none

/-- A public key. -/
structure PublicKey where
  modulus : Nat
  exponent : Nat
  /-- The numbers pass the checks. -/
  sound : publicFault? modulus exponent = none
  deriving DecidableEq

/-- A private key: the public one, the secret exponent, and the two factors of
the modulus. -/
structure PrivateKey where
  publicKey : PublicKey
  secret : Nat
  first : Nat
  second : Nat
  /-- The numbers pass the checks. -/
  sound : privateFault? publicKey.modulus publicKey.exponent secret first second = none
  deriving DecidableEq

def PublicKey.length (key : PublicKey) : Nat :=
  Bytes.byteLength key.modulus

/-- A public key of at most 4096 bits. -/
def PublicKey.ofNumbers (modulus exponent : Nat) : Except Fault PublicKey :=
  match readFault? modulus exponent with
  | some fault => .error fault
  | none =>
      match sound : publicFault? modulus exponent with
      | some fault => .error fault
      | none => .ok ⟨modulus, exponent, sound⟩

/-- A private key of any length. -/
def PrivateKey.ofNumbers (modulus exponent secret first second : Nat) :
    Except Fault PrivateKey :=
  match publicSound : publicFault? modulus exponent with
  | some fault => .error fault
  | none =>
      match sound : privateFault? modulus exponent secret first second with
      | some fault => .error fault
      | none => .ok ⟨⟨modulus, exponent, publicSound⟩, secret, first, second, sound⟩

/-- The public operation: the power with the public exponent. -/
def PublicKey.apply (key : PublicKey) (message : Nat) : Nat :=
  Number.powMod message key.exponent key.modulus

/-- The power with the secret exponent, put together from the powers modulo the
two factors where the second has an inverse modulo the first. -/
def PrivateKey.power (key : PrivateKey) (value : Nat) : Nat :=
  match Number.inverse? key.second key.first with
  | none => Number.powMod value key.secret key.publicKey.modulus
  | some inverse =>
      let one := Number.powMod value (key.secret % (key.first - 1)) key.first
      let two := Number.powMod value (key.secret % (key.second - 1)) key.second
      let difference := (one + key.first - two % key.first) % key.first
      two + difference * inverse % key.first * key.second

/-- The private operation: the number below the modulus whose public power is
the given one.  The power with the secret exponent is checked to be it. -/
def PrivateKey.root? (key : PrivateKey) (value : Nat) : Option Nat :=
  if value < key.publicKey.modulus then
    let message := key.power value
    if key.publicKey.apply message = value then some message else none
  else none

end VersionedKeys.Rsa
