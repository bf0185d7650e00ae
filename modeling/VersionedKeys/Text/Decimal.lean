import VersionedKeys.Bytes

/-!
# Decimal text of floating point numbers

A binary number is written with the fewest decimal digits that still single it
out among the numbers of 64 bits, the nearest of those, in positional notation
and always with a point.
-/

namespace VersionedKeys.Text

/-- A floating point number: a finite one is `mantissa * 2 ^ exponent`. -/
inductive BinaryNumber where
  | notANumber
  | infinite (negative : Bool)
  | finite (negative : Bool) (mantissa : Nat) (exponent : Int)
  deriving DecidableEq, Repr

namespace BinaryNumber

/-- Decode a sign bit, `exponentBits` bits of biased exponent and
`fractionBits` bits of fraction. -/
def ofFields (exponentBits fractionBits bits : Nat) : BinaryNumber :=
  let fractions := Nat.pow 2 fractionBits
  let exponents := Nat.pow 2 exponentBits
  let fraction := bits % fractions
  let biased := bits / fractions % exponents
  let negative := bits / (fractions * exponents) % 2 == 1
  let shift : Int := 2 - (exponents / 2 : Nat) - fractionBits
  if biased = exponents - 1 then
    if fraction = 0 then infinite negative else notANumber
  else if biased = 0 then finite negative fraction shift
  else finite negative (fractions + fraction) (shift + (biased - 1 : Nat))

/-- Decode a number of 2, 4 or 8 bytes. -/
def ofBits (width bits : Nat) : BinaryNumber :=
  match width with
  | 2 => ofFields 5 10 bits
  | 4 => ofFields 8 23 bits
  | _ => ofFields 11 52 bits

end BinaryNumber

/-- A non-negative fraction of two whole numbers. -/
structure Ratio where
  numerator : Nat
  denominator : Nat

/-- The number `value * base ^ exponent`. -/
def Ratio.scaled (value base : Nat) (exponent : Int) : Ratio :=
  if 0 ≤ exponent then ⟨value * base.pow exponent.toNat, 1⟩
  else ⟨value, base.pow (-exponent).toNat⟩

def Ratio.less (left right : Ratio) : Bool :=
  left.numerator * right.denominator < right.numerator * left.denominator

/-- The largest `p` among -400 to 399 with `10 ^ p` at most the value. -/
def decimalOrder (value : Ratio) : Int :=
  ((List.range 800).map fun (index : Nat) => (399 : Int) - index).find?
    (fun order => !value.less (Ratio.scaled 1 10 order)) |>.getD (-400)

/-- The multiple of `10 ^ exponent` next to the value, if one of the two
neighbours lies in the interval that rounds to it; of two the nearer, in a tie
the upper.  The interval has its ends if `closed`. -/
def gridPoint? (low value high : Ratio) (closed : Bool) (exponent : Int) : Option Nat :=
  let unit := Ratio.scaled 1 10 exponent
  let below := value.numerator * unit.denominator / (value.denominator * unit.numerator)
  let inside (digits : Nat) : Bool :=
    let point := Ratio.scaled digits 10 exponent
    if closed then !point.less low && !high.less point else low.less point && point.less high
  let half := Ratio.scaled (2 * below + 1) 10 exponent
  let twice : Ratio := ⟨2 * value.numerator, value.denominator⟩
  match inside below, inside (below + 1) with
  | false, false => none
  | true, false => some below
  | false, true => some (below + 1)
  | true, true => some (if twice.less half then below else below + 1)

/-- The fewest digits, as a number and a power of ten, that single out the
positive number `mantissa * 2 ^ exponent` among those of 53 bits. -/
def shortestDigits (mantissa : Nat) (exponent : Int) : Nat × Int :=
  let shift := min (53 - Bytes.bitLength mantissa) (exponent + 1074).toNat
  let mantissa := mantissa <<< shift
  let exponent := exponent - shift
  let below := if mantissa = 0x10000000000000 ∧ -1074 < exponent then 1 else 2
  let at4 (value : Nat) := Ratio.scaled value 2 (exponent - 2)
  let value := at4 (4 * mantissa)
  let order := decimalOrder value
  let hit := (List.range 18).findSome? fun (count : Nat) =>
    (gridPoint? (at4 (4 * mantissa - below)) value (at4 (4 * mantissa + 2))
      (mantissa % 2 == 0) (order - count)).map fun digits => (digits, order - count)
  hit.getD (0, 0)

/-- The positional text of `digits * 10 ^ exponent`. -/
def positional (digits : Nat) (exponent : Int) : String :=
  if 0 ≤ exponent then toString (digits * Nat.pow 10 exponent.toNat) ++ ".0"
  else
    let places := (-exponent).toNat
    let written := (toString digits).toList
    let padded := List.replicate (places + 1 - written.length) '0' ++ written
    let (whole, fraction) := padded.splitAt (padded.length - places)
    let fraction := (fraction.reverse.dropWhile (· == '0')).reverse
    String.ofList whole ++ "." ++ (if fraction.isEmpty then "0" else String.ofList fraction)

def BinaryNumber.text : BinaryNumber → String
  | notANumber => "NaN"
  | infinite negative => if negative then "-inf" else "inf"
  | finite negative mantissa exponent =>
      let sign := if negative then "-" else ""
      if mantissa = 0 then sign ++ "0.0"
      else
        let (digits, order) := shortestDigits mantissa exponent
        sign ++ positional digits order

end VersionedKeys.Text
