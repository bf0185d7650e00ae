import Mathlib.Tactic.SplitIfs
import VersionedKeys.Dsa.Key
import VersionedKeys.Rsa.Key

/-!
# What the numbers of a key satisfy

The checks on the numbers of keys report the first fault.  That there is none says what all of
them ask for at once: `Rsa.privateFault?_eq_none_iff` and `Dsa.publicFault?_eq_none_iff`.
-/

namespace VersionedKeys

theorem Rsa.privateFault?_eq_none_iff {modulus exponent secret first second : Nat} :
    privateFault? modulus exponent secret first second = none ↔
      2 ≤ first ∧ 2 ≤ second ∧ first * second = modulus ∧
        secret * exponent % (first - 1) = 1 ∧ secret * exponent % (second - 1) = 1 := by
  rw [privateFault?]
  split_ifs <;> simp only [false_iff, true_iff] <;> omega

theorem Dsa.publicFault?_eq_none_iff {prime order generator value : Nat} :
    publicFault? prime order generator value = none ↔
      2 ≤ prime ∧ 2 ≤ order ∧ generator ≠ 0 ∧ generator ≤ prime ∧ 2 ≤ value ∧
        Number.powMod value order prime = 1 := by
  rw [publicFault?]
  split_ifs <;> simp only [false_iff, true_iff] <;> omega

end VersionedKeys
