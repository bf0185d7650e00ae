import VersionedKeys.Bytes

/-!
# Random bytes

All randomness comes from one deterministic stream: first the bytes of its
seed, then the high bytes of a 64-bit linear congruential generator.
-/

namespace VersionedKeys

/-- A stream of random bytes, as far as it has not been drawn yet. -/
structure Random where
  /-- Bytes that come before those of the generator. -/
  seed : Bytes := []
  /-- The state of the generator. -/
  state : UInt64 := 0
  deriving DecidableEq, Repr

namespace Random

/-- The stream that begins with the given bytes. -/
def ofSeed (seed : Bytes) : Random := ⟨seed, 0⟩

def next : Random → UInt8 × Random
  | ⟨byte :: seed, state⟩ => (byte, ⟨seed, state⟩)
  | ⟨[], state⟩ =>
      let state := state * 6364136223846793005 + 1442695040888963407
      ((state >>> 56).toUInt8, ⟨[], state⟩)

def draw : (count : Nat) → Random → Bytes × Random
  | 0, random => ([], random)
  | count + 1, random =>
      let (byte, random) := random.next
      let (bytes, random) := draw count random
      (byte :: bytes, random)

@[simp]
theorem length_draw (count : Nat) (random : Random) :
    (draw count random).1.length = count := by
  induction count generalizing random with
  | zero => rfl
  | succ count inductionHypothesis => simp [draw, inductionHypothesis]

/-- The seed is drawn first. -/
@[simp]
theorem draw_ofSeed (seed : Bytes) : (draw seed.length (ofSeed seed)).1 = seed := by
  rw [ofSeed]
  induction seed with
  | nil => rfl
  | cons byte seed inductionHypothesis => simp [draw, next, inductionHypothesis]

end Random

end VersionedKeys
