import VersionedKeys.Aes.Substitution

/-!
# The AES block cipher

A schedule is made from a key of 16, 24 or 32 bytes.  Each step of a round has
an inverse, and decryption takes the inverses in reverse order.
-/

namespace VersionedKeys.Aes

/-- A key of one of the three lengths of AES. -/
structure Key where
  bytes : Bytes
  /-- The length is one of the three. -/
  length_mem : bytes.length = 16 ∨ bytes.length = 24 ∨ bytes.length = 32
  deriving DecidableEq

def Key.ofBytes? (bytes : Bytes) : Option Key :=
  if proper : bytes.length = 16 ∨ bytes.length = 24 ∨ bytes.length = 32 then
    some ⟨bytes, proper⟩
  else none

/-- Multiply by the generator of the field of 256 elements. -/
def double (byte : UInt8) : UInt8 :=
  if byte < 0x80 then byte <<< 1 else (byte <<< 1) ^^^ 0x1B

/-- The rows of a block, the second, third and fourth turned to the left by
one, two and three bytes. -/
def shiftRows : Block → Block
  | ⟨w, x, y, z⟩ =>
      ⟨⟨w.a, x.b, y.c, z.d⟩, ⟨x.a, y.b, z.c, w.d⟩, ⟨y.a, z.b, w.c, x.d⟩, ⟨z.a, w.b, x.c, y.d⟩⟩

/-- The rows turned back to the right. -/
def unshiftRows : Block → Block
  | ⟨w, x, y, z⟩ =>
      ⟨⟨w.a, z.b, y.c, x.d⟩, ⟨x.a, w.b, z.c, y.d⟩, ⟨y.a, x.b, w.c, z.d⟩, ⟨z.a, y.b, x.c, w.d⟩⟩

/-- Multiply a column by the polynomial with coefficients 2, 1, 1, 3. -/
def mixColumn : Word → Word
  | ⟨a, b, c, d⟩ =>
      let all := a ^^^ b ^^^ c ^^^ d
      ⟨a ^^^ all ^^^ double (a ^^^ b), b ^^^ all ^^^ double (b ^^^ c),
        c ^^^ all ^^^ double (c ^^^ d), d ^^^ all ^^^ double (d ^^^ a)⟩

/-- Multiply a column by the inverse polynomial, which is the polynomial itself
after a multiplication by 5, 0, 4, 0. -/
def unmixColumn : Word → Word
  | ⟨a, b, c, d⟩ =>
      let even := double (double (a ^^^ c))
      let odd := double (double (b ^^^ d))
      mixColumn ⟨a ^^^ even, b ^^^ odd, c ^^^ even, d ^^^ odd⟩

/-- The keys of the rounds. -/
structure Schedule where
  /-- The key before the first round. -/
  first : Block
  /-- The keys of the full rounds. -/
  middle : List Block
  /-- The key of the last round, which does not mix columns. -/
  last : Block
  deriving DecidableEq, Repr

/-- Substitute, shift and mix. -/
def round (block : Block) : Block :=
  (shiftRows (block.map (·.map substitute))).map mixColumn

/-- The inverse of `round`. -/
def unround (block : Block) : Block :=
  (unshiftRows (block.map unmixColumn)).map (·.map unsubstitute)

namespace Schedule

def encrypt (schedule : Schedule) (block : Block) : Block :=
  let state := schedule.middle.foldl (fun state key => (round state).xor key)
    (block.xor schedule.first)
  (shiftRows (state.map (·.map substitute))).xor schedule.last

def decrypt (schedule : Schedule) (block : Block) : Block :=
  let state := (unshiftRows (block.xor schedule.last)).map (·.map unsubstitute)
  (schedule.middle.foldr (fun key state => unround (state.xor key)) state).xor schedule.first

/-- The words of one more key length: each is the word a key length before it,
xored with the word before it; the first of a group is rotated, substituted
and given the round constant, and in groups of eight the fifth substituted. -/
def nextGroup (constant : UInt8) (group : List Word) : List Word :=
  let last := group.getLastD ⟨0, 0, 0, 0⟩
  let turned : Word := (Word.mk last.b last.c last.d last.a).map substitute
  let start : Word := { turned with a := turned.a ^^^ constant }
  let step (state : List Word × Word) (entry : Word × Nat) : List Word × Word :=
    let (words, previous) := state
    let (word, index) := entry
    let previous :=
      if group.length = 8 ∧ index = 4 then previous.map substitute else previous
    let next := word.xor previous
    (next :: words, next)
  (group.zipIdx.foldl step ([], start)).1.reverse

/-- A group of words and `count` more groups. -/
def groups : (count : Nat) → (constant : UInt8) → List Word → List Word
  | 0, _, group => group
  | count + 1, constant, group =>
      group ++ groups count (double constant) (nextGroup constant group)

def words : Bytes → List Word
  | a :: b :: c :: d :: rest => ⟨a, b, c, d⟩ :: words rest
  | _ => []

def blocks : List Word → List Block
  | w :: x :: y :: z :: rest => ⟨w, x, y, z⟩ :: blocks rest
  | _ => []

/-- The schedule of a key: as many rounds as the key has words, and six more. -/
def ofKey (key : Key) : Schedule :=
  let keyWords := words key.bytes
  let rounds := keyWords.length + 6
  let keys := (blocks (groups 10 1 keyWords)).take (rounds + 1)
  ⟨keys.headD .zero, (keys.drop 1).dropLast, keys.getLastD .zero⟩

end Schedule

end VersionedKeys.Aes
