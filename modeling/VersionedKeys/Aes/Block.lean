import VersionedKeys.Bytes

/-!
# Blocks of sixteen bytes

A block is four words of four bytes.  `Block.ofFront?` takes one from the front
of a byte string, `Block.ofBytes` reads a string and supplies zeros where it is
too short, and `Block.splitAll` cuts a string into blocks.
-/

namespace VersionedKeys

/-- Four bytes. -/
structure Word where
  a : UInt8
  b : UInt8
  c : UInt8
  d : UInt8
  deriving DecidableEq, Repr

namespace Word

def map (transform : UInt8 → UInt8) (word : Word) : Word :=
  ⟨transform word.a, transform word.b, transform word.c, transform word.d⟩

def xor (left right : Word) : Word :=
  ⟨left.a ^^^ right.a, left.b ^^^ right.b, left.c ^^^ right.c, left.d ^^^ right.d⟩

def toBytes (word : Word) : Bytes := [word.a, word.b, word.c, word.d]

end Word

/-- Sixteen bytes: the unit that AES works on. -/
structure Block where
  w : Word
  x : Word
  y : Word
  z : Word
  deriving DecidableEq, Repr

namespace Block

def size : Nat := 16

def zero : Block :=
  let word : Word := ⟨0, 0, 0, 0⟩
  ⟨word, word, word, word⟩

def map (transform : Word → Word) (block : Block) : Block :=
  ⟨transform block.w, transform block.x, transform block.y, transform block.z⟩

def xor (left right : Block) : Block :=
  ⟨left.w.xor right.w, left.x.xor right.x, left.y.xor right.y, left.z.xor right.z⟩

def toBytes (block : Block) : Bytes :=
  [block.w.a, block.w.b, block.w.c, block.w.d, block.x.a, block.x.b, block.x.c, block.x.d,
    block.y.a, block.y.b, block.y.c, block.y.d, block.z.a, block.z.b, block.z.c, block.z.d]

/-- The block at the front of a byte string, and what follows it. -/
def ofFront? : Bytes → Option (Block × Bytes)
  | b0 :: b1 :: b2 :: b3 :: b4 :: b5 :: b6 :: b7 :: b8 :: b9 :: b10 :: b11 :: b12 :: b13 ::
      b14 :: b15 :: rest =>
      some (⟨⟨b0, b1, b2, b3⟩, ⟨b4, b5, b6, b7⟩, ⟨b8, b9, b10, b11⟩, ⟨b12, b13, b14, b15⟩⟩, rest)
  | _ => none

/-- The block that a byte string of sixteen bytes is. -/
def ofBytes? (bytes : Bytes) : Option Block :=
  match ofFront? bytes with
  | some (block, []) => some block
  | _ => none

/-- The block at the front of a byte string, with zeros for missing bytes. -/
def ofBytes (bytes : Bytes) : Block :=
  match ofFront? (bytes ++ zero.toBytes) with
  | some (block, _) => block
  | none => zero

/-- At most `bound` blocks from the front of a byte string, and what follows. -/
def splitWithin : (bound : Nat) → Bytes → List Block × Bytes
  | 0, bytes => ([], bytes)
  | bound + 1, bytes =>
      match ofFront? bytes with
      | none => ([], bytes)
      | some (block, rest) =>
          let (blocks, rest) := splitWithin bound rest
          (block :: blocks, rest)

/-- The blocks of a byte string, and the fewer than sixteen bytes after them. -/
def splitAll (bytes : Bytes) : List Block × Bytes :=
  splitWithin bytes.length bytes

def join (blocks : List Block) : Bytes :=
  blocks.flatMap toBytes

@[simp]
theorem length_toBytes (block : Block) : block.toBytes.length = 16 := rfl

@[simp]
theorem ofFront?_toBytes_append (block : Block) (rest : Bytes) :
    ofFront? (block.toBytes ++ rest) = some (block, rest) := rfl

theorem eq_of_ofFront? {bytes rest : Bytes} {block : Block}
    (found : ofFront? bytes = some (block, rest)) : bytes = block.toBytes ++ rest := by
  unfold ofFront? at found
  split at found
  · cases found
    rfl
  · cases found

end Block

end VersionedKeys
