import VersionedKeys.Aes.Cbc
import VersionedKeys.Proofs.Aes.Inverse

/-!
# Whole messages in cipher block chaining

A byte string is in one way a list of blocks and fewer than sixteen bytes
(`splitAll_eq_iff`), and a padded block stands for one beginning of a block
(`unpad?_eq_some_iff`).  So a cipher text decrypts to a message exactly if it is
the encryption of that message: `decrypt?_eq_some_iff`.  The encryption is the chain
of cipher blocks of the padded message: `exists_encrypt_eq`.
-/

namespace VersionedKeys

namespace Block

theorem exists_eq_toBytes_append {bytes : Bytes} (long : 16 ≤ bytes.length) :
    ∃ block rest, bytes = toBytes block ++ rest := by
  match bytes, long with
  | b0 :: b1 :: b2 :: b3 :: b4 :: b5 :: b6 :: b7 :: b8 :: b9 :: b10 :: b11 :: b12 :: b13 ::
      b14 :: b15 :: rest, _ =>
      exact ⟨⟨⟨b0, b1, b2, b3⟩, ⟨b4, b5, b6, b7⟩, ⟨b8, b9, b10, b11⟩, ⟨b12, b13, b14, b15⟩⟩,
        rest, rfl⟩

theorem exists_eq_toBytes {bytes : Bytes} (whole : bytes.length = 16) :
    ∃ block, bytes = toBytes block := by
  rcases exists_eq_toBytes_append (Nat.le_of_eq whole.symm) with ⟨block, rest, equality⟩
  have : rest = [] := by
    have lengths := congrArg List.length equality
    simp only [List.length_append, length_toBytes] at lengths
    exact List.eq_nil_of_length_eq_zero (by omega)
  exact ⟨block, by simp [equality, this]⟩

theorem toBytes_injective {left right : Block} (equality : left.toBytes = right.toBytes) :
    left = right := by
  have front := ofFront?_toBytes_append left []
  rw [equality, ofFront?_toBytes_append] at front
  cases front
  rfl

theorem ofFront?_eq_none {bytes : Bytes} (short : bytes.length < 16) : ofFront? bytes = none := by
  cases found : ofFront? bytes with
  | none => rfl
  | some entry =>
      have lengths := congrArg List.length (eq_of_ofFront? found)
      simp only [List.length_append, length_toBytes] at lengths
      omega

@[simp]
theorem ofBytes_toBytes (block : Block) : ofBytes block.toBytes = block := rfl

theorem toBytes_ofBytes {bytes : Bytes} (whole : bytes.length = 16) :
    (ofBytes bytes).toBytes = bytes := by
  obtain ⟨block, rfl⟩ := exists_eq_toBytes whole
  rw [ofBytes_toBytes]

@[simp]
theorem ofBytes?_toBytes (block : Block) : ofBytes? block.toBytes = some block := rfl

theorem ofBytes?_eq_none {bytes : Bytes} (other : bytes.length ≠ 16) : ofBytes? bytes = none := by
  rw [ofBytes?]
  split
  · next found =>
      have lengths := congrArg List.length (eq_of_ofFront? found)
      simp only [List.append_nil, length_toBytes] at lengths
      exact absurd lengths other
  · rfl

@[simp]
theorem join_nil : join [] = [] := rfl

@[simp]
theorem join_cons (block : Block) (blocks : List Block) :
    join (block :: blocks) = block.toBytes ++ join blocks := rfl

@[simp]
theorem join_append (front back : List Block) : join (front ++ back) = join front ++ join back :=
  List.flatMap_append

@[simp]
theorem length_join (blocks : List Block) : (join blocks).length = 16 * blocks.length := by
  induction blocks with
  | nil => rfl
  | cons block blocks inductionHypothesis =>
      simp only [join_cons, List.length_append, length_toBytes, inductionHypothesis,
        List.length_cons]
      omega

theorem splitWithin_join_append (bound : Nat) (blocks : List Block) (rest : Bytes)
    (enough : blocks.length ≤ bound) (short : rest.length < 16) :
    splitWithin bound (join blocks ++ rest) = (blocks, rest) := by
  induction bound generalizing blocks with
  | zero =>
      have : blocks = [] := List.eq_nil_of_length_eq_zero (by omega)
      simp [splitWithin, this]
  | succ bound inductionHypothesis =>
      cases blocks with
      | nil => simp [splitWithin, ofFront?_eq_none short]
      | cons block blocks =>
          have fewer : blocks.length ≤ bound := by simpa using enough
          simp [splitWithin, inductionHypothesis blocks fewer]

theorem splitAll_join_append (blocks : List Block) {rest : Bytes} (short : rest.length < 16) :
    splitAll (join blocks ++ rest) = (blocks, rest) :=
  splitWithin_join_append _ blocks rest
    (by simp only [List.length_append, length_join]; omega) short

@[simp]
theorem splitAll_join (blocks : List Block) : splitAll (join blocks) = (blocks, []) := by
  have short : ([] : Bytes).length < 16 := by simp
  simpa using splitAll_join_append blocks short

theorem exists_eq_join_append (bytes : Bytes) :
    ∃ blocks rest, bytes = join blocks ++ rest ∧ rest.length < 16 := by
  by_cases long : 16 ≤ bytes.length
  · rcases exists_eq_toBytes_append long with ⟨block, tail, equality⟩
    have shorter : tail.length < bytes.length := by simp [equality]
    rcases exists_eq_join_append tail with ⟨blocks, rest, tailEquality, short⟩
    exact ⟨block :: blocks, rest, by simp [equality, tailEquality], short⟩
  · exact ⟨[], bytes, by simp, by omega⟩
termination_by bytes.length

theorem splitAll_eq_iff {bytes rest : Bytes} {blocks : List Block} :
    splitAll bytes = (blocks, rest) ↔ bytes = join blocks ++ rest ∧ rest.length < 16 := by
  constructor
  · intro split
    rcases exists_eq_join_append bytes with ⟨found, left, equality, short⟩
    rw [equality, splitAll_join_append found short] at split
    cases split
    exact ⟨equality, short⟩
  · rintro ⟨rfl, short⟩
    exact splitAll_join_append blocks short

end Block

namespace Aes.Cbc

@[simp]
theorem length_encryptBlocks (schedule : Schedule) (chain : Block) (blocks : List Block) :
    (encryptBlocks schedule chain blocks).length = blocks.length := by
  induction blocks generalizing chain with
  | nil => rfl
  | cons block blocks inductionHypothesis => simp [encryptBlocks, inductionHypothesis]

theorem getLastD_append (front back : List Block) (chain : Block) :
    (front ++ back).getLastD chain = back.getLastD (front.getLastD chain) := by
  induction front generalizing chain with
  | nil => rfl
  | cons block front inductionHypothesis =>
      simp only [List.cons_append, List.getLastD_cons, inductionHypothesis]

/-- What is encrypted later continues the chain of what was encrypted before. -/
theorem encryptBlocks_append (schedule : Schedule) (chain : Block) (front back : List Block) :
    encryptBlocks schedule chain (front ++ back) =
      encryptBlocks schedule chain front ++
        encryptBlocks schedule ((encryptBlocks schedule chain front).getLastD chain) back := by
  induction front generalizing chain with
  | nil => rfl
  | cons block front inductionHypothesis =>
      simp only [List.cons_append, encryptBlocks, inductionHypothesis, List.getLastD_cons]

theorem decryptBlocks_append (schedule : Schedule) (chain : Block) (front back : List Block) :
    decryptBlocks schedule chain (front ++ back) =
      decryptBlocks schedule chain front ++
        decryptBlocks schedule (front.getLastD chain) back := by
  induction front generalizing chain with
  | nil => rfl
  | cons block front inductionHypothesis =>
      simp only [List.cons_append, decryptBlocks, inductionHypothesis, List.getLastD_cons]

@[simp]
theorem decryptBlocks_encryptBlocks (schedule : Schedule) (chain : Block)
    (blocks : List Block) :
    decryptBlocks schedule chain (encryptBlocks schedule chain blocks) = blocks := by
  induction blocks generalizing chain with
  | nil => rfl
  | cons block blocks inductionHypothesis =>
      simp [encryptBlocks, decryptBlocks, inductionHypothesis]

@[simp]
theorem encryptBlocks_decryptBlocks (schedule : Schedule) (chain : Block)
    (blocks : List Block) :
    encryptBlocks schedule chain (decryptBlocks schedule chain blocks) = blocks := by
  induction blocks generalizing chain with
  | nil => rfl
  | cons block blocks inductionHypothesis =>
      simp [encryptBlocks, decryptBlocks, inductionHypothesis]

@[simp]
theorem length_decryptBlocks (schedule : Schedule) (chain : Block) (blocks : List Block) :
    (decryptBlocks schedule chain blocks).length = blocks.length := by
  induction blocks generalizing chain with
  | nil => rfl
  | cons block blocks inductionHypothesis => simp [decryptBlocks, inductionHypothesis]

@[simp]
theorem length_padding (length : Nat) : (padding length).length = 16 - length % 16 := by
  simp [padding, Block.size]

theorem padding_join_append (blocks : List Block) (rest : Bytes) :
    padding (Block.join blocks ++ rest).length = padding rest.length := by
  have same : (Block.join blocks ++ rest).length % Block.size = rest.length % Block.size := by
    simp only [List.length_append, Block.length_join, Block.size]
    omega
  simp only [padding, same]

/-- A block ends in its padding, and the last byte says how long that is. -/
theorem last_of_padded {block : Block} {rest : Bytes} (short : rest.length < 16)
    (padded : block.toBytes = rest ++ padding rest.length) :
    block.z.d = UInt8.ofNat (16 - rest.length) := by
  have last : block.toBytes.getLast? = some block.z.d := rfl
  have count : 16 - rest.length % 16 ≠ 0 := by omega
  rw [padded] at last
  simp only [padding, Block.size, List.getLast?_append, List.getLast?_replicate, if_neg count,
    Option.some_or, Option.some.injEq] at last
  rw [← last, Nat.mod_eq_of_lt short]

/-- Unpadding finds exactly the beginning that was padded. -/
theorem unpad?_eq_some_iff {block : Block} {rest : Bytes} :
    unpad? block = some rest ↔
      rest.length < 16 ∧ block.toBytes = rest ++ padding rest.length := by
  constructor
  · intro unpadded
    simp only [unpad?, Option.ite_none_right_eq_some, Option.some.injEq] at unpadded
    rw [Block.size] at unpadded
    rcases unpadded with ⟨⟨positive, atMost, equal⟩, taken⟩
    have kept : rest.length = 16 - block.z.d.toNat := by simp [← taken]
    have repeated : block.toBytes.drop (16 - block.z.d.toNat) =
        List.replicate block.z.d.toNat block.z.d := by
      apply List.eq_replicate_iff.mpr
      refine ⟨by simp only [List.length_drop, Block.length_toBytes]; omega, ?_⟩
      intro byte membership
      simpa using List.all_eq_true.mp equal byte membership
    have count : 16 - rest.length % 16 = block.z.d.toNat := by omega
    refine ⟨by omega, ?_⟩
    rw [padding, Block.size, count, UInt8.ofNat_toNat, ← repeated, ← taken,
      List.take_append_drop]
  · rintro ⟨short, padded⟩
    have last := last_of_padded short padded
    have count : block.z.d.toNat = 16 - rest.length := by
      rw [last, UInt8.toNat_ofNat']
      omega
    have kept : 16 - block.z.d.toNat = rest.length := by omega
    have repeated : block.toBytes.drop rest.length =
        List.replicate (16 - rest.length) block.z.d := by
      rw [padded, List.drop_left, padding, Block.size, Nat.mod_eq_of_lt short, last]
    have taken : block.toBytes.take rest.length = rest := by rw [padded, List.take_left]
    simp only [unpad?, Block.size, Option.ite_none_right_eq_some, kept,
      repeated, taken, and_true]
    exact ⟨by omega, by omega, by simp⟩

/-- The encryption of a whole message: the cipher blocks of the message with its
padding. -/
def encrypt (schedule : Schedule) (iv : Block) (message : Bytes) : Bytes :=
  Block.join
    (encryptBlocks schedule iv (Block.splitAll (message ++ padding message.length)).1)

/-- The message of a whole cipher text, if there is one. -/
def decrypt? (schedule : Schedule) (iv : Block) (cipher : Bytes) : Option Bytes :=
  match Block.splitAll cipher with
  | (blocks, []) => do
      let plain := decryptBlocks schedule iv blocks
      let ending ← unpad? (← plain.getLast?)
      some (Block.join plain.dropLast ++ ending)
  | _ => none

theorem exists_padded (message : Bytes) :
    ∃ blocks rest block, message = Block.join blocks ++ rest ∧ rest.length < 16 ∧
      block.toBytes = rest ++ padding rest.length ∧
      Block.splitAll (message ++ padding message.length) = (blocks ++ [block], []) := by
  rcases Block.exists_eq_join_append message with ⟨blocks, rest, equality, short⟩
  have whole : (rest ++ padding rest.length).length = 16 := by
    simp only [List.length_append, length_padding]
    omega
  rcases Block.exists_eq_toBytes whole with ⟨block, padded⟩
  refine ⟨blocks, rest, block, equality, short, padded.symm, ?_⟩
  apply Block.splitAll_eq_iff.mpr
  refine ⟨?_, by simp⟩
  rw [equality, padding_join_append, List.append_assoc, padded]
  simp

@[simp]
theorem decrypt?_encrypt (schedule : Schedule) (iv : Block) (message : Bytes) :
    decrypt? schedule iv (encrypt schedule iv message) = some message := by
  rcases exists_padded message with ⟨blocks, rest, block, equality, short, padded, split⟩
  have unpadded := unpad?_eq_some_iff.mpr ⟨short, padded⟩
  rw [decrypt?, encrypt, split, Block.splitAll_join]
  simp [unpadded, equality]

/-- A cipher text stands for a message exactly if it is the encryption of it. -/
theorem decrypt?_eq_some_iff {schedule : Schedule} {iv : Block} {cipher message : Bytes} :
    decrypt? schedule iv cipher = some message ↔ cipher = encrypt schedule iv message := by
  constructor
  · intro decrypted
    rw [decrypt?] at decrypted
    split at decrypted
    · next blocks split =>
        rw [Block.splitAll_eq_iff, List.append_nil] at split
        simp only [Option.bind_eq_bind, Option.bind_eq_some_iff, Option.some.injEq] at decrypted
        rcases decrypted with ⟨last, lastFound, ending, unpadded, joined⟩
        rcases unpad?_eq_some_iff.mp unpadded with ⟨short, padded⟩
        rcases List.getLast?_eq_some_iff.mp lastFound with ⟨front, plain⟩
        have parts : Block.splitAll (message ++ padding message.length) =
            (decryptBlocks schedule iv blocks, []) := by
          apply Block.splitAll_eq_iff.mpr
          refine ⟨?_, by simp⟩
          rw [← joined, padding_join_append, List.append_assoc, ← padded, plain]
          simp
        rw [encrypt, parts, encryptBlocks_decryptBlocks, split.1]
    · cases decrypted
  · rintro rfl
    exact decrypt?_encrypt schedule iv message

/-- Cipher blocks of which each is the encryption of the plain block in its place,
combined with the cipher block before it.  The vector stands before the first. -/
structure Chained (schedule : Schedule) (iv : Block) (plain cipher : List Block) : Prop where
  length_eq : cipher.length = plain.length
  block_eq (index : Nat) (inside : index < plain.length) :
    (iv :: cipher)[index + 1]? =
      (iv :: cipher)[index]?.map fun previous => schedule.encrypt (plain[index].xor previous)

theorem chained_encryptBlocks (schedule : Schedule) (iv : Block) (plain : List Block) :
    Chained schedule iv plain (encryptBlocks schedule iv plain) := by
  refine ⟨length_encryptBlocks schedule iv plain, ?_⟩
  induction plain generalizing iv with
  | nil =>
      intro index inside
      cases inside
  | cons block plain inductionHypothesis =>
      intro index inside
      cases index with
      | zero => rfl
      | succ index =>
          exact inductionHypothesis _ index (Nat.lt_of_succ_lt_succ inside)

/-- The message is followed by as many bytes as are missing to the next whole block, or by
a whole block, each of which says how many they are. -/
theorem exists_encrypt_eq (schedule : Schedule) (iv : Block) (message : Bytes) :
    ∃ plain cipher,
      Block.join plain =
        message ++ List.replicate (16 - message.length % 16)
          (UInt8.ofNat (16 - message.length % 16)) ∧
      Chained schedule iv plain cipher ∧ encrypt schedule iv message = Block.join cipher := by
  obtain ⟨blocks, rest, block, -, -, -, split⟩ := exists_padded message
  refine ⟨blocks ++ [block], _, ?_, chained_encryptBlocks schedule iv _, ?_⟩
  · have whole := (Block.splitAll_eq_iff.mp split).1
    rw [List.append_nil] at whole
    exact whole.symm
  · rw [encrypt, split]

@[simp]
theorem length_encrypt (schedule : Schedule) (iv : Block) (message : Bytes) :
    (encrypt schedule iv message).length = 16 * (message.length / 16 + 1) := by
  obtain ⟨plain, cipher, padded, chained, cut⟩ := exists_encrypt_eq schedule iv message
  have lengths := congrArg List.length padded
  rw [Block.length_join, List.length_append, List.length_replicate] at lengths
  rw [cut, Block.length_join, chained.length_eq]
  omega

end Aes.Cbc

end VersionedKeys
