import VersionedKeys.Digest.Sha1

/-!
# The schedule of SHA-1 in lists

Each new word of a block is made of four of the sixteen before it.  In a list with the newest word
in front they stand at fixed places, and the rounds take the words one by one.  So nothing has to
be looked up in an array when a digest is computed in a proof: `sha1_eq_listSha1`.
-/

namespace VersionedKeys.Digest

namespace Sha1State

/-- Put the next word behind the words before it. -/
def pushWord (words : Array UInt32) (index : Nat) : Array UInt32 :=
  let word (back : Nat) : UInt32 := words.getD (index + 16 - back) 0
  words.push (rotateLeft (word 3 ^^^ word 8 ^^^ word 14 ^^^ word 16) 1)

/-- Put the next word in front of the words before it. -/
def consWord (words : List UInt32) : List UInt32 :=
  rotateLeft (words.getD 2 0 ^^^ words.getD 7 0 ^^^ words.getD 13 0 ^^^ words.getD 15 0) 1 :: words

/-- The words of a block, in a list. -/
def scheduleList (block : Array UInt8) : List UInt32 :=
  ((List.range 64).foldl (fun words _ => consWord words)
    (blockWords block).toList.reverse).reverse

/-- The rounds from a number on, with their words. -/
def rounds (index : Nat) : List UInt32 → Sha1State → Sha1State
  | [], s => s
  | word :: words, s => rounds (index + 1) words (s.round index word)

/-- Take a block into a chaining value, with the words of the block in a list. -/
def compressList (s : Sha1State) (block : Array UInt8) : Sha1State :=
  let t := rounds 0 (scheduleList block) s
  ⟨s.a + t.a, s.b + t.b, s.c + t.c, s.d + t.d, s.e + t.e⟩

theorem size_blockWords (block : Array UInt8) : (blockWords block).size = 16 := by
  simp [blockWords, List.range, List.range.loop]

theorem getD_size_sub {words : Array UInt32} {made : List UInt32}
    (same : words.toList = made.reverse) {place : Nat} (inside : place < words.size) :
    words.getD (words.size - (place + 1)) 0 = made.getD place 0 := by
  have size : words.size = made.length := by
    rw [← Array.length_toList, same, List.length_reverse]
  have mirrored : made.length - 1 - (made.length - (place + 1)) = place := by omega
  rw [Array.getD_eq_getD_getElem?, ← Array.getElem?_toList, same,
    List.getElem?_reverse (by omega), size, mirrored, List.getD_eq_getElem?_getD]

theorem toList_pushWord {words : Array UInt32} {made : List UInt32} {index : Nat}
    (size : words.size = index + 16) (same : words.toList = made.reverse) :
    (pushWord words index).toList = (consWord made).reverse := by
  have word (place : Nat) (inside : place < 16) :
      words.getD (index + 16 - (place + 1)) 0 = made.getD place 0 := by
    rw [← size]
    exact getD_size_sub same (by omega)
  have third := word 2 (by decide)
  have eighth := word 7 (by decide)
  have fourteenth := word 13 (by decide)
  have sixteenth := word 15 (by decide)
  simp only [pushWord, Array.toList_push, same, consWord, List.reverse_cons, third, eighth,
    fourteenth, sixteenth]

/-- Each word that is put behind those in the array is put in front of those in the list. -/
theorem foldl_pushWord {words : Array UInt32} (sixteen : words.size = 16) (count : Nat) :
    ((List.range count).foldl pushWord words).size = count + 16 ∧
      ((List.range count).foldl pushWord words).toList =
        ((List.range count).foldl (fun made _ => consWord made) words.toList.reverse).reverse := by
  induction count with
  | zero => exact ⟨sixteen.trans (Nat.zero_add 16).symm, (List.reverse_reverse _).symm⟩
  | succ count inductionHypothesis =>
      obtain ⟨size, same⟩ := inductionHypothesis
      rw [List.range_succ, List.foldl_append, List.foldl_append]
      refine ⟨?_, toList_pushWord size same⟩
      rw [List.foldl_cons, List.foldl_nil, pushWord, Array.size_push, size, Nat.add_right_comm]

theorem toList_schedule (block : Array UInt8) : (schedule block).toList = scheduleList block :=
  (foldl_pushWord (size_blockWords block) 64).2

theorem length_scheduleList (block : Array UInt8) : (scheduleList block).length = 80 := by
  rw [← toList_schedule, Array.length_toList]
  exact (foldl_pushWord (size_blockWords block) 64).1

theorem rounds_eq_foldl (words : List UInt32) (index : Nat) (s : Sha1State) :
    rounds index words s =
      (List.range words.length).foldl (fun t place => t.round (index + place) (words.getD place 0))
        s := by
  induction words generalizing index s with
  | nil => rfl
  | cons word words inductionHypothesis =>
      rw [rounds, inductionHypothesis, List.length_cons, List.range_succ_eq_map, List.foldl_cons,
        List.foldl_map]
      simp only [List.getD_cons_zero, List.getD_cons_succ, Nat.add_zero, Nat.succ_eq_add_one,
        Nat.add_right_comm, ← Nat.add_assoc]

theorem compress_eq_compressList (s : Sha1State) (block : Array UInt8) :
    s.compress block = s.compressList block := by
  have word (place : Nat) : (schedule block).getD place 0 = (scheduleList block).getD place 0 := by
    rw [← toList_schedule, Array.getD_eq_getD_getElem?, List.getD_eq_getElem?_getD,
      Array.getElem?_toList]
  simp only [compress, compressList, rounds_eq_foldl, length_scheduleList, word, Nat.zero_add]

end Sha1State

/-- SHA-1 with the words of a block in a list. -/
def listSha1 : HashFunction Sha1State := { sha1 with compress := Sha1State.compressList }

theorem sha1_eq_listSha1 : sha1 = listSha1 := by
  have compresses : Sha1State.compress = Sha1State.compressList := by
    funext s block
    exact s.compress_eq_compressList block
  rw [listSha1, ← compresses]
  rfl

end VersionedKeys.Digest
