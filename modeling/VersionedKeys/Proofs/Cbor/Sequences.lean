import VersionedKeys.Proofs.Cbor.Truncation

/-!
# Sequences of items

Items are written one after the other without anything between them.  Read by their kinds, they
are found again and what follows them is left; of a proper beginning the reader finds that it
ends (`readItems_write`, `endsEarly_readItems`).  Containers of byte strings are such sequences:
`containers_read_back`.
-/

namespace VersionedKeys.Cbor

/-- What is known of an item before it is read. -/
inductive ItemKind where
  /-- The header of an array of a number of items. -/
  | array (expected : Nat)
  | bytes
  | text
  | number
  deriving DecidableEq, Repr

def Item.kind : Item → ItemKind
  | array count => .array count
  | bytes _ => .bytes
  | text _ => .text
  | number _ => .number

def ItemKind.read (element : String) : ItemKind → Reader → Except Error (Item × Reader)
  | array expected, reader =>
      (readArray element expected reader).map fun next => (.array expected, next)
  | bytes, reader => (readBytes element reader).map (Prod.map .bytes id)
  | text, reader => (readText element reader).map (Prod.map .text id)
  | number, reader => (readNumber element reader).map (Prod.map .number id)

/-- Read items of given kinds one after the other. -/
def readItems (element : String) : List ItemKind → Reader → Except Error (List Item × Reader)
  | [], reader => .ok ([], reader)
  | kind :: kinds, reader => do
      let (item, reader) ← kind.read element reader
      let (items, reader) ← readItems element kinds reader
      .ok (item :: items, reader)

/-- The number of items or bytes of an item fits in a header. -/
def Item.Fits : Item → Prop
  | array count => count < 2 ^ 64
  | bytes value => value.length < 2 ^ 64
  | text value => (Utf8.encode value).length < 2 ^ 64
  | number _ => True

instance : DecidablePred Item.Fits
  | .array count => inferInstanceAs (Decidable (count < 2 ^ 64))
  | .bytes value => inferInstanceAs (Decidable (value.length < 2 ^ 64))
  | .text value => inferInstanceAs (Decidable ((Utf8.encode value).length < 2 ^ 64))
  | .number _ => inferInstanceAs (Decidable True)

section Sequences

variable (element : String)

theorem Item.read_write {item : Item} (fits : item.Fits) (rest : Bytes) (offset : Nat) :
    item.kind.read element ⟨item.write ++ rest, offset⟩ =
      .ok (item, ⟨rest, offset + item.write.length⟩) := by
  cases item with
  | array count => simp only [kind, ItemKind.read, write, readArray_writeArray _ _ _ fits,
      Outcome.map_ok]
  | bytes value => simp only [kind, ItemKind.read, write, readBytes_writeBytes _ _ _ fits,
      Outcome.map_ok, Prod.map, id_eq]
  | text value => simp only [kind, ItemKind.read, write, readText_writeText _ _ _ fits,
      Outcome.map_ok, Prod.map, id_eq]
  | number value => simp only [kind, ItemKind.read, write, readNumber_writeNumber,
      Outcome.map_ok, Prod.map, id_eq]

theorem Item.endsEarly_read {item : Item} (fits : item.Fits)
    (possible : ∀ value, item = .bytes value → value.length ≤ maxCapacity) :
    EndsEarly element (item.kind.read element) item.write := by
  cases item with
  | array count => exact (endsEarly_readArray element fits).map _
  | bytes value => exact (endsEarly_readBytes element (possible value rfl)).map _
  | text value => exact (endsEarly_readText element fits).map _
  | number value => exact (endsEarly_readNumber element value).map _

/-- Items are read back, and reading ends where they end. -/
theorem readItems_write {items : List Item} (fit : ∀ item ∈ items, item.Fits) (rest : Bytes)
    (offset : Nat) :
    readItems element (items.map Item.kind) ⟨items.flatMap Item.write ++ rest, offset⟩ =
      .ok (items, ⟨rest, offset + (items.flatMap Item.write).length⟩) := by
  induction items generalizing offset with
  | nil => rfl
  | cons item items inductionHypothesis =>
      have later := inductionHypothesis (fun other membership =>
        fit other (List.mem_cons_of_mem _ membership)) (offset + item.write.length)
      rw [List.map_cons, readItems, List.flatMap_cons, List.append_assoc,
        item.read_write element (fit item List.mem_cons_self), Outcome.ok_bind]
      simp only [later, Outcome.ok_bind, List.length_append, Nat.add_assoc]

theorem endsEarly_readItems {items : List Item} (fit : ∀ item ∈ items, item.Fits)
    (possible : ∀ value, .bytes value ∈ items → value.length ≤ maxCapacity) :
    EndsEarly element (readItems element (items.map Item.kind)) (items.flatMap Item.write) := by
  induction items with
  | nil => exact endsEarly_nil
  | cons item items inductionHypothesis =>
      have itemFits := fit item List.mem_cons_self
      have itemPossible : ∀ value, item = .bytes value → value.length ≤ maxCapacity :=
        fun value same => possible value (same ▸ List.mem_cons_self)
      have later := inductionHypothesis
        (fun other membership => fit other (List.mem_cons_of_mem _ membership))
        (fun value membership => possible value (List.mem_cons_of_mem _ membership))
      exact EndsEarly.bind (item.endsEarly_read element itemFits itemPossible)
        (fun rest offset => item.read_write element itemFits rest offset) (later.before _)

theorem endsEarly_readByteStrings {parts : List Bytes}
    (possible : ∀ part ∈ parts, part.length ≤ maxCapacity) :
    EndsEarly element (readByteStrings element parts.length) (parts.flatMap writeBytes) := by
  induction parts with
  | nil => exact endsEarly_nil
  | cons part parts inductionHypothesis =>
      have partPossible := possible part List.mem_cons_self
      have partSmall : part.length < 2 ^ 64 := partPossible.trans_lt (by decide)
      have later := inductionHypothesis fun other membership =>
        possible other (List.mem_cons_of_mem _ membership)
      exact EndsEarly.bind (endsEarly_readBytes element partPossible)
        (fun rest offset => readBytes_writeBytes element rest offset partSmall) (later.before _)

theorem decodeByteStrings_of_cut {parts : List Bytes} (few : parts.length < 2 ^ 64)
    (possible : ∀ part ∈ parts, part.length ≤ maxCapacity) {front back : Bytes}
    (cut : front ++ back = writeByteStrings parts) (missing : back ≠ []) :
    decodeByteStrings element front parts.length = .error (.decoding element .endOfInput) :=
  EndsEarly.bind (endsEarly_readArray element few)
    (fun rest offset => readArray_writeArray element rest offset few)
    (endsEarly_readByteStrings element possible) front back 0 cut missing

end Sequences

/-- A container of byte strings is decoded to them, whatever follows it, and is refused where
another number of them is expected.  Of a proper beginning the decoder finds that it ends, so it
never gives fewer or other strings.  The same is true of any sequence of items that are read by
their kinds: they are found again up to the place where they end, and of a proper beginning
the reader finds that it ends.  For the proper beginnings a byte string is no longer than a
buffer can be, as every one in memory is. -/
theorem containers_read_back (element : String) :
    (∀ parts : List Bytes, parts.length < 2 ^ 64 → (∀ part ∈ parts, part.length < 2 ^ 64) →
      (∀ rest, decodeByteStrings element (writeByteStrings parts ++ rest) parts.length =
        .ok parts) ∧
      (∀ rest count, count ≠ parts.length →
        decodeByteStrings element (writeByteStrings parts ++ rest) count =
          .error (.malformed (.expectedItems element count))) ∧
      ((∀ part ∈ parts, part.length ≤ maxCapacity) →
        ∀ front back, front ++ back = writeByteStrings parts → back ≠ [] →
          decodeByteStrings element front parts.length =
            .error (.decoding element .endOfInput))) ∧
    ∀ items : List Item, (∀ item ∈ items, item.Fits) →
      (∀ rest offset,
        readItems element (items.map Item.kind) ⟨items.flatMap Item.write ++ rest, offset⟩ =
          .ok (items, ⟨rest, offset + (items.flatMap Item.write).length⟩)) ∧
      ((∀ value, .bytes value ∈ items → value.length ≤ maxCapacity) →
        ∀ front back offset, front ++ back = items.flatMap Item.write → back ≠ [] →
          readItems element (items.map Item.kind) ⟨front, offset⟩ =
            .error (.decoding element .endOfInput)) := by
  constructor
  · intro parts few small
    refine ⟨fun rest => decodeByteStrings_writeByteStrings element rest few small, ?_, ?_⟩
    · intro rest count different
      exact decodeByteStrings_writeByteStrings_of_ne element rest few different.symm
    · intro possible front back cut missing
      exact decodeByteStrings_of_cut element few possible cut missing
  · intro items fit
    exact ⟨readItems_write element fit, endsEarly_readItems element fit⟩

/-- Two byte strings, one of them empty, and items of every kind with a text whose characters
have two and three bytes. -/
theorem containers_read_back_sample :
    decodeByteStrings "sample" (writeByteStrings [[1, 2], []] ++ [7]) 2 = .ok [[1, 2], []] ∧
      decodeByteStrings "sample" (writeByteStrings [[1, 2], []] ++ [7]) 3 =
        .error (.malformed (.expectedItems "sample" 3)) ∧
      decodeByteStrings "sample" ((writeByteStrings [[1, 2], []]).take 4) 2 =
        .error (.decoding "sample" .endOfInput) ∧
      readItems "sample" [.array 3, .text, .number, .bytes]
          ⟨[Item.array 3, .text "é€", .number 4096, .bytes [9]].flatMap Item.write ++ [7], 0⟩ =
        .ok ([.array 3, .text "é€", .number 4096, .bytes [9]], ⟨[7], 12⟩) := by
  obtain ⟨containers, sequences⟩ := containers_read_back "sample"
  obtain ⟨restored, refused, cut⟩ := containers [[1, 2], []] (by decide) (by decide)
  obtain ⟨found, -⟩ := sequences [.array 3, .text "é€", .number 4096, .bytes [9]] (by decide)
  refine ⟨restored [7], refused [7] 3 (by decide),
    cut (by decide) _ _ (List.take_append_drop 4 _) ?_, ?_⟩
  · decide
  · exact found [7] 0

end VersionedKeys.Cbor
