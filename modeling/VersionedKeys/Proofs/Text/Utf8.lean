import Mathlib.Data.List.Basic
import VersionedKeys.Text.Utf8

/-!
# Texts that are decoded

Every character is read back from its bytes (`decodeChar?_encodeChar`) and from no others
(`eq_encodeChar_of_decodeChar?`), and a proper beginning of them is no character
(`decodeChar?_take`).  So wherever the bytes of a text are cut, decoding finds the characters
that are complete and leaves fewer than four bytes: `exists_take_encodeChars` and
`decodePrefix_append`.
-/

namespace VersionedKeys.Utf8

open String (utf8EncodeChar)

/-- The four forms of the bytes of a character, by the size of its code point. -/
theorem encodeChar_cases (char : Char) :
    char.toNat < 0x80 ∧ utf8EncodeChar char = [UInt8.ofNat char.toNat] ∨
    0x80 ≤ char.toNat ∧ char.toNat < 0x800 ∧
      utf8EncodeChar char = [UInt8.ofNat (char.toNat / 64 % 32 + 192),
        UInt8.ofNat (char.toNat % 64 + 128)] ∨
    0x800 ≤ char.toNat ∧ char.toNat < 0x10000 ∧
      utf8EncodeChar char = [UInt8.ofNat (char.toNat / 4096 % 16 + 224),
        UInt8.ofNat (char.toNat / 64 % 64 + 128), UInt8.ofNat (char.toNat % 64 + 128)] ∨
    0x10000 ≤ char.toNat ∧ char.toNat < 0x110000 ∧
      utf8EncodeChar char = [UInt8.ofNat (char.toNat / 262144 % 8 + 240),
        UInt8.ofNat (char.toNat / 4096 % 64 + 128), UInt8.ofNat (char.toNat / 64 % 64 + 128),
        UInt8.ofNat (char.toNat % 64 + 128)] := by
  have valid : char.toNat.isValidChar := char.valid
  simp only [utf8EncodeChar, Char.toNat_val]
  by_cases one : char.toNat < 0x80
  · exact .inl ⟨one, if_pos (by omega)⟩
  · rw [if_neg (show ¬ char.toNat ≤ 127 by omega)]
    by_cases two : char.toNat < 0x800
    · exact .inr (.inl ⟨by omega, two, if_pos (by omega)⟩)
    · rw [if_neg (show ¬ char.toNat ≤ 2047 by omega)]
      by_cases three : char.toNat < 0x10000
      · exact .inr (.inr (.inl ⟨by omega, three, if_pos (by omega)⟩))
      · exact .inr (.inr (.inr ⟨by omega, by omega, if_neg (by omega)⟩))

theorem toNat_ofNat_of_lt {value : Nat} (small : value < 256) :
    (UInt8.ofNat value).toNat = value := by
  rw [UInt8.toNat_ofNat']
  exact Nat.mod_eq_of_lt small

theorem continuation?_ofNat (value : Nat) :
    continuation? (UInt8.ofNat (value % 64 + 128)) = some (value % 64) := by
  rw [continuation?, toNat_ofNat_of_lt (by omega), if_pos (by omega)]
  congr 1
  omega

theorem scalar?_toNat {least : Nat} {char : Char} (large : least ≤ char.toNat) :
    scalar? least char.toNat = some char := by
  rw [scalar?, if_pos ⟨large, char.valid⟩, Char.ofNat_toNat]

/-- A character is read back from its bytes. -/
theorem decodeChar?_encodeChar (char : Char) (rest : Bytes) :
    decodeChar? (utf8EncodeChar char ++ rest) = some (char, rest) := by
  rcases encodeChar_cases char with
    ⟨small, form⟩ | ⟨large, small, form⟩ | ⟨large, small, form⟩ | ⟨large, small, form⟩
  · simp only [form, List.cons_append, List.nil_append, decodeChar?]
    rw [toNat_ofNat_of_lt (by omega), if_pos small, Char.ofNat_toNat]
  · have point : (char.toNat / 64 % 32 + 192) % 32 * 64 + char.toNat % 64 = char.toNat := by omega
    simp only [form, List.cons_append, List.nil_append, decodeChar?]
    rw [toNat_ofNat_of_lt (by omega), if_neg (by omega), if_neg (by omega), if_pos (by omega),
      continuation?_ofNat]
    -- The binds are rewritten one by one, so that no two products are unfolded to be compared.
    simp only [Option.bind_eq_bind]
    rw [Option.bind_some, point, scalar?_toNat large, Option.bind_some]
  · have point : (char.toNat / 4096 % 16 + 224) % 16 * 4096 + char.toNat / 64 % 64 * 64 +
        char.toNat % 64 = char.toNat := by omega
    simp only [form, List.cons_append, List.nil_append, decodeChar?]
    rw [toNat_ofNat_of_lt (by omega), if_neg (by omega), if_neg (by omega), if_neg (by omega),
      if_pos (by omega), continuation?_ofNat, continuation?_ofNat]
    simp only [Option.bind_eq_bind]
    rw [Option.bind_some, Option.bind_some, point, scalar?_toNat large, Option.bind_some]
  · have point : (char.toNat / 262144 % 8 + 240) % 8 * 262144 + char.toNat / 4096 % 64 * 4096 +
        char.toNat / 64 % 64 * 64 + char.toNat % 64 = char.toNat := by omega
    simp only [form, List.cons_append, List.nil_append, decodeChar?]
    rw [toNat_ofNat_of_lt (by omega), if_neg (by omega), if_neg (by omega), if_neg (by omega),
      if_neg (by omega), if_pos (by omega), continuation?_ofNat, continuation?_ofNat,
      continuation?_ofNat]
    simp only [Option.bind_eq_bind]
    rw [Option.bind_some, Option.bind_some, Option.bind_some, point, scalar?_toNat large,
      Option.bind_some]

/-- A proper beginning of a character is no character. -/
theorem decodeChar?_take {char : Char} {count : Nat}
    (short : count < (utf8EncodeChar char).length) :
    decodeChar? ((utf8EncodeChar char).take count) = none := by
  rcases encodeChar_cases char with
    ⟨small, form⟩ | ⟨large, small, form⟩ | ⟨large, small, form⟩ | ⟨large, small, form⟩
  all_goals
    rw [form] at short ⊢
    simp only [List.length_cons, List.length_nil] at short
  · obtain rfl : count = 0 := by omega
    rfl
  · obtain rfl | rfl : count = 0 ∨ count = 1 := by omega
    · rfl
    · simp only [List.take_succ_cons, List.take_zero, decodeChar?]
      rw [toNat_ofNat_of_lt (by omega), if_neg (by omega), if_neg (by omega), if_pos (by omega)]
  · obtain rfl | rfl | rfl : count = 0 ∨ count = 1 ∨ count = 2 := by omega
    · rfl
    all_goals
      simp only [List.take_succ_cons, List.take_zero, decodeChar?]
      rw [toNat_ofNat_of_lt (by omega), if_neg (by omega), if_neg (by omega),
        if_neg (by omega), if_pos (by omega)]
  · obtain rfl | rfl | rfl | rfl : count = 0 ∨ count = 1 ∨ count = 2 ∨ count = 3 := by omega
    · rfl
    all_goals
      simp only [List.take_succ_cons, List.take_zero, decodeChar?]
      rw [toNat_ofNat_of_lt (by omega), if_neg (by omega), if_neg (by omega),
        if_neg (by omega), if_neg (by omega), if_pos (by omega)]

theorem toNat_ofNat_of_isValidChar {codePoint : Nat} (valid : codePoint.isValidChar) :
    (Char.ofNat codePoint).toNat = codePoint := by
  rw [Char.ofNat, dif_pos valid]
  rfl

theorem of_continuation? {byte : UInt8} {bits : Nat} (found : continuation? byte = some bits) :
    bits < 64 ∧ byte = UInt8.ofNat (bits + 128) := by
  rw [continuation?] at found
  split at found
  · next continues =>
      cases found
      refine ⟨by omega, ?_⟩
      rw [show byte.toNat % 64 + 128 = byte.toNat by omega, UInt8.ofNat_toNat]
  · cases found

theorem of_scalar? {least codePoint : Nat} {char : Char}
    (found : scalar? least codePoint = some char) :
    least ≤ codePoint ∧ char.toNat = codePoint := by
  rw [scalar?] at found
  split at found
  · next scalar =>
      cases found
      exact ⟨scalar.1, toNat_ofNat_of_isValidChar scalar.2⟩
  · cases found

/-- What is decoded to a character are its bytes: no longer form of it is accepted. -/
theorem eq_encodeChar_of_decodeChar? {bytes rest : Bytes} {char : Char}
    (decoded : decodeChar? bytes = some (char, rest)) : bytes = utf8EncodeChar char ++ rest := by
  cases bytes with
  | nil => cases decoded
  | cons lead following =>
      have leadIs {value : Nat} (same : value = lead.toNat) : UInt8.ofNat value = lead := by
        rw [same, UInt8.ofNat_toNat]
      simp only [decodeChar?] at decoded
      split_ifs at decoded with one continues two three four
      · cases decoded
        have point : (Char.ofNat lead.toNat).toNat = lead.toNat :=
          toNat_ofNat_of_isValidChar (.inl (by omega))
        rcases encodeChar_cases (Char.ofNat lead.toNat) with
          ⟨-, form⟩ | ⟨large, -⟩ | ⟨large, -⟩ | ⟨large, -⟩
        · rw [form, point, UInt8.ofNat_toNat, List.singleton_append]
        all_goals omega
      · split at decoded
        · simp only [Option.bind_eq_bind, Option.bind_eq_some_iff, Option.some.injEq,
            Prod.mk.injEq] at decoded
          obtain ⟨low, second, found, made, rfl, rfl⟩ := decoded
          obtain ⟨lowBelow, rfl⟩ := of_continuation? second
          obtain ⟨large, point⟩ := of_scalar? made
          rcases encodeChar_cases found with
            ⟨small, -⟩ | ⟨-, -, form⟩ | ⟨larger, -⟩ | ⟨larger, -⟩
          · omega
          · have first : UInt8.ofNat ((lead.toNat % 32 * 64 + low) / 64 % 32 + 192) = lead :=
              leadIs (by omega)
            rw [form, point, first, show (lead.toNat % 32 * 64 + low) % 64 = low by omega]
            rfl
          all_goals omega
        · cases decoded
      · split at decoded
        · simp only [Option.bind_eq_bind, Option.bind_eq_some_iff, Option.some.injEq,
            Prod.mk.injEq] at decoded
          obtain ⟨high, second, low, third, found, made, rfl, rfl⟩ := decoded
          obtain ⟨highBelow, rfl⟩ := of_continuation? second
          obtain ⟨lowBelow, rfl⟩ := of_continuation? third
          obtain ⟨large, point⟩ := of_scalar? made
          rcases encodeChar_cases found with
            ⟨small, -⟩ | ⟨-, small, -⟩ | ⟨-, -, form⟩ | ⟨larger, -⟩
          · omega
          · omega
          · have first : UInt8.ofNat
                ((lead.toNat % 16 * 4096 + high * 64 + low) / 4096 % 16 + 224) = lead :=
              leadIs (by omega)
            rw [form, point, first,
              show (lead.toNat % 16 * 4096 + high * 64 + low) / 64 % 64 = high by omega,
              show (lead.toNat % 16 * 4096 + high * 64 + low) % 64 = low by omega]
            rfl
          · omega
        · cases decoded
      · split at decoded
        · simp only [Option.bind_eq_bind, Option.bind_eq_some_iff, Option.some.injEq,
            Prod.mk.injEq] at decoded
          obtain ⟨high, second, middle, third, low, fourth, found, made, rfl, rfl⟩ := decoded
          obtain ⟨highBelow, rfl⟩ := of_continuation? second
          obtain ⟨middleBelow, rfl⟩ := of_continuation? third
          obtain ⟨lowBelow, rfl⟩ := of_continuation? fourth
          obtain ⟨large, point⟩ := of_scalar? made
          rcases encodeChar_cases found with
            ⟨small, -⟩ | ⟨-, small, -⟩ | ⟨-, small, -⟩ | ⟨-, -, form⟩
          · omega
          · omega
          · omega
          · have first : UInt8.ofNat
                ((lead.toNat % 8 * 262144 + high * 4096 + middle * 64 + low) / 262144 % 8 + 240) =
                  lead :=
              leadIs (by omega)
            rw [form, point, first,
              show (lead.toNat % 8 * 262144 + high * 4096 + middle * 64 + low) / 4096 % 64 =
                high by omega,
              show (lead.toNat % 8 * 262144 + high * 4096 + middle * 64 + low) / 64 % 64 =
                middle by omega,
              show (lead.toNat % 8 * 262144 + high * 4096 + middle * 64 + low) % 64 = low by omega]
            rfl
        · cases decoded

/-- However the bytes of characters are cut, there are whole characters in front of the cut,
and then fewer than four bytes that are none. -/
theorem exists_take_encodeChars (chars : List Char) (count : Nat) :
    ∃ before after tail, chars = before ++ after ∧
      (chars.flatMap utf8EncodeChar).take count = before.flatMap utf8EncodeChar ++ tail ∧
      decodeChar? tail = none ∧ tail.length ≤ 3 := by
  induction chars generalizing count with
  | nil => exact ⟨[], [], [], rfl, by simp, rfl, by simp⟩
  | cons char chars inductionHypothesis =>
      by_cases whole : (utf8EncodeChar char).length ≤ count
      · obtain ⟨before, after, tail, split, taken, none, short⟩ :=
          inductionHypothesis (count - (utf8EncodeChar char).length)
        refine ⟨char :: before, after, tail, by rw [split, List.cons_append], ?_, none, short⟩
        rw [List.flatMap_cons, List.take_append, List.take_of_length_le whole, taken,
          List.flatMap_cons, List.append_assoc]
      · have size := char.utf8Size_le_four
        rw [← String.length_utf8EncodeChar] at size
        refine ⟨[], char :: chars, (utf8EncodeChar char).take count, rfl, ?_,
          decodeChar?_take (by omega), ?_⟩
        · rw [List.flatMap_cons, List.take_append_of_le_length (by omega), List.flatMap_nil,
            List.nil_append]
        · rw [List.length_take]
          omega

theorem decodeWithin_append {chars : List Char} {tail : Bytes} (none : decodeChar? tail = none)
    {bound : Nat} (enough : chars.length ≤ bound) :
    decodeWithin bound (chars.flatMap utf8EncodeChar ++ tail) = (chars, tail) := by
  induction chars generalizing bound with
  | nil => cases bound <;> simp [decodeWithin, none]
  | cons char chars inductionHypothesis =>
      cases bound with
      | zero => simp at enough
      | succ bound =>
          have later := inductionHypothesis (Nat.le_of_succ_le_succ enough)
          rw [List.flatMap_cons, List.append_assoc, decodeWithin, decodeChar?_encodeChar]
          simp only [later]

theorem length_le_flatMap_encodeChar (chars : List Char) :
    chars.length ≤ (chars.flatMap utf8EncodeChar).length := by
  induction chars with
  | nil => exact Nat.le_refl 0
  | cons char chars inductionHypothesis =>
      have positive := char.utf8Size_pos
      rw [← String.length_utf8EncodeChar] at positive
      rw [List.flatMap_cons, List.length_append, List.length_cons]
      omega

/-- Decoding finds the characters that are complete. -/
theorem decodePrefix_append {chars : List Char} {tail : Bytes} (none : decodeChar? tail = none) :
    decodePrefix (chars.flatMap utf8EncodeChar ++ tail) = (chars, tail) := by
  refine decodeWithin_append none ?_
  have length := length_le_flatMap_encodeChar chars
  rw [List.length_append]
  omega

theorem eq_append_of_decodeWithin {bound : Nat} {bytes tail : Bytes} {chars : List Char}
    (decoded : decodeWithin bound bytes = (chars, tail)) :
    bytes = chars.flatMap utf8EncodeChar ++ tail := by
  induction bound generalizing bytes chars with
  | zero =>
      cases decoded
      rfl
  | succ bound inductionHypothesis =>
      rw [decodeWithin] at decoded
      split at decoded
      · cases decoded
        rfl
      · next char rest found =>
          generalize later : decodeWithin bound rest = result at decoded
          obtain ⟨others, left⟩ := result
          cases decoded
          rw [eq_encodeChar_of_decodeChar? found, inductionHypothesis later, List.flatMap_cons,
            List.append_assoc]

/-- What is decoded and what is left are all there was. -/
theorem eq_append_of_decodePrefix {bytes tail : Bytes} {chars : List Char}
    (decoded : decodePrefix bytes = (chars, tail)) :
    bytes = chars.flatMap utf8EncodeChar ++ tail :=
  eq_append_of_decodeWithin decoded

/-- Of the bytes of characters, a beginning decodes to the first characters, and leaves bytes that
begin the next. -/
theorem exists_decodePrefix_eq {chars : List Char} {front back : Bytes}
    (whole : front ++ back = chars.flatMap utf8EncodeChar) :
    ∃ before after tail, chars = before ++ after ∧ decodePrefix front = (before, tail) ∧
      tail ++ back = after.flatMap utf8EncodeChar ∧ decodeChar? tail = none ∧
      tail.length ≤ 3 := by
  obtain ⟨before, after, tail, rfl, taken, none, short⟩ :=
    exists_take_encodeChars chars front.length
  rw [← whole, List.take_left] at taken
  subst taken
  refine ⟨before, after, tail, rfl, decodePrefix_append none, ?_, none, short⟩
  rw [List.flatMap_append, List.append_assoc] at whole
  exact List.append_cancel_left whole

/-- A text is read back from its bytes. -/
theorem decode?_encode (text : String) : decode? (encode text) = some text := by
  have decoded : decodePrefix (text.toList.flatMap utf8EncodeChar ++ []) = (text.toList, []) :=
    decodePrefix_append rfl
  rw [List.append_nil] at decoded
  rw [decode?, encode, decoded]
  simp only [String.ofList_toList]

theorem encode_inj {left right : String} : encode left = encode right ↔ left = right := by
  constructor
  · intro same
    have decoded := decode?_encode left
    rw [same, decode?_encode] at decoded
    exact (Option.some.inj decoded).symm
  · rintro rfl
    rfl

theorem encode_ofList (chars : List Char) :
    encode (String.ofList chars) = chars.flatMap utf8EncodeChar := by
  rw [encode, String.toList_ofList]

theorem encode_ofList_flatten (parts : List (List Char)) :
    encode (String.ofList parts.flatten) = (parts.map (·.flatMap utf8EncodeChar)).flatten := by
  rw [encode_ofList, ← List.flatMap_id, List.flatMap_assoc, List.flatMap_def]
  rfl

/-- The bytes of some text. -/
def Valid (bytes : Bytes) : Prop := ∃ text, encode text = bytes

theorem Valid.exists_chars {bytes : Bytes} (valid : Valid bytes) :
    ∃ chars : List Char, chars.flatMap utf8EncodeChar = bytes := by
  obtain ⟨text, encoded⟩ := valid
  exact ⟨text.toList, encoded⟩

/-- Texts one after the other are a text. -/
theorem Valid.flatten {parts : List Bytes} (valid : ∀ part ∈ parts, Valid part) :
    Valid parts.flatten := by
  induction parts with
  | nil => exact ⟨"", rfl⟩
  | cons part parts inductionHypothesis =>
      obtain ⟨front, rfl⟩ := valid part List.mem_cons_self
      obtain ⟨back, whole⟩ := inductionHypothesis fun other membership =>
        valid other (List.mem_cons_of_mem _ membership)
      refine ⟨front ++ back, ?_⟩
      rw [List.flatten_cons, ← whole, encode, String.toList_append, List.flatMap_append]
      rfl

end VersionedKeys.Utf8
