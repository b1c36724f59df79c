import Peg.Parser.Run

/-!
# Literals and bytes

Positions count bytes, while a literal is compared with the input character by
character. Both views agree because UTF-8 can be read from the middle: the first
byte of a character looks different from the bytes that follow it, and no
character begins with all the bytes of another one.

## Main definitions

* `Text.bytes`: the bytes of the UTF-8 form of a text.
* `Text.StandsAt`: a text whose bytes come next at an offset between characters.

## Main results

* `Text.encode_prefix_iff`: a text begins with the characters of another exactly if
  it begins with their bytes.
* `Text.isBoundary_iff_firstByte`: a text can be cut at its end and before the first
  bytes of its characters, and nowhere else.
* `runAt_literal_eq`: a literal succeeds exactly where its text stands.
-/

namespace Peg

namespace Text

/-- The bytes of the UTF-8 form of a text. -/
def bytes (s : String) : List UInt8 :=
  s.toByteArray.data.toList

/-- The bytes of some characters, one after another. -/
def encode (cs : List Char) : List UInt8 :=
  cs.flatMap String.utf8EncodeChar

@[simp]
theorem encode_nil : encode [] = [] :=
  rfl

@[simp]
theorem encode_cons (c : Char) (cs : List Char) :
    encode (c :: cs) = String.utf8EncodeChar c ++ encode cs :=
  rfl

@[simp]
theorem encode_append (cs ds : List Char) : encode (cs ++ ds) = encode cs ++ encode ds :=
  List.flatMap_append

@[simp]
theorem length_encode (cs : List Char) : (encode cs).length = size cs := by
  induction cs with
  | nil => rfl
  | cons c cs ih => simp [ih]

theorem toByteArray_encode (cs : List Char) : (encode cs).toByteArray = cs.utf8Encode :=
  rfl

theorem bytes_eq_encode (s : String) : bytes s = encode s.toList := by
  rw [bytes, ← String.utf8Encode_toList, ← toByteArray_encode, List.data_toByteArray]

/-- A text begins with the characters of another exactly if it begins with their bytes. -/
theorem encode_prefix_iff {cs ds : List Char} : encode ds <+: encode cs ↔ ds <+: cs := by
  constructor
  · rintro ⟨rest, whole⟩
    refine List.isPrefix_of_utf8Encode_append_eq_utf8Encode rest.toByteArray ?_
    rw [← toByteArray_encode, ← toByteArray_encode, ← whole, List.toByteArray_append]
  · rintro ⟨rest, rfl⟩
    exact ⟨encode rest, (encode_append ds rest).symm⟩

/-! ### Cuts as bytes show them -/

/-- Behind a character a text can be cut where what follows can. -/
theorem isBoundary_cons_add (c : Char) (cs : List Char) (offset : Nat) :
    isBoundary (c :: cs) (c.utf8Size + offset) = isBoundary cs offset := by
  have moved := splitAt?_append [c] cs offset
  rw [size_cons, size_nil, Nat.add_zero, List.singleton_append] at moved
  rw [isBoundary, moved, Option.isSome_map, isBoundary]

/-- Within its first character a text can be cut at the beginning alone. -/
theorem isBoundary_cons_of_lt {c : Char} {offset : Nat} (inside : offset < c.utf8Size)
    (cs : List Char) : isBoundary (c :: cs) offset = true ↔ offset = 0 := by
  cases offset with
  | zero => simp [isBoundary, splitAt?]
  | succ offset => simp [isBoundary, splitAt?, Nat.not_le_of_lt inside]

/-- The first byte of a character is told from the others by its bits. -/
theorem exists_firstByte_iff {c : Char} {offset : Nat} (inside : offset < c.utf8Size) :
    (∃ byte, (String.utf8EncodeChar c)[offset]? = some byte ∧ byte.IsUTF8FirstByte) ↔
      offset = 0 := by
  have length : offset < (String.utf8EncodeChar c).length := by
    rwa [String.length_utf8EncodeChar]
  rw [List.getElem?_eq_getElem length]
  simp [UInt8.isUTF8FirstByte_getElem_utf8EncodeChar]

/-- A text can be cut at its end and before the first bytes of its characters, and
nowhere else. -/
theorem isBoundary_iff_firstByte {cs : List Char} {offset : Nat} :
    isBoundary cs offset = true ↔
      offset = size cs ∨ ∃ byte, (encode cs)[offset]? = some byte ∧ byte.IsUTF8FirstByte := by
  induction cs generalizing offset with
  | nil => cases offset <;> simp [isBoundary, splitAt?]
  | cons c cs ih =>
    have chars : (String.utf8EncodeChar c).length = c.utf8Size := String.length_utf8EncodeChar c
    rw [encode_cons, size_cons]
    obtain inside | behind := Nat.lt_or_ge offset c.utf8Size
    · have before : offset ≠ c.utf8Size + size cs := by omega
      rw [isBoundary_cons_of_lt inside, List.getElem?_append_left (by rwa [chars]),
        exists_firstByte_iff inside]
      simp [before]
    · obtain ⟨offset, rfl⟩ := Nat.exists_eq_add_of_le behind
      rw [isBoundary_cons_add, ih, List.getElem?_append_right (by rwa [chars]), chars,
        Nat.add_sub_cancel_left, Nat.add_left_cancel_iff]

/-! ### Texts that stand in others -/

/-- A text stands at an offset of another: the offset falls between characters, and
the bytes from there on begin with those of the text. -/
def StandsAt (text input : String) (start : Nat) : Prop :=
  isBoundary input.toList start = true ∧ bytes text <+: (bytes input).drop start

instance (text input : String) (start : Nat) : Decidable (StandsAt text input start) :=
  inferInstanceAs (Decidable (_ ∧ _))

variable {text input : String} {start : Nat}

/-- A text that stands in another is a part of it. -/
theorem standsAt_iff :
    StandsAt text input start ↔
      ∃ before after, input.toList = before ++ text.toList ++ after ∧ size before = start := by
  rw [StandsAt, isBoundary_iff, bytes_eq_encode, bytes_eq_encode]
  constructor
  · rintro ⟨⟨before, rest, cut, rfl⟩, comes⟩
    rw [cut, encode_append, ← length_encode, List.drop_left, encode_prefix_iff] at comes
    obtain ⟨after, rfl⟩ := comes
    exact ⟨before, after, by rw [cut, List.append_assoc], rfl⟩
  · rintro ⟨before, after, cut, rfl⟩
    rw [List.append_assoc] at cut
    refine ⟨⟨before, text.toList ++ after, cut, rfl⟩, ?_⟩
    rw [cut, encode_append, ← length_encode, List.drop_left, encode_prefix_iff]
    exact List.prefix_append _ _

/-- Where a text stands, so does every beginning of it. -/
theorem StandsAt.of_prefix {beginning : String} (h : StandsAt text input start)
    (begins : beginning.toList <+: text.toList) : StandsAt beginning input start := by
  obtain ⟨before, after, cut, bytes⟩ := standsAt_iff.1 h
  obtain ⟨more, whole⟩ := begins
  exact standsAt_iff.2 ⟨before, more ++ after, by rw [cut, ← whole]; simp, bytes⟩

/-- It can be cut out, and ends between characters and within the other text. -/
theorem StandsAt.slice? (h : StandsAt text input start) :
    slice? input.toList start (start + text.utf8ByteSize) = some text.toList := by
  obtain ⟨before, after, cut, bytes⟩ := standsAt_iff.1 h
  exact slice?_eq_some_iff.2 ⟨before, after, cut, bytes, by rw [size_toList]⟩

theorem StandsAt.le (h : StandsAt text input start) :
    start + text.utf8ByteSize ≤ input.utf8ByteSize := by
  obtain ⟨before, after, cut, rfl⟩ := standsAt_iff.1 h
  have whole := congrArg size cut
  simp only [size_append, size_toList] at whole
  omega

/-- The bytes of a text that is not empty come next only between characters, because
the first of them is the first byte of a character. -/
theorem standsAt_iff_of_ne_empty (nonempty : text ≠ "") :
    StandsAt text input start ↔ bytes text <+: (bytes input).drop start := by
  refine and_iff_right_of_imp fun comes => ?_
  obtain ⟨c, cs, chars⟩ := List.exists_cons_of_ne_nil (mt String.toList_eq_nil_iff.1 nonempty)
  have front : (0 : Nat) < (String.utf8EncodeChar c).length := by
    rw [String.length_utf8EncodeChar]
    exact c.utf8Size_pos
  obtain ⟨byte, first, leads⟩ := (exists_firstByte_iff c.utf8Size_pos).2 rfl
  have next : (bytes text)[0]? = some byte := by
    rw [bytes_eq_encode, chars, encode_cons, List.getElem?_append_left front, first]
  have here : ((bytes input).drop start)[0]? = some byte := by
    obtain ⟨rest, whole⟩ := comes
    have nonempty := (List.getElem?_eq_some_iff.1 next).1
    rw [← whole, List.getElem?_append_left nonempty, next]
  rw [List.getElem?_drop, Nat.add_zero] at here
  rw [isBoundary_iff_firstByte, ← bytes_eq_encode]
  exact .inr ⟨byte, here, leads⟩

end Text

section Literals

variable {rules : Rules} {text input : String} {start : Nat}

/-- A literal succeeds where its text stands. -/
theorem runAt_literal_of_standsAt (stands : Text.StandsAt text input start) :
    (Parser.literal text).runAt rules input start =
      some ⟨.success ⟨.text text, start, start + text.utf8ByteSize⟩, 0⟩ := by
  obtain ⟨before, after, cut, bytes⟩ := Text.standsAt_iff.1 stands
  rw [Parser.runAt_literal, literalOutcome_of_append cut bytes]

/-- It fails everywhere else. -/
theorem runAt_literal_of_not_standsAt (nowhere : ¬ Text.StandsAt text input start) :
    (Parser.literal text).runAt rules input start =
      some ⟨.failure ⟨"Expected: " ++ text, start⟩, 0⟩ := by
  have elsewhere : ∀ before after, input.toList = before ++ text.toList ++ after →
      Text.size before ≠ start :=
    fun before after cut bytes => nowhere (Text.standsAt_iff.2 ⟨before, after, cut, bytes⟩)
  rw [Parser.runAt_literal, literalOutcome_of_ne elsewhere, Failure.expected]

end Literals

/-- **Literals and bytes.** A literal succeeds where its text stands, with the text itself,
which can be cut out of the input there and ends between characters. Everywhere else it
fails in place. The bytes alone decide where a text stands unless it is empty. An end that
is never put behind the largest position there is comes to the same, as long as the input
does not reach behind that position either. -/
theorem runAt_literal_eq (rules : Rules) (text input : String) (start : Nat) :
    (Parser.literal text).runAt rules input start =
      some ⟨if Text.StandsAt text input start then
          .success ⟨.text text, start, start + text.utf8ByteSize⟩
        else .failure ⟨"Expected: " ++ text, start⟩, 0⟩ ∧
    (Text.StandsAt text input start →
      Text.slice? input.toList start (start + text.utf8ByteSize) = some text.toList ∧
      Text.isBoundary input.toList (start + text.utf8ByteSize) = true ∧
      start + text.utf8ByteSize ≤ input.utf8ByteSize) ∧
    (text ≠ "" →
      (Text.StandsAt text input start ↔ Text.bytes text <+: (Text.bytes input).drop start)) ∧
    ∀ largest, input.utf8ByteSize ≤ largest →
      (Text.StandsAt text input start ↔
        Text.slice? input.toList start (min (start + text.utf8ByteSize) largest) =
          some text.toList) := by
  refine ⟨?_, fun stands => ?_, Text.standsAt_iff_of_ne_empty, fun largest reach => ⟨?_, ?_⟩⟩
  · split
    · next stands => exact runAt_literal_of_standsAt stands
    · next nowhere => exact runAt_literal_of_not_standsAt nowhere
  · exact ⟨stands.slice?, Text.isBoundary_of_slice? stands.slice?, stands.le⟩
  · intro stands
    rw [Nat.min_eq_left (Nat.le_trans stands.le reach)]
    exact stands.slice?
  · intro slice
    obtain ⟨before, after, cut, bytes, -⟩ := Text.slice?_eq_some_iff.1 slice
    exact Text.standsAt_iff.2 ⟨before, after, cut, bytes⟩

end Peg
