/-!
# Byte offsets into text

Positions count bytes of the UTF-8 form of a text, while the text itself is a
list of characters. An offset is meaningful when it falls between two
characters; cutting at any other offset gives `none`.

## Main definitions

* `Text.size`: the number of bytes of a text.
* `Text.splitAt?`: the characters before and after an offset.
* `Text.slice?`: the characters between two offsets.

## Main results

* `Text.splitAt?_eq_some_iff`: a cut is a way to write the text as two parts,
  the first of which has the offset's size.
* `Text.slice?_eq_some_iff`: the same for what stands between two offsets.
* `Text.slice?_append`: neighbouring slices are one slice.
* `Text.splitAt?_append`, `Text.slice?_append_left`: text in front moves every cut.
-/

namespace Peg.Text

/-- The number of bytes in the UTF-8 form of a text. -/
def size : List Char → Nat
  | [] => 0
  | c :: cs => c.utf8Size + size cs

@[simp]
theorem size_nil : size [] = 0 :=
  rfl

@[simp]
theorem size_cons (c : Char) (cs : List Char) : size (c :: cs) = c.utf8Size + size cs :=
  rfl

@[simp]
theorem size_append (cs ds : List Char) : size (cs ++ ds) = size cs + size ds := by
  induction cs with
  | nil => simp
  | cons c cs ih => simp [ih, Nat.add_assoc]

theorem size_pos {cs : List Char} (h : cs ≠ []) : 0 < size cs := by
  cases cs with
  | nil => exact absurd rfl h
  | cons c cs => exact Nat.add_pos_left c.utf8Size_pos _

/-- The characters before and after a byte offset. There are none when the
offset lies past the end or inside a character. -/
def splitAt? : List Char → Nat → Option (List Char × List Char)
  | cs, 0 => some ([], cs)
  | [], _ + 1 => none
  | c :: cs, offset + 1 =>
    if c.utf8Size ≤ offset + 1 then
      (splitAt? cs (offset + 1 - c.utf8Size)).map fun (before, after) => (c :: before, after)
    else none

/-- An offset is a boundary when the text can be cut there. -/
def isBoundary (cs : List Char) (offset : Nat) : Bool :=
  (splitAt? cs offset).isSome

/-- The characters after a byte offset. -/
def dropBytes? (cs : List Char) (offset : Nat) : Option (List Char) :=
  (splitAt? cs offset).map (·.2)

/-- The characters between two byte offsets, both of which have to be boundaries. -/
def slice? (cs : List Char) (start stop : Nat) : Option (List Char) :=
  if start ≤ stop then do
    let rest ← dropBytes? cs start
    let (inside, _) ← splitAt? rest (stop - start)
    return inside
  else none

theorem splitAt?_size_append (before after : List Char) :
    splitAt? (before ++ after) (size before) = some (before, after) := by
  induction before with
  | nil => simp [splitAt?]
  | cons c before ih =>
    have positive : 0 < c.utf8Size := c.utf8Size_pos
    obtain ⟨n, hn⟩ : ∃ n, c.utf8Size + size before = n + 1 :=
      ⟨c.utf8Size + size before - 1, by omega⟩
    have tail : n + 1 - c.utf8Size = size before := by omega
    simp [splitAt?, hn, tail, ih, show c.utf8Size ≤ n + 1 by omega]

theorem append_of_splitAt?_eq_some {cs before after : List Char} {offset : Nat}
    (h : splitAt? cs offset = some (before, after)) :
    cs = before ++ after ∧ size before = offset := by
  induction cs generalizing offset before after with
  | nil =>
    cases offset with
    | zero => simp_all [splitAt?]
    | succ offset => simp [splitAt?] at h
  | cons c cs ih =>
    cases offset with
    | zero => simp_all [splitAt?]
    | succ offset =>
      simp only [splitAt?] at h
      split at h
      · simp only [Option.map_eq_some_iff, Prod.exists, Prod.mk.injEq] at h
        obtain ⟨init, rest, cut, rfl, rfl⟩ := h
        obtain ⟨rfl, bytes⟩ := ih cut
        exact ⟨rfl, by simp only [size_cons]; omega⟩
      · simp at h

/-- Cutting at an offset writes the text as two parts, the first of that size. -/
theorem splitAt?_eq_some_iff {cs before after : List Char} {offset : Nat} :
    splitAt? cs offset = some (before, after) ↔ cs = before ++ after ∧ size before = offset :=
  ⟨append_of_splitAt?_eq_some, fun ⟨whole, bytes⟩ =>
    whole ▸ bytes ▸ splitAt?_size_append before after⟩

/-- Two cuts of one text at one offset are the same cut. -/
theorem append_inj_of_size {before after before' after' : List Char}
    (whole : before ++ after = before' ++ after') (bytes : size before = size before') :
    before = before' ∧ after = after' := by
  have cut := splitAt?_size_append before after
  rw [whole, bytes, splitAt?_size_append] at cut
  simpa [eq_comm] using cut

/-- A cut behind some text is a cut of what follows it. -/
theorem splitAt?_append (front cs : List Char) (offset : Nat) :
    splitAt? (front ++ cs) (size front + offset) =
      (splitAt? cs offset).map fun (before, after) => (front ++ before, after) := by
  cases cut : splitAt? cs offset with
  | some parts =>
    obtain ⟨rfl, rfl⟩ := splitAt?_eq_some_iff.1 cut
    rw [← List.append_assoc, ← size_append, splitAt?_size_append]
    rfl
  | none =>
    rw [Option.map_none, Option.eq_none_iff_forall_ne_some]
    rintro ⟨before, after⟩ found
    obtain ⟨whole, bytes⟩ := splitAt?_eq_some_iff.1 found
    -- The part before the cut is at least as long as the text in front.
    obtain ⟨more, rfl, rfl⟩ | ⟨more, rfl, rfl⟩ := List.append_eq_append_iff.1 whole
    · rw [size_append] at bytes
      rw [show offset = size more by omega, splitAt?_size_append] at cut
      cases cut
    · rw [size_append] at bytes
      obtain rfl : offset = 0 := by omega
      simp [splitAt?] at cut

theorem isBoundary_iff {cs : List Char} {offset : Nat} :
    isBoundary cs offset = true ↔ ∃ before after, cs = before ++ after ∧ size before = offset := by
  simp [isBoundary, Option.isSome_iff_exists, splitAt?_eq_some_iff]

theorem dropBytes?_eq_some_iff {cs after : List Char} {offset : Nat} :
    dropBytes? cs offset = some after ↔ ∃ before, cs = before ++ after ∧ size before = offset := by
  simp [dropBytes?, Option.map_eq_some_iff, splitAt?_eq_some_iff]

/-- What stands between two offsets is the middle of a text in three parts. -/
theorem slice?_eq_some_iff {cs inside : List Char} {start stop : Nat} :
    slice? cs start stop = some inside ↔
      ∃ before after, cs = before ++ inside ++ after ∧ size before = start ∧
        start + size inside = stop := by
  constructor
  · intro h
    unfold slice? at h
    split at h
    · simp only [Option.bind_eq_bind, Option.bind_eq_some_iff, dropBytes?_eq_some_iff,
        splitAt?_eq_some_iff, Prod.exists, Option.pure_def, Option.some.injEq] at h
      obtain ⟨_, ⟨before, rfl, rfl⟩, _, after, ⟨rfl, bytes⟩, rfl⟩ := h
      exact ⟨before, after, (List.append_assoc _ _ _).symm, rfl, by omega⟩
    · cases h
  · rintro ⟨before, after, rfl, rfl, rfl⟩
    have rest : dropBytes? (before ++ (inside ++ after)) (size before) = some (inside ++ after) :=
      dropBytes?_eq_some_iff.2 ⟨before, rfl, rfl⟩
    simp [slice?, rest, splitAt?_size_append]

/-- What is left behind a cut does not depend on text in front. -/
theorem dropBytes?_append (front cs : List Char) (offset : Nat) :
    dropBytes? (front ++ cs) (size front + offset) = dropBytes? cs offset := by
  rw [dropBytes?, splitAt?_append, Option.map_map]
  rfl

/-- Neither does what stands between two cuts. -/
theorem slice?_append_left (front cs : List Char) (start stop : Nat) :
    slice? (front ++ cs) (size front + start) (size front + stop) = slice? cs start stop := by
  simp only [slice?, dropBytes?_append, Nat.add_le_add_iff_left, Nat.add_sub_add_left]

section Slices

variable {cs found found' : List Char} {start middle stop : Nat}

theorem isBoundary_of_slice? (h : slice? cs start stop = some found) :
    isBoundary cs stop = true := by
  obtain ⟨before, after, cut, bytes, ends⟩ := slice?_eq_some_iff.1 h
  exact isBoundary_iff.2 ⟨before ++ found, after, cut, by rw [size_append, bytes, ends]⟩

/-- The characters between a boundary and itself are none. -/
theorem slice?_self (between : isBoundary cs start = true) : slice? cs start start = some [] := by
  obtain ⟨before, after, cut, bytes⟩ := isBoundary_iff.1 between
  exact slice?_eq_some_iff.2 ⟨before, after, by simpa using cut, bytes, rfl⟩

/-- What stands between two offsets is put together from both sides of a third. -/
theorem slice?_append (h : slice? cs start middle = some found)
    (h' : slice? cs middle stop = some found') : slice? cs start stop = some (found ++ found') := by
  obtain ⟨before, after, cut, bytes, ends⟩ := slice?_eq_some_iff.1 h
  obtain ⟨before', after', cut', bytes', ends'⟩ := slice?_eq_some_iff.1 h'
  -- The two ways to cut the text at the third offset are the same.
  have whole : (before ++ found) ++ after = before' ++ (found' ++ after') := by
    rw [← cut, cut', List.append_assoc]
  obtain ⟨rfl, rfl⟩ := append_inj_of_size whole (by rw [size_append, bytes, ends, bytes'])
  refine slice?_eq_some_iff.2 ⟨before, after', by simp [cut], bytes, ?_⟩
  rw [size_append, ← Nat.add_assoc, ends, ends']

end Slices

/-- The size of the characters of a string is its size in bytes. -/
@[simp]
theorem size_toList (s : String) : size s.toList = s.utf8ByteSize := by
  have bytes (cs : List Char) : (String.ofList cs).utf8ByteSize = size cs := by
    induction cs with
    | nil => rfl
    | cons c cs ih => rw [String.ofList_cons, String.utf8ByteSize_append, ih]; simp
  rw [← bytes, String.ofList_toList]

end Peg.Text
