import Peg.NestedList

/-!
# Renderings of nested lists

The texts that write an item, without regard to how they are read. White space
inside a list is free, except that two words side by side need some between them.

## Main definitions

* `NestedList.IsBlank`, `NestedList.IsWord`: runs of white space, and words.
* `NestedList.Renders`: the texts of an item.
* `NestedList.Writes`: the same with white space around them.

## Main results

* `NestedList.Renders.exists_cons`: how a rendering begins.
-/

namespace Peg

/-- Whether an item is a word. -/
def Item.isAtom : Item → Bool
  | .atom _ => true
  | .list _ => false

namespace NestedList

/-- A letter, a digit or an underscore of ASCII. -/
def isWordChar (c : Char) : Bool :=
  c.isAlphanum || c == '_'

/-- White space and nothing else. -/
def IsBlank (cs : List Char) : Prop :=
  ∀ c ∈ cs, Unicode.isWhiteSpace c = true

/-- One or more characters of words. -/
def IsWord (cs : List Char) : Prop :=
  cs ≠ [] ∧ ∀ c ∈ cs, isWordChar c = true

mutual

/-- A word renders itself. A list is rendered by its elements between square
brackets, with white space where there may be some. -/
def Renders : Item → List Char → Prop
  | .atom word, u => u = word.toList ∧ IsWord u
  | .list items, u => ∃ blanks body,
      IsBlank blanks ∧ RendersAll items body ∧ u = '[' :: (blanks ++ body ++ [']'])

/-- Items are rendered one after another, each with white space after it. There
is some between two words. -/
def RendersAll : List Item → List Char → Prop
  | [], body => body = []
  | item :: items, body => ∃ u blanks rest,
      Renders item u ∧ IsBlank blanks ∧ RendersAll items rest ∧
      (item.isAtom = true → items.head?.any Item.isAtom = true → blanks ≠ []) ∧
      body = u ++ blanks ++ rest

end

/-- A text writes an item when it is a rendering with white space around it. -/
def Writes (item : Item) (cs : List Char) : Prop :=
  ∃ before u after, IsBlank before ∧ Renders item u ∧ IsBlank after ∧ cs = before ++ u ++ after

/-! ### Kinds of characters -/

theorem ranges_wordCharSet :
    wordCharSet.ranges = [⟨0x30, 0x39⟩, ⟨0x41, 0x5A⟩, ⟨0x5F, 0x5F⟩, ⟨0x61, 0x7A⟩] := by
  decide

theorem contains_wordCharSet (c : Char) : wordCharSet.contains c = isWordChar c := by
  have upper : c.isUpper = decide (0x41 ≤ c.toNat ∧ c.toNat ≤ 0x5A) := rfl
  have lower : c.isLower = (decide (0x61 ≤ c.toNat) && decide (c.toNat ≤ 0x7A)) := rfl
  have digit : c.isDigit = (decide (0x30 ≤ c.toNat) && decide (c.toNat ≤ 0x39)) := rfl
  have letter : c.isAlphanum = (c.isUpper || c.isLower || c.isDigit) := rfl
  have underscore : c = '_' ↔ c.toNat = 0x5F := Char.toNat_inj.symm
  rw [Bool.eq_iff_iff]
  simp [CharSet.contains, ranges_wordCharSet, CodeRange.contains, isWordChar, letter, upper,
    lower, digit, underscore]
  omega

theorem isWhiteSpace_of_isWordChar {c : Char} (h : isWordChar c = true) :
    Unicode.isWhiteSpace c = false := by
  rw [← contains_wordCharSet] at h
  simp [CharSet.contains, ranges_wordCharSet, CodeRange.contains] at h
  simp [Unicode.isWhiteSpace, Unicode.whiteSpace, CharSet.contains, CodeRange.contains]
  omega

theorem isWordChar_of_isWhiteSpace {c : Char} (h : Unicode.isWhiteSpace c = true) :
    isWordChar c = false := by
  cases word : isWordChar c with
  | false => rfl
  | true =>
    rw [isWhiteSpace_of_isWordChar word] at h
    cases h

/-- Every text begins with the longest run of characters of a kind. -/
theorem exists_run (kind : Char → Bool) (cs : List Char) :
    ∃ run rest, cs = run ++ rest ∧ (∀ c ∈ run, kind c = true) ∧ rest.takeWhile kind = [] := by
  induction cs with
  | nil => exact ⟨[], [], rfl, by simp, rfl⟩
  | cons c cs ih =>
    cases here : kind c with
    | false => exact ⟨[], c :: cs, rfl, by simp, by simp [here]⟩
    | true =>
      obtain ⟨run, rest, rfl, all, stops⟩ := ih
      exact ⟨c :: run, rest, rfl, List.forall_mem_cons.2 ⟨here, all⟩, stops⟩

/-! ### How renderings begin -/

variable {item : Item} {items : List Item} {u body blanks rest : List Char}

/-- A rendering begins with a character of words or with a bracket. -/
theorem Renders.exists_cons (h : Renders item u) :
    ∃ c cs, u = c :: cs ∧ isWordChar c = item.isAtom ∧ Unicode.isWhiteSpace c = false := by
  cases item with
  | atom word =>
    obtain ⟨-, nonempty, all⟩ := h
    obtain ⟨c, cs, rfl⟩ := List.exists_cons_of_ne_nil nonempty
    have word := all c List.mem_cons_self
    exact ⟨c, cs, rfl, word, isWhiteSpace_of_isWordChar word⟩
  | list items =>
    obtain ⟨blanks, body, -, -, rfl⟩ := h
    exact ⟨'[', _, rfl, rfl, rfl⟩

theorem Renders.ne_nil (h : Renders item u) : u ≠ [] := by
  obtain ⟨c, cs, rfl, -⟩ := h.exists_cons
  exact List.cons_ne_nil _ _

/-- No white space begins a rendering. -/
theorem Renders.takeWhile_isWhiteSpace (h : Renders item u) :
    (u ++ rest).takeWhile Unicode.isWhiteSpace = [] := by
  obtain ⟨c, cs, rfl, -, space⟩ := h.exists_cons
  simp [space]

/-- No character of words begins the rendering of a list. -/
theorem Renders.takeWhile_isWordChar (h : Renders item u) (list : item.isAtom = false) :
    (u ++ rest).takeWhile isWordChar = [] := by
  obtain ⟨c, cs, rfl, word, -⟩ := h.exists_cons
  simp [word, list]

/-- White space begins a row of renderings only where it begins what follows the row. -/
theorem RendersAll.takeWhile_isWhiteSpace (h : RendersAll items body)
    (stops : rest.takeWhile Unicode.isWhiteSpace = []) :
    (body ++ rest).takeWhile Unicode.isWhiteSpace = [] := by
  cases items with
  | nil =>
    obtain rfl := h
    exact stops
  | cons item items =>
    obtain ⟨u, blanks, more, first, -, -, -, rfl⟩ := h
    rw [List.append_assoc, List.append_assoc]
    exact first.takeWhile_isWhiteSpace

/-- A word can go on in a row of renderings only where the row begins with one. -/
theorem RendersAll.takeWhile_isWordChar (h : RendersAll items body)
    (list : items.head?.any Item.isAtom = false) (stops : rest.takeWhile isWordChar = []) :
    (body ++ rest).takeWhile isWordChar = [] := by
  cases items with
  | nil =>
    obtain rfl := h
    exact stops
  | cons item items =>
    obtain ⟨u, blanks, more, first, -, -, -, rfl⟩ := h
    rw [List.append_assoc, List.append_assoc]
    exact first.takeWhile_isWordChar list

/-- A row of renderings that begins with a word begins with a character of words. -/
theorem RendersAll.takeWhile_isWordChar_ne_nil (h : RendersAll items body)
    (atom : items.head?.any Item.isAtom = true) : (body ++ rest).takeWhile isWordChar ≠ [] := by
  cases items with
  | nil => cases atom
  | cons item items =>
    obtain ⟨u, blanks, more, first, -, -, -, rfl⟩ := h
    obtain ⟨c, cs, rfl, word, -⟩ := first.exists_cons
    have word : isWordChar c = true := word.trans atom
    simp [word]

/-- What follows a blank run that is not empty does not go on a word. -/
theorem IsBlank.takeWhile_isWordChar (h : IsBlank blanks) (nonempty : blanks ≠ []) :
    (blanks ++ rest).takeWhile isWordChar = [] := by
  obtain ⟨c, cs, rfl⟩ := List.exists_cons_of_ne_nil nonempty
  simp [isWordChar_of_isWhiteSpace (h c List.mem_cons_self)]

end NestedList

end Peg
