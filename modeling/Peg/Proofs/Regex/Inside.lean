import Mathlib.Data.List.TakeWhile
import Mathlib.Data.Option.Basic
import Peg.Regex.Token

/-!
# Reading inside of a group

What is read from a text is read in the same way if the closing bracket of a group
follows the text, and whatever comes behind it. The readers look ahead, some of them
to the end of the text, but none of them takes a closing bracket for anything that it
could go on with.

Blanks count here: where they are skipped, a comment would run on into the bracket.

## Main definitions

* `ReadsInside`: a reader that does not notice a closing bracket behind the text.

## Main results

* `readsInside_readEscape`, `readsInside_readBrackets`, `readsInside_readBounds`:
  escapes, classes and bounds are read inside of a group as they are elsewhere.
-/

namespace Peg.Regex

variable {α : Type} {cs row rest later : List Char} {test : Char → Bool}

/-- A reader gives the same if a closing bracket follows the text. -/
def ReadsInside (read : List Char → Option (α × List Char)) : Prop :=
  ∀ cs result rest later, read cs = some (result, rest) →
    read (cs ++ ')' :: later) = some (result, rest ++ ')' :: later)

/-! ### Rows of characters -/

/-- A row that ends inside of a text ends there in every longer text. -/
theorem takeLoose_append {count : Nat} (h : takeLoose false test count cs = (row, rest))
    (inside : rest ≠ []) (enough : cs.length ≤ count) {count' : Nat} (more : cs.length ≤ count')
    (later : List Char) : takeLoose false test count' (cs ++ later) = (row, rest ++ later) := by
  induction cs generalizing row count count' with
  | nil =>
    have nothing : takeLoose false test count [] = ([], []) := by cases count <;> rfl
    rw [nothing] at h
    cases h
    exact absurd rfl inside
  | cons c cs ih =>
    obtain ⟨count, rfl⟩ := Nat.exists_eq_add_of_lt enough
    obtain ⟨count', rfl⟩ := Nat.exists_eq_add_of_lt more
    simp only [takeLoose, skipBlank] at h
    simp only [List.cons_append, takeLoose, skipBlank]
    by_cases goes : test c
    · simp only [goes, if_true] at h ⊢
      obtain ⟨rfl, rfl⟩ := Prod.mk.inj h
      have tail := ih rfl (by omega) (Nat.le_add_right cs.length count')
      simp [tail]
    · simp only [goes] at h ⊢
      obtain ⟨rfl, rfl⟩ := Prod.mk.inj h
      rfl

/-- A row of a given length, or one that no bracket belongs to, is the same. -/
theorem takeLoose_inside (apart : test ')' = false) (count : Nat) (cs later : List Char) :
    takeLoose false test count (cs ++ ')' :: later) =
      ((takeLoose false test count cs).1, (takeLoose false test count cs).2 ++ ')' :: later) := by
  induction cs generalizing count with
  | nil => cases count <;> simp [takeLoose, apart]
  | cons c cs ih =>
    cases count with
    | zero => rfl
    | succ count =>
      simp only [List.cons_append, takeLoose, skipBlank]
      by_cases goes : test c
      · simp [goes, ih]
      · simp [goes]

theorem dropWhile_append_of_ne_nil (inside : cs.dropWhile test ≠ []) :
    (cs ++ later).dropWhile test = cs.dropWhile test ++ later := by
  rw [List.dropWhile_append, if_neg]
  simpa using inside

theorem readDecimal_append {number : Nat} (h : readDecimal false cs = some (number, rest))
    (inside : rest ≠ []) : readDecimal false (cs ++ later) = some (number, rest ++ later) := by
  unfold readDecimal at h ⊢
  generalize taken : takeLoose false Char.isDigit
    (cs.dropWhile Unicode.isWhiteSpace).length (cs.dropWhile Unicode.isWhiteSpace) = found at h
  obtain ⟨row, after⟩ := found
  simp only [taken] at h
  split at h
  · cases h
  · next good =>
    cases h
    -- Something is left behind the digits, and so something stands before them.
    have left : after ≠ [] := by
      rintro rfl
      exact inside rfl
    have start : cs.dropWhile Unicode.isWhiteSpace ≠ [] := by
      intro nothing
      rw [nothing] at taken
      cases taken
      exact left rfl
    have enough : (cs.dropWhile Unicode.isWhiteSpace).length ≤
        ((cs ++ later).dropWhile Unicode.isWhiteSpace).length := by
      rw [dropWhile_append_of_ne_nil start, List.length_append]
      exact Nat.le_add_right _ _
    have digits := takeLoose_append taken left le_rfl enough later
    rw [dropWhile_append_of_ne_nil start] at digits ⊢
    simp only [digits, good, dropWhile_append_of_ne_nil inside]
    rfl

/-! ### Escapes -/

/-- What is in braces ends inside of the text. -/
theorem takeLoose_braced {start : List Char}
    (h : (takeLoose false test start.length start).2 ≠ []) :
    takeLoose false test (start ++ later).length (start ++ later) =
      ((takeLoose false test start.length start).1,
        (takeLoose false test start.length start).2 ++ later) :=
  takeLoose_append rfl h le_rfl (by rw [List.length_append]; exact Nat.le_add_right _ _) later

theorem tail?_append_of_eq_some (h : cs.tail? = some rest) (later : List Char) :
    (cs ++ later).tail? = some (rest ++ later) := by
  cases cs with
  | nil => cases h
  | cons c cs =>
    obtain rfl := Option.some.inj h
    rfl

/-- Behind a text that does not begin with a character the bracket does not either. -/
theorem append_ne_cons {c : Char} (apart : c ≠ ')') (h : ∀ rest, cs ≠ c :: rest)
    (rest : List Char) : cs ++ ')' :: later ≠ c :: rest := by
  intro same
  cases cs with
  | nil => exact apart (List.cons.inj same).1.symm
  | cons d cs =>
    obtain rfl := (List.cons.inj same).1
    exact h cs rfl

theorem append_ne_cons_cons {c d : Char} (apart : c ≠ ')' ∧ d ≠ ')')
    (h : ∀ rest, cs ≠ c :: d :: rest) (rest : List Char) :
    cs ++ ')' :: later ≠ c :: d :: rest := by
  intro same
  match cs with
  | [] => exact apart.1 (List.cons.inj same).1.symm
  | [e] => exact apart.2 (List.cons.inj (List.cons.inj same).2).1.symm
  | e :: f :: cs =>
    obtain ⟨rfl, tails⟩ := List.cons.inj same
    obtain ⟨rfl, -⟩ := List.cons.inj tails
    exact h cs rfl

theorem readsInside_readHex (digits : Nat) : ReadsInside (readHex false digits) := by
  intro cs part rest later h
  unfold readHex at h ⊢
  simp only [skipBlank_false] at h ⊢
  split at h
  · next start =>
    obtain ⟨after, closed, next⟩ := Option.bind_eq_some_iff.1 h
    obtain ⟨char, code, same⟩ := Option.bind_eq_some_iff.1 next
    cases same
    -- The brace that closes the number stands in the text, so the row ends before it.
    have inside : (takeLoose false (· != '\x7d') start.length start).2 ≠ [] := by
      intro nothing
      rw [nothing] at closed
      cases closed
    simp only [List.cons_append, takeLoose_braced inside, tail?_append_of_eq_some closed, code,
      Option.bind_eq_bind, Option.bind_some]
    rfl
  · next other =>
    obtain ⟨_, full, next⟩ := Option.bind_eq_some_iff.1 h
    obtain ⟨char, code, same⟩ := Option.bind_eq_some_iff.1 next
    cases same
    split
    · next braced => exact absurd braced (append_ne_cons (by decide) other _)
    · simp only [takeLoose_inside (by decide : isHexDigit ')' = false), full, code,
        Option.bind_eq_bind, Option.bind_some]
      rfl

theorem readsInside_readProperty (negated : Bool) : ReadsInside (readProperty false negated) := by
  intro cs part rest later h
  unfold readProperty at h ⊢
  simp only [skipBlank_false] at h ⊢
  split at h
  · next start =>
    obtain ⟨after, closed, same⟩ := Option.bind_eq_some_iff.1 h
    cases same
    have inside : (takeLoose false (· != '\x7d') start.length start).2 ≠ [] := by
      intro nothing
      rw [nothing] at closed
      cases closed
    simp only [List.cons_append, takeLoose_braced inside, tail?_append_of_eq_some closed,
      Option.bind_eq_bind, Option.bind_some]
    rfl
  · next c start other =>
    split at h
    · cases h
    · next single =>
      cases h
      split
      · next braced => exact absurd (List.cons.inj braced).1 other
      · next same =>
        cases same
        rw [if_neg single]
        rfl
      · next nothing => cases nothing
  · cases h

theorem readsInside_readBoundary : ReadsInside (readBoundary false) := by
  intro cs part rest later h
  unfold readBoundary at h ⊢
  simp only [skipBlank_false] at h ⊢
  split at h
  · next start =>
    split at h
    · cases h
    · next c start =>
      simp only [List.cons_append]
      split at h
      · next name =>
        obtain ⟨_, closed, next⟩ := Option.bind_eq_some_iff.1 h
        obtain ⟨place, named, same⟩ := Option.bind_eq_some_iff.1 next
        cases same
        -- A name that runs on to the end of the text would lack its brace.
        have inside : (takeLoose false (fun c => c.isAlpha || c == '-') (start.length + 1)
            (c :: start)).2 ≠ [] := by
          intro nothing
          rw [nothing] at closed
          cases closed
        have enough : start.length + 1 ≤ (start ++ ')' :: later).length + 1 := by simp
        have longer := takeLoose_append rfl inside le_rfl enough (')' :: later)
        rw [List.cons_append] at longer
        rw [if_pos name]
        obtain ⟨d, after, left⟩ := List.exists_cons_of_ne_nil inside
        simp only [left, List.head?_cons] at closed
        simp only [longer, left, List.cons_append, List.head?_cons, closed, named,
          Option.bind_eq_bind, Option.bind_some]
        rfl
      · next other =>
        cases h
        rw [if_neg other]
        rfl
  · next other =>
    cases h
    split
    · next braced => exact absurd braced (append_ne_cons (by decide) other _)
    · rfl

theorem readsInside_readEscape : ReadsInside (readEscape false) := by
  intro cs part rest later h
  cases cs with
  | nil => cases h
  | cons c cs =>
    simp only [List.cons_append, readEscape] at h ⊢
    split at h
    · next plain =>
      cases h
      rw [if_pos plain]
    · next special =>
      rw [if_neg special]
      split at h
      · exact readsInside_readHex 2 _ _ _ _ h
      · exact readsInside_readHex 4 _ _ _ _ h
      · exact readsInside_readHex 8 _ _ _ _ h
      · exact readsInside_readProperty false _ _ _ _ h
      · exact readsInside_readProperty true _ _ _ _ h
      case h_20 => exact readsInside_readBoundary _ _ _ _ h
      all_goals
        cases h
        try rfl

/-! ### Classes -/

/-- The names of classes are made of letters. -/
theorem AsciiClass.ofName?_eq_none (h : ')' ∈ cs) : ofName? (String.ofList cs) = none := by
  have apart (name : String) (letters : ')' ∉ name.toList) : String.ofList cs ≠ name := by
    rintro rfl
    rw [String.toList_ofList] at letters
    exact letters h
  unfold ofName?
  split
  case h_15 => rfl
  all_goals exact absurd ‹_› (apart _ (by decide))

/-- The name of a class with its colon and its bracket, behind the colon and the sign. -/
def readClassName (negated : Bool) (cs : List Char) : Option (ClassItem × List Char) := do
  let name := cs.takeWhile (· != ':')
  let kind ← AsciiClass.ofName? (String.ofList name)
  match cs.drop name.length with
  | ':' :: ']' :: rest => some (.ascii kind negated, rest)
  | _ => none

/-- A name is the same one, and what is no name does not become one. -/
theorem readClassName_inside (negated : Bool) (cs later : List Char) :
    readClassName negated (cs ++ ')' :: later) =
      (readClassName negated cs).map fun (item, rest) => (item, rest ++ ')' :: later) := by
  by_cases colon : ':' ∈ cs
  · obtain ⟨name, after, rfl, plain⟩ := List.eq_append_cons_of_mem colon
    have solid : ∀ c ∈ name, (c != ':') = true := fun c member =>
      bne_iff_ne.2 (ne_of_mem_of_not_mem member plain)
    have row (more : List Char) : (name ++ ':' :: more).takeWhile (· != ':') = name := by
      rw [List.takeWhile_append_of_pos solid, List.takeWhile_cons_of_neg (by simp),
        List.append_nil]
    simp only [readClassName]
    rw [List.append_assoc, List.cons_append, row, row, List.drop_left, List.drop_left]
    cases AsciiClass.ofName? (String.ofList name) with
    | none => rfl
    | some kind =>
      match after with
      | [] => rfl
      | c :: after =>
        by_cases close : c = ']'
        · subst close
          rfl
        · -- With these at hand the match on the bracket goes on to its last case.
          have apart : ∀ rest, ':' :: c :: after = ':' :: ']' :: rest → False := by simp [close]
          have apart' : ∀ rest, ':' :: c :: (after ++ ')' :: later) = ':' :: ']' :: rest →
              False := by simp [close]
          simp
  · -- Without a second colon the name runs on over the bracket.
    have solid : ∀ c ∈ cs, (c != ':') = true := fun c member =>
      bne_iff_ne.2 (ne_of_mem_of_not_mem member colon)
    have bracket : ')' ∈ (cs ++ ')' :: later).takeWhile (· != ':') := by
      rw [List.takeWhile_append_of_pos solid]
      simp
    simp only [readClassName]
    rw [AsciiClass.ofName?_eq_none bracket, List.takeWhile_eq_self_iff.2 solid, List.drop_length]
    cases AsciiClass.ofName? (String.ofList cs) <;> rfl

/-- Between colons stands the same name of a class. -/
theorem readAsciiClass_inside (cs later : List Char) :
    readAsciiClass (cs ++ ')' :: later) =
      (readAsciiClass cs).map fun (item, rest) => (item, rest ++ ')' :: later) := by
  match cs with
  | [] => rfl
  | c :: cs =>
    by_cases colon : c = ':'
    · subst colon
      match cs with
      | [] => exact readClassName_inside false [] later
      | d :: cs =>
        by_cases caret : d = '^'
        · subst caret
          exact readClassName_inside true cs later
        · have apart : ∀ rest, d :: cs = '^' :: rest → False := by simp [caret]
          have apart' : ∀ rest, d :: (cs ++ ')' :: later) = '^' :: rest → False := by simp [caret]
          simp only [readAsciiClass, List.cons_append]
          exact readClassName_inside false (d :: cs) later
    · have apart : ∀ rest, c :: cs = ':' :: rest → False := by simp [colon]
      have apart' : ∀ rest, c :: (cs ++ ')' :: later) = ':' :: rest → False := by simp [colon]
      simp [readAsciiClass]

theorem readsInside_readPrimitive : ReadsInside (readPrimitive false) := by
  intro cs part rest later h
  unfold readPrimitive at h
  split at h
  · cases h
  · exact readsInside_readEscape _ _ _ later h
  · next c cs plain =>
    cases h
    simp only [List.cons_append, readPrimitive]

theorem readsInside_readRange : ReadsInside (readRange false) := by
  intro cs part rest later h
  obtain ⟨⟨first, after⟩, read, next⟩ := Option.bind_eq_some_iff.1 h
  unfold readRange
  rw [readsInside_readPrimitive _ _ _ later read]
  simp only [skipBlank_false, Option.bind_eq_bind, Option.bind_some] at next ⊢
  split at next
  · cases next
  · next beyond =>
    cases beyond with
    | nil => cases next
    | cons c beyond =>
      have ahead : peekPast false (c :: beyond ++ ')' :: later) = peekPast false (c :: beyond) :=
        rfl
      simp only [List.cons_append] at ahead ⊢
      rw [ahead]
      split at next
      · next single =>
        obtain ⟨item, made, same⟩ := Option.bind_eq_some_iff.1 next
        cases same
        rw [if_pos single, made]
        rfl
      · next range =>
        obtain ⟨⟨last, after⟩, read', next⟩ := Option.bind_eq_some_iff.1 next
        obtain ⟨lo, low, next⟩ := Option.bind_eq_some_iff.1 next
        obtain ⟨hi, high, next⟩ := Option.bind_eq_some_iff.1 next
        obtain ⟨_, inOrder, same⟩ := Option.bind_eq_some_iff.1 next
        cases same
        have read' := readsInside_readPrimitive _ _ _ later read'
        rw [List.cons_append] at read'
        rw [if_neg range, read']
        simp only [Option.bind_some, low, high, inOrder]
        rfl
  · next nothing other =>
    obtain ⟨item, made, same⟩ := Option.bind_eq_some_iff.1 next
    cases same
    split
    · next none => simp at none
    · next same => exact absurd same (append_ne_cons (by decide) other _)
    · rw [made]
      rfl

/-- The hyphens or the bracket that a class begins with, behind its sign. -/
def readFront (negated : Bool) (cs : List Char) : Option (Bool × List ClassItem × List Char) :=
  match (leadingHyphens false cs).1, (leadingHyphens false cs).2 with
  | _, [] => none
  | [], ']' :: rest => some (negated, [.literal ⟨']', false⟩], rest)
  | hyphens, rest => some (negated, hyphens, rest)

theorem readFront_append (sign : Bool) {start : List Char} {negated : Bool}
    {first : List ClassItem} (h : readFront sign start = some (negated, first, rest)) :
    readFront sign (start ++ later) = some (negated, first, rest ++ later) := by
  -- The hyphens end inside of the class, since something is left behind them.
  have longer (inside : (leadingHyphens false start).2 ≠ []) :
      leadingHyphens false (start ++ later) =
        ((leadingHyphens false start).1, (leadingHyphens false start).2 ++ later) := by
    unfold leadingHyphens at inside ⊢
    rw [takeLoose_braced inside]
  unfold readFront at h ⊢
  generalize leadingHyphens false start = found at h longer
  obtain ⟨hyphens, after⟩ := found
  simp only at h longer
  split at h
  · cases h
  · cases h
    rw [longer nofun]
    rfl
  · next some other =>
    cases h
    rw [longer some]
    simp only
    split
    · next nothing => exact absurd (List.append_eq_nil_iff.1 nothing).1 some
    · next same =>
      -- A closing bracket comes first in the longer text only if it does so here.
      obtain ⟨c, after, rfl⟩ := List.exists_cons_of_ne_nil some
      obtain ⟨rfl, -⟩ := List.cons.inj same
      exact absurd rfl (other after rfl)
    · rfl

theorem openBracket_append {negated : Bool} {first : List ClassItem}
    (h : openBracket false cs = some (negated, first, rest)) :
    openBracket false (cs ++ later) = some (negated, first, rest ++ later) := by
  match cs with
  | [] => cases h
  | c :: start =>
    by_cases caret : c = '^'
    · subst caret
      have front : readFront true start = some (negated, first, rest) := h
      exact readFront_append true front
    · have apart : ∀ rest, c :: start = '^' :: rest → False := by simp [caret]
      have apart' : ∀ rest, c :: (start ++ later) = '^' :: rest → False := by simp [caret]
      simp only [openBracket, skipBlank_false, List.cons_append] at h ⊢
      have front : readFront false (c :: start) = some (negated, first, rest) := h
      exact readFront_append false front

theorem readBody_append {rounds rounds' : Nat} {pending : Option (SetOp × ClassSet)}
    {items : List ClassItem} {set : ClassSet}
    (h : readBody false rounds pending items cs = some (set, rest)) (enough : rounds ≤ rounds') :
    readBody false rounds' pending items (cs ++ ')' :: later) =
      some (set, rest ++ ')' :: later) := by
  induction rounds generalizing rounds' pending items cs set rest with
  | zero => cases h
  | succ rounds ih =>
    obtain ⟨rounds', rfl⟩ := Nat.exists_eq_add_of_lt enough
    have enough : rounds ≤ rounds + rounds' := Nat.le_add_right _ _
    unfold readBody at h
    simp only [skipBlank_false] at h
    split at h
    · cases h
    · cases h
      rfl
    · next start =>
      have name := readAsciiClass_inside start later
      split at h
      · next item after found =>
        rw [found] at name
        simp only [List.cons_append, readBody, skipBlank_false, name, Option.map_some]
        exact ih h enough
      · next none =>
        rw [none] at name
        obtain ⟨⟨negated, first, after⟩, opened, next⟩ := Option.bind_eq_some_iff.1 h
        obtain ⟨⟨inner, last⟩, body, next⟩ := Option.bind_eq_some_iff.1 next
        simp only [List.cons_append, readBody, skipBlank_false, name, Option.map_none,
          openBracket_append opened, ih body enough, Option.bind_eq_bind, Option.bind_some]
        exact ih next enough
    iterate 3
      simp only [List.cons_append, readBody, skipBlank_false]
      exact ih h enough
    · next some closing opening inter diff symmDiff =>
      -- Where no bracket and no operator stands, what is behind the text adds none.
      obtain ⟨⟨item, after⟩, read, next⟩ := Option.bind_eq_some_iff.1 h
      have range := readsInside_readRange _ _ _ later read
      unfold readBody
      simp only [skipBlank_false]
      split
      · next nothing => simp at nothing
      · next same => exact absurd same (append_ne_cons (by decide) closing _)
      · next same => exact absurd same (append_ne_cons (by decide) opening _)
      · next same => exact absurd same (append_ne_cons_cons (by decide) inter _)
      · next same => exact absurd same (append_ne_cons_cons (by decide) diff _)
      · next same => exact absurd same (append_ne_cons_cons (by decide) symmDiff _)
      · rw [range]
        exact ih next enough

theorem readsInside_readBrackets : ReadsInside (readBrackets false) := by
  intro cs part rest later h
  obtain ⟨⟨negated, first, after⟩, read, next⟩ := Option.bind_eq_some_iff.1 h
  obtain ⟨⟨set, last⟩, body, same⟩ := Option.bind_eq_some_iff.1 next
  cases same
  have enough : after.length + 1 ≤ (after ++ ')' :: later).length + 1 := by simp
  simp only [readBrackets, openBracket_append read, readBody_append body enough,
    Option.bind_eq_bind, Option.bind_some]
  rfl

namespace Scan

/-! ### Repetitions -/

theorem readLazy_inside (cs later : List Char) :
    readLazy (cs ++ ')' :: later) = ((readLazy cs).1, (readLazy cs).2 ++ ')' :: later) := by
  match cs with
  | [] => rfl
  | c :: cs =>
    by_cases mark : c = '?'
    · subst mark
      rfl
    · have apart : ∀ rest, c :: cs = '?' :: rest → False := by simp [mark]
      have apart' : ∀ rest, c :: (cs ++ ')' :: later) = '?' :: rest → False := by simp [mark]
      simp only [List.cons_append, readLazy]

/-- The brace behind a row of bounds, and whether the repetition is lazy. -/
def closeBounds (min : Nat) (max : Option Nat) : List Char → Option (Token × List Char)
  | '\x7d' :: rest => do
    guard (max.all (min ≤ ·))
    return (.repeats min max (readLazy rest).1, (readLazy rest).2)
  | _ => none

theorem readsInside_closeBounds (min : Nat) (max : Option Nat) :
    ReadsInside (closeBounds min max) := by
  intro cs token rest later h
  unfold closeBounds at h
  split at h
  · next start =>
    obtain ⟨_, inOrder, same⟩ := Option.bind_eq_some_iff.1 h
    cases same
    simp only [List.cons_append, closeBounds, readLazy_inside, inOrder, Option.bind_eq_bind,
      Option.bind_some]
    rfl
  · cases h

theorem readsInside_readBounds : ReadsInside (readBounds false) := by
  intro cs token rest later h
  unfold readBounds at h ⊢
  simp only [skipBlank_false] at h ⊢
  obtain ⟨⟨min, after⟩, least, next⟩ := Option.bind_eq_some_iff.1 h
  cases after with
  | nil => cases next
  | cons c after =>
    rw [readDecimal_append least (List.cons_ne_nil c after)]
    simp only [Option.bind_eq_bind, Option.bind_some, List.cons_append]
    by_cases comma : c = ','
    · subst comma
      simp only at next ⊢
      split at next
      · next start => exact readsInside_closeBounds min none ('\x7d' :: start) _ _ _ next
      · next other =>
        obtain ⟨⟨max, last⟩, read, next⟩ := Option.bind_eq_some_iff.1 next
        obtain ⟨⟨number, left⟩, most, same⟩ := Option.map_eq_some_iff.1 read
        cases same
        have inside : left ≠ [] := by
          rintro rfl
          cases next
        split
        · next same => exact absurd same (append_ne_cons (by decide) other _)
        · rw [readDecimal_append most inside]
          exact readsInside_closeBounds min (some number) left _ _ _ next
    · have apart : ∀ rest, c :: after = ',' :: rest → False := by simp [comma]
      have apart' : ∀ rest, c :: (after ++ ')' :: later) = ',' :: rest → False := by simp [comma]
      simp only at next ⊢
      exact readsInside_closeBounds min (some min) (c :: after) _ _ _ next

/-! ### Groups -/

/-- The end of a row of switches is inside of the text. -/
theorem readFlags_append {on hyphen : Bool} {change result : FlagChange} {last : Char}
    (h : readFlags on hyphen change cs = some (result, last, rest)) (later : List Char) :
    readFlags on hyphen change (cs ++ later) = some (result, last, rest ++ later) := by
  induction cs generalizing on hyphen change with
  | nil => cases h
  | cons c cs ih =>
    simp only [List.cons_append, readFlags] at h ⊢
    split at h
    · next ends =>
      rw [if_pos ends]
      split at h
      · cases h
      · next complete =>
        cases h
        rw [if_neg complete]
    · next goes =>
      rw [if_neg goes]
      split at h
      · next minus =>
        rw [if_pos minus]
        split at h
        · next first =>
          rw [if_pos first]
          exact ih h
        · cases h
      · next letter =>
        rw [if_neg letter]
        split at h
        · cases h
        · next flag known =>
          split at h
          · cases h
          · next fresh =>
            simp only [fresh]
            exact ih h

/-- A row of switches does not begin as a look around or a name does. -/
theorem readFlags_head {on hyphen : Bool} {change result : FlagChange} {last c : Char}
    (h : readFlags on hyphen change (c :: cs) = some (result, last, rest)) :
    c ≠ '=' ∧ c ≠ '!' ∧ c ≠ '<' ∧ c ≠ 'P' := by
  refine ⟨?_, ?_, ?_, ?_⟩
  all_goals
    rintro rfl
    cases h

section Opening

variable {scan : Scan}

theorem readOpening_name {c : Char} (plain : scan.verbose = false) (apart : c ≠ '=' ∧ c ≠ '!') :
    scan.readOpening ('?' :: '<' :: c :: cs) = scan.namedCapture (c :: cs) := by
  unfold readOpening
  rw [plain, skipBlank_false]
  split
  all_goals simp_all
  next apart same => exact absurd same.symm (apart _)

theorem readOpening_flags {c : Char} (plain : scan.verbose = false)
    (apart : c ≠ '=' ∧ c ≠ '!' ∧ c ≠ '<' ∧ c ≠ 'P') :
    scan.readOpening ('?' :: c :: cs) = do
      let (change, last, rest) ← readFlags true false [] (c :: cs)
      if last == ')' then
        guard (!change.isEmpty)
        return (.flags change,
          { scan with verbose := (change.find? .verbose).getD scan.verbose }, rest)
      else return (.opening (.plain change), scan.enter change, rest) := by
  unfold readOpening
  rw [plain, skipBlank_false]
  split
  all_goals simp_all

theorem readOpening_capture (plain : scan.verbose = false) (apart : ∀ rest, cs ≠ '?' :: rest) :
    scan.readOpening cs = some (scan.capture cs) := by
  unfold readOpening
  rw [plain, skipBlank_false]
  split
  all_goals simp_all

end Opening

end Scan

end Peg.Regex
