import Peg.Proofs.Matching

/-!
# Escaped texts as patterns

A text with a backslash before each special character is an expression that matches
the text itself. A pattern of it agrees with the literal of the text, although the
one goes through the reader of expressions and the search for a match, and the other
compares characters.

## Main definitions

* `Pattern.escape`: a text with its special characters escaped.

## Main results

* `Regex.tokens?_escape`: every character of an escaped text is read as itself.
* `Regex.Expr.exists_parse?_escape`: an escaped text is an expression that matches
  the text alone.
* `runAt_pattern_escape`: patterns of escaped texts agree with literals.
-/

namespace Peg

namespace Regex

/-- Some characters with a backslash before each that has a meaning of its own. -/
def escape (cs : List Char) : List Char :=
  cs.flatMap fun c => if isMeta c then ['\\', c] else [c]

/-- A character without a meaning of its own is read as itself. -/
theorem Scan.token?_of_not_isMeta (scan : Scan) {c : Char} (plain : isMeta c = false)
    (cs : List Char) : scan.token? (c :: cs) = some (.atom (verbatim c), scan, cs) := by
  simp only [token?]
  -- Each of the other readers begins at a special character.
  split <;> first | rfl | exact absurd plain (by decide)

/-- So is any other behind a backslash. -/
theorem Scan.token?_of_isMeta (scan : Scan) {c : Char} (special : isMeta c = true)
    (cs : List Char) : scan.token? ('\\' :: c :: cs) = some (.atom (verbatim c), scan, cs) := by
  have read := readEscape_isMeta special scan.verbose cs
  simp [token?, read]

theorem Scan.tokens?_escape {scan : Scan} (blanksCount : scan.verbose = false) (cs : List Char)
    {rounds : Nat} (enough : cs.length ≤ rounds) :
    scan.tokens? rounds (escape cs) = some (cs.map fun c => .atom (verbatim c)) := by
  induction cs generalizing rounds with
  | nil => exact tokens?_nil scan rounds
  | cons c cs ih =>
    obtain ⟨rounds, rfl⟩ := Nat.exists_eq_add_of_lt enough
    have rest := ih (Nat.le_add_right cs.length rounds)
    have solid (row : List Char) : skipBlank scan.verbose row = row := by
      simp [skipBlank, blanksCount]
    by_cases special : isMeta c
    · have row : escape (c :: cs) = '\\' :: c :: escape cs := by simp [escape, special]
      rw [row, tokens?_succ (solid _) (token?_of_isMeta scan special _), rest]
      rfl
    · have plain : isMeta c = false := Bool.eq_false_iff.2 special
      have row : escape (c :: cs) = c :: escape cs := by simp [escape, plain]
      rw [row, tokens?_succ (solid _) (token?_of_not_isMeta scan plain _), rest]
      rfl

theorem length_le_length_escape (cs : List Char) : cs.length ≤ (escape cs).length := by
  induction cs with
  | nil => exact Nat.le_refl 0
  | cons c cs ih =>
    have more : 1 ≤ (if isMeta c then ['\\', c] else [c]).length := by split <;> simp
    simp only [escape, List.flatMap_cons, List.length_append, List.length_cons] at ih ⊢
    omega

/-- Every character of an escaped text is read as itself. -/
theorem tokens?_escape (cs : List Char) :
    tokens? (escape cs) = some (cs.map fun c => .atom (verbatim c)) :=
  Scan.tokens?_escape rfl cs (length_le_length_escape cs)

/-- Atoms stand in a row. -/
theorem Stack.foldlM_push?_atoms (items : List Syntax) (stack : Stack) :
    (items.map Token.atom).foldlM Stack.push? stack =
      some { stack with top := ⟨stack.top.branches, items.reverse ++ stack.top.items⟩ } := by
  induction items generalizing stack with
  | nil => rfl
  | cons item items ih =>
    rw [List.map_cons, List.foldlM_cons]
    simp [push?, ih, Level.add]

theorem Syntax.ofTokens?_atoms (items : List Syntax) :
    ofTokens? (items.map Token.atom) = some (ofItems items) := by
  simp [ofTokens?, Stack.foldlM_push?_atoms, Stack.start, Level.empty, Level.body]

/-- Characters in a row are not nested. -/
theorem Syntax.depth_ofItems_verbatim (cs : List Char) :
    (ofItems (cs.map verbatim)).depth ≤ 1 := by
  have flat (cs : List Char) : depthAll (cs.map verbatim) = 0 := by
    induction cs with
    | nil => rfl
    | cons c cs ih => simp [depthAll, depth, verbatim, ih]
  -- Only two or more characters are put in a row of their own.
  match cs with
  | [] => exact Nat.zero_le 1
  | [c] => exact Nat.zero_le 1
  | c :: d :: cs => simpa [ofItems, depth] using flat (c :: d :: cs)

theorem Syntax.parse?_escape (text : String) :
    parse? (String.ofList (escape text.toList)) = some (ofItems (text.toList.map verbatim)) := by
  have shallow : (ofItems (text.toList.map verbatim)).depth ≤ nestLimit :=
    Nat.le_trans (depth_ofItems_verbatim _) (by decide)
  have tree := ofTokens?_atoms (text.toList.map verbatim)
  rw [List.map_map, Function.comp_def] at tree
  simp [parse?, tokens?_escape, tree, shallow]

namespace Switches

/-- The switches at the beginning leave characters as they are. -/
theorem expr?_verbatim (c : Char) :
    default.expr? (verbatim c) = some (.ofSet .chars (.singleton c), default) :=
  rfl

theorem exprs?_map_verbatim (cs : List Char) :
    default.exprs? (cs.map verbatim) =
      some (cs.map fun c => .ofSet .chars (.singleton c), default) := by
  induction cs with
  | nil => rfl
  | cons c cs ih => simp [exprs?, expr?_verbatim, ih]

end Switches

namespace Expr

theorem matches_ofSet_singleton (c : Char) (p q : Place) :
    (ofSet .chars (.singleton c)).Matches p q ↔ p.Reads [c] q := by
  simp [matches_ofSet, Matches]

/-- Characters in a row match themselves. -/
theorem allMatch_map_singleton (cs : List Char) (p q : Place) :
    AllMatch (cs.map fun c => ofSet .chars (.singleton c)) p q ↔ p.Reads cs q := by
  induction cs generalizing p with
  | nil => exact Place.reads_nil_iff.symm
  | cons c cs ih =>
    rw [← List.singleton_append, Place.reads_append_iff]
    simp [AllMatch, matches_ofSet_singleton, ih]

/-- An escaped text is an expression that matches the text and nothing else. -/
theorem exists_parse?_escape (text : String) :
    ∃ normal, parse? (String.ofList (escape text.toList)) = some normal ∧
      ∀ p q, normal.Matches p q ↔ p.Reads text.toList q := by
  rw [parse?, Syntax.parse?_escape]
  match text.toList with
  | [] => exact ⟨.empty, rfl, fun p q => Place.reads_nil_iff.symm⟩
  | [c] => exact ⟨_, rfl, matches_ofSet_singleton c⟩
  | c :: d :: cs =>
    have items := Switches.exprs?_map_verbatim (c :: d :: cs)
    have row : Syntax.ofItems ((c :: d :: cs).map verbatim) =
        .concat ((c :: d :: cs).map verbatim) := rfl
    refine ⟨.ofConcat ((c :: d :: cs).map fun c => ofSet .chars (.singleton c)), ?_, fun p q => ?_⟩
    · rw [row, Option.bind_eq_bind, Option.bind_some, Switches.expr?, items]
      rfl
    · rw [matches_ofConcat, allMatch_map_singleton]

end Expr

end Regex

open Regex

/-- A text with a backslash before each special character. -/
def Pattern.escape (text : String) : String :=
  String.ofList (Regex.escape text.toList)

/-- **Patterns of escaped texts agree with literals.** Every text with its special characters
escaped is an expression. The pattern of it succeeds where the literal does, with the same
value and range, and fails at the position of the run where the literal does so. -/
theorem runAt_pattern_escape (text : String) : ∃ regex,
    Pattern.compile (Pattern.escape text) = .ok regex ∧
    ∀ (rules : Rules) (input : String) (start : Nat),
      ((Parser.literal text).runAt rules input start =
          some ⟨.success ⟨.text text, start, start + text.utf8ByteSize⟩, 0⟩ ∧
        (Parser.pattern regex).runAt rules input start =
          some ⟨.success ⟨.text text, start, start + text.utf8ByteSize⟩, 0⟩) ∨
      ((Parser.literal text).runAt rules input start =
          some ⟨.failure ⟨"Expected: " ++ text, start⟩, 0⟩ ∧
        (Parser.pattern regex).runAt rules input start =
          some ⟨.failure ⟨"Expected regexp: " ++ Pattern.escape text, start⟩, 0⟩) := by
  obtain ⟨normal, parsed, alike⟩ := Expr.exists_parse?_escape text
  have inOrder := Expr.within_ordered_of_parse? parsed
  refine ⟨⟨Pattern.escape text, .ofExpr normal⟩,
    Pattern.compile_eq_ok_iff.2 ⟨normal, parsed, rfl⟩, fun rules input start => ?_⟩
  rw [Parser.runAt_literal, Parser.runAt_pattern]
  by_cases here : ∃ before after, input.toList = before ++ text.toList ++ after ∧
      Text.size before = start
  · obtain ⟨before, after, cut, bytes⟩ := here
    refine .inl ⟨by rw [literalOutcome_of_append cut bytes], ?_⟩
    have place : Place.IsAt ⟨before, text.toList ++ after⟩ input start :=
      ⟨by rw [cut, List.append_assoc], bytes⟩
    have reads : Place.Reads ⟨before, text.toList ++ after⟩ text.toList
        ⟨before ++ text.toList, after⟩ := ⟨rfl, rfl⟩
    obtain ⟨q, first⟩ := ((alike _ _).2 reads).exists_isFirst inOrder
    -- There is only one place that the text leads to.
    have ⟨turns, way, _⟩ := first
    obtain ⟨-, behind⟩ := (alike _ _).1 (way.1.matches inOrder)
    have stop : Text.size q.before = start + text.utf8ByteSize := by
      rw [behind, Text.size_append, bytes, Text.size_toList]
    obtain ⟨found, slice, outcome⟩ := patternOutcome_of_isFirst (Pattern.escape text) inOrder
      place first
    have whole : Text.slice? input.toList start (Text.size q.before) = some text.toList :=
      Text.slice?_eq_some_iff.2 ⟨before, after, cut, bytes, by rw [stop, Text.size_toList]⟩
    obtain rfl := Option.some.inj (slice.symm.trans whole)
    rw [outcome, stop, String.ofList_toList]
  · -- A match would lead through the text, which does not stand here.
    simp only [not_exists, not_and] at here
    refine .inr ⟨by rw [literalOutcome_of_ne here]; rfl, ?_⟩
    rw [patternOutcome_of_not_matches _ inOrder]
    rintro p q ⟨whole, bytes⟩ matched
    obtain ⟨ahead, -⟩ := (alike p q).1 matched
    exact here p.before q.after (by rw [whole, ahead, List.append_assoc]) bytes

end Peg
