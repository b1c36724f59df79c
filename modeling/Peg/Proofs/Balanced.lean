import Peg.Parser.Function
import Peg.Proofs.Grouping
import Peg.Proofs.Items

/-!
# Sequences and choices of any number of parsers

A sequence of any number of parsers is built from pairs, by halves. Its values
are taken out of the tree again, so that it does what the sequence of all its
items does at once, unless one of the pairs inside stops before the place where it
is run. A choice is built in the same way, and needs nothing to be taken out. Both
are groups of the parsers in a row, and groups of whatever shape do the same.

## Main results

* `Grouping.flatten_balanced`: the values of a tree of pairs.
* `Parser.runAt_seqAll`, `Parser.runAt_seqAll_of_retreats`: the flat sequence, and what
  happens instead.
* `Parser.runAt_altAll`: the flat choice.
* `grouped_sequence_runs_in_turn`, `grouped_choice_takes_first`: the same for
  groups of every shape, with what the flat ones do.
-/

namespace Peg

theorem Parser.leaves_one (value : Value) : leaves 1 value = [value] := by
  rw [leaves.eq_def, if_pos (by decide)]

namespace Grouping

/-- A pair of groups is taken apart where a tree of pairs is. -/
theorem flatten_pair {count : Nat} {first second : Grouping} (two : 2 ≤ count)
    (left : ∀ value, first.flatten value = Parser.leaves (count / 2) value)
    (right : ∀ value, second.flatten value = Parser.leaves (count - count / 2) value)
    (value : Value) : (node first [second]).flatten value = Parser.leaves count value := by
  rw [Parser.leaves.eq_def, if_neg (Nat.not_lt_of_le two)]
  match value with
  | .list [one, other] => simp [flatten, flattenAll, left, right]
  | .list [] | .list [_] | .list (_ :: _ :: _ :: _) => simp [flatten]
  | .unit | .number _ | .text _ | .tagged _ _ | .spanned _ _ => rfl

/-- The values of a balanced tree are taken apart as those of a tree of pairs are. -/
theorem flatten_balanced {none : Parser} {items : List Parser} (nonempty : items ≠ [])
    (value : Value) : (balanced none items).flatten value = Parser.leaves items.length value := by
  have some : items.map leaf ≠ [] := by simpa using nonempty
  have apart : (∀ tree ∈ items.map leaf, ∃ item, tree = leaf item) →
      ∀ value, (balanced none items).flatten value =
        Parser.leaves (items.map leaf).length value := by
    refine Parser.halved_induction (motive := fun trees tree =>
      (∀ tree ∈ trees, ∃ item, tree = leaf item) →
        ∀ value, tree.flatten value = Parser.leaves trees.length value) ?_ ?_ some
    · intro tree single value
      obtain ⟨item, rfl⟩ := single tree List.mem_cons_self
      exact (Parser.leaves_one value).symm
    · intro before after first second some some' half left right single
      obtain ⟨single, single'⟩ := List.forall_mem_append.1 single
      -- The values are cut where the parsers are: the first half is the smaller one.
      have lengths : (before ++ after).length = before.length + after.length :=
        List.length_append
      have one := List.length_pos_iff.2 some
      have one' := List.length_pos_iff.2 some'
      refine flatten_pair (by omega) ?_ ?_
      · rw [← half]
        exact left single
      · rw [show (before ++ after).length - (before ++ after).length / 2 = after.length by omega]
        exact right single'
  rw [apart (by simp), List.length_map]

/-- Two leaves or more are in a group. -/
theorem exists_node_of_leaves {tree : Grouping} (two : 2 ≤ tree.leaves.length) :
    ∃ first rest, tree = .node first rest := by
  cases tree with
  | leaf item =>
    rw [leaves, List.length_singleton] at two
    omega
  | node first rest => exact ⟨first, rest, rfl⟩

end Grouping

open Grouping (Retreats balanced)

namespace Parser

variable {rules : Rules} {input : String} {items : List Parser} {start : Nat}

/-- A sequence of some parsers is a nested sequence whose values are put in a row. -/
theorem seqAll_eq (nonempty : items ≠ []) :
    seqAll items = .map ((balanced .pure items).parser .sequence)
      fun value => .ok (.list ((balanced .pure items).flatten value)) := by
  simp only [Grouping.flatten_balanced nonempty, Grouping.parser_balanced]
  rw [seqAll, if_neg (by simpa using nonempty)]
  rfl

/-- A choice is a nested choice. -/
theorem altAll_eq (items : List Parser) :
    altAll items = (balanced (.alternate []) items).parser .alternate :=
  (Grouping.parser_balanced .alternate (.alternate []) items).symm

/-- Two parsers or more are a group. -/
theorem exists_balanced_eq_node (two : 2 ≤ items.length) (none : Parser) :
    ∃ first rest, balanced none items = .node first rest ∧
      (Grouping.node first rest).leaves = items := by
  have row := Grouping.leaves_balanced (List.ne_nil_of_length_pos (Nat.lt_of_succ_lt two)) none
  obtain ⟨first, rest, same⟩ := Grouping.exists_node_of_leaves (by rwa [row])
  exact ⟨first, rest, same, by rw [← same, row]⟩

/-- A sequence of two or more parsers is the flat sequence, as long as no pair inside
goes back. -/
theorem runAt_seqAll (two : 2 ≤ items.length)
    (h : ¬ Retreats rules input (balanced .pure items).members start) :
    (seqAll items).runAt rules input start = (Parser.sequence items).runAt rules input start := by
  obtain ⟨first, rest, same, row⟩ := exists_balanced_eq_node two .pure
  rw [same] at h
  rw [seqAll_eq (List.ne_nil_of_length_pos (by omega)), same, runAt_map]
  simpa only [row] using Grouping.runAt_sequence_node h

/-- It breaks down where a pair inside goes back. -/
theorem runAt_seqAll_of_retreats
    (h : Retreats rules input (balanced .pure items).members start) :
    ∃ calls, (seqAll items).runAt rules input start = some ⟨.fault .reversedRange, calls⟩ := by
  have nonempty : items ≠ [] := by
    rintro rfl
    rw [balanced, List.map_nil, halved] at h
    exact Grouping.not_retreats_nil h
  obtain ⟨calls, broken⟩ := Grouping.runAt_of_retreats_members h
  exact ⟨calls, by rw [seqAll_eq nonempty, runAt_map, broken]; rfl⟩

/-- Where it succeeds, so does the flat sequence. -/
theorem runAt_sequence_of_seqAll {result : Success Value} {calls : Nat} (two : 2 ≤ items.length)
    (h : (seqAll items).runAt rules input start = some ⟨.success result, calls⟩) :
    (Parser.sequence items).runAt rules input start = some ⟨.success result, calls⟩ := by
  refine (runAt_seqAll two fun back => ?_).symm.trans h
  obtain ⟨_, broken⟩ := runAt_seqAll_of_retreats back
  cases h.symm.trans broken

/-- A sequence of two parsers is the flat sequence. -/
theorem runAt_seqAll_pair (first second : Parser) :
    (seqAll [first, second]).runAt rules input start =
      (Parser.sequence [first, second]).runAt rules input start := by
  have pair : (balanced .pure [first, second]).members = [first, second].map .leaf := by
    simp [balanced, halved, Grouping.members]
  refine runAt_seqAll (Nat.le_refl 2) ?_
  rw [pair]
  exact Grouping.not_retreats_leaves

/-- A sequence of parsers that never go back is the flat sequence. -/
theorem runAt_seqAll_of_forward (two : 2 ≤ items.length)
    (forward : ∀ item ∈ items, item.IsForward rules input) :
    (seqAll items).runAt rules input start = (Parser.sequence items).runAt rules input start := by
  obtain ⟨first, rest, same, row⟩ := exists_balanced_eq_node two .pure
  refine runAt_seqAll two ?_
  rw [same]
  refine Grouping.not_retreats_of_forward ?_
  have members : Grouping.leavesAll (first :: rest) = items := row
  rwa [Grouping.members, members]

/-- A choice among any number of parsers but one is the flat choice. -/
theorem runAt_altAll (several : items.length ≠ 1) (start : Nat) :
    (altAll items).runAt rules input start = (Parser.alternate items).runAt rules input start := by
  by_cases empty : items = []
  · subst empty
    rw [altAll, halved]
  · have one := List.length_pos_iff.2 empty
    have two : 2 ≤ items.length := by omega
    obtain ⟨first, rest, same, row⟩ := exists_balanced_eq_node two (.alternate [])
    rw [altAll_eq, same, Grouping.runAt_alternate_node, row]

/-- A sequence of one parser puts its value into a list. -/
theorem seqAll_one (item : Parser) :
    seqAll [item] = .map item fun value => .ok (.list [value]) := by
  simp [seqAll, halved, leaves_one]

/-- A choice between two parsers is the flat choice. -/
theorem altAll_pair (first second : Parser) :
    altAll [first, second] = .alternate [first, second] := by
  simp [altAll, halved, or]

/-- A sequence of some parsers is named after them. -/
theorem name_seqAll (nonempty : items ≠ []) :
    (seqAll items).name = "→".intercalate (items.map name) := by
  rw [seqAll_eq nonempty, name, Grouping.name_nested name_sequence,
    Grouping.leaves_balanced nonempty]

/-- A choice is named after its items. -/
theorem name_altAll (items : List Parser) :
    (altAll items).name = "|".intercalate (items.map name) := by
  by_cases empty : items = []
  · subst empty
    rw [altAll, halved, name_alternate]
  · rw [altAll_eq, Grouping.name_nested name_alternate, Grouping.leaves_balanced empty]

end Parser

open Peg.Parser

/-- **Sequences in groups.** Two or more parsers in a row have the name of all of
them, whether they are one sequence, the balanced tree of pairs, or nested sequences of
any shape. As one sequence they are run in turn. So they are in groups, with the values
of the flat sequence once they stand in a row, unless one of the groups inside stops
before the place where it is run. Then it is asserted of that group that it does not, and
the whole breaks down. -/
theorem grouped_sequence_runs_in_turn (items : List Parser) (two : 2 ≤ items.length) :
    ((seqAll items).name = "→".intercalate (items.map name) ∧
      (Parser.sequence items).name = "→".intercalate (items.map name)) ∧
    (∀ rules input start,
      (¬ Retreats rules input (balanced .pure items).members start →
        (seqAll items).runAt rules input start =
          (Parser.sequence items).runAt rules input start) ∧
      (Retreats rules input (balanced .pure items).members start →
        ∃ calls, (seqAll items).runAt rules input start = some ⟨.fault .reversedRange, calls⟩) ∧
      ∀ outcome calls,
        (Parser.sequence items).runAt rules input start = some ⟨outcome, calls⟩ ↔
          InTurn rules input items start outcome calls) ∧
    ∀ tree : Grouping, tree.leaves = items →
      (tree.parser .sequence).name = "→".intercalate (items.map name) ∧
      ∀ rules input start,
        (¬ Retreats rules input tree.members start →
          ((tree.parser .sequence).runAt rules input start).map
              (Reply.map fun value => .ok (.list (tree.flatten value))) =
            (Parser.sequence items).runAt rules input start) ∧
        (Retreats rules input tree.members start →
          ∃ calls, (tree.parser .sequence).runAt rules input start =
            some ⟨.fault .reversedRange, calls⟩) := by
  have nonempty : items ≠ [] := List.ne_nil_of_length_pos (by omega)
  refine ⟨⟨name_seqAll nonempty, name_sequence items⟩, fun rules input start => ?_, ?_⟩
  · exact ⟨runAt_seqAll two, runAt_seqAll_of_retreats, fun _ _ => runAt_sequence_eq_some_iff⟩
  · rintro tree rfl
    obtain ⟨first, rest, rfl⟩ := Grouping.exists_node_of_leaves two
    refine ⟨Grouping.name_nested name_sequence _, fun rules input start => ?_⟩
    exact ⟨Grouping.runAt_sequence_node, Grouping.runAt_of_retreats_members⟩

/-- Three parsers, the second of which goes back to where the first began, in two groups.
The second group ends where it is run, since the text is read again. -/
theorem grouped_sequence_of_rewind :
    2 ≤ [.literal "a", .function "back" (Function.rewind 1), Parser.literal "a"].length ∧
    ¬ Retreats [] "a" (balanced .pure [.literal "a", .function "back" (Function.rewind 1),
      .literal "a"]).members 0 ∧
    (seqAll [.literal "a", .function "back" (Function.rewind 1), .literal "a"]).runAt [] "a" 0 =
      some ⟨.success ⟨.list [.text "a", .unit, .text "a"], 0, 1⟩, 0⟩ ∧
    (Parser.seq (.literal "a") (.seq (.function "back" (Function.rewind 1)) (.literal "a"))).name =
      "a→back→a" := by
  have flat : (Parser.sequence [.literal "a", .function "back" (Function.rewind 1),
      .literal "a"]).runAt [] "a" 0 =
        some ⟨.success ⟨.list [.text "a", .unit, .text "a"], 0, 1⟩, 0⟩ := rfl
  have pairs : balanced .pure [.literal "a", .function "back" (Function.rewind 1), .literal "a"] =
      .node (.leaf (.literal "a")) [.node (.leaf (.function "back" (Function.rewind 1)))
        [.leaf (.literal "a")]] := by
    simp [balanced, halved]
  have stays : ¬ Retreats [] "a" (balanced .pure [.literal "a",
      .function "back" (Function.rewind 1), .literal "a"]).members 0 := by
    intro h
    obtain ⟨calls, broken⟩ := Grouping.runAt_of_retreats_members h
    rw [pairs] at broken
    cases broken
  obtain ⟨-, runs, groups⟩ := grouped_sequence_runs_in_turn
    [.literal "a", .function "back" (Function.rewind 1), .literal "a"] (by decide)
  obtain ⟨named, -⟩ := groups (.node (.leaf (.literal "a"))
    [.node (.leaf (.function "back" (Function.rewind 1))) [.leaf (.literal "a")]]) rfl
  exact ⟨by decide, stays, ((runs [] "a" 0).1 stays).trans flat, named⟩

/-- A pair inside goes back to before the place where it is run. The flat sequence succeeds
all the same, as it ends where it begins. -/
theorem seqAll_ne_sequence_of_rewind :
    (seqAll [.literal "ab", .function "back" (Function.rewind 2), .literal ""]).runAt [] "ab" 0 =
      some ⟨.fault .reversedRange, 0⟩ ∧
    (Parser.sequence [.literal "ab", .function "back" (Function.rewind 2),
        .literal ""]).runAt [] "ab" 0 =
      some ⟨.success ⟨.list [.text "ab", .unit, .text ""], 0, 0⟩, 0⟩ := by
  have pairs : seqAll [.literal "ab", .function "back" (Function.rewind 2), .literal ""] =
      .map (.seq (.literal "ab") (.seq (.function "back" (Function.rewind 2)) (.literal "")))
        fun value => .ok (.list (leaves 3 value)) := by
    simp [seqAll, halved]
  rw [pairs]
  exact ⟨rfl, rfl⟩

/-- **Choices in groups.** No parser or two and more have the name of all of them
and are tried at one place until one does not fail, whether they are one choice,
the balanced tree of pairs, or nested choices of any shape. If all fail, the
failure names all. A single parser is that parser itself. -/
theorem grouped_choice_takes_first (items : List Parser) :
    (items.length ≠ 1 →
      ((altAll items).name = "|".intercalate (items.map name) ∧
        (Parser.alternate items).name = "|".intercalate (items.map name)) ∧
      (∀ rules input start,
        (altAll items).runAt rules input start = (Parser.alternate items).runAt rules input start ∧
        ∀ outcome calls,
          (Parser.alternate items).runAt rules input start = some ⟨outcome, calls⟩ ↔
            FirstToSettle rules input items start outcome calls) ∧
      ∀ tree : Grouping, tree.leaves = items →
        (tree.parser .alternate).name = "|".intercalate (items.map name) ∧
        ∀ rules input start,
          (tree.parser .alternate).runAt rules input start =
            (Parser.alternate items).runAt rules input start) ∧
    ∀ item, items = [item] → altAll items = item := by
  refine ⟨fun several => ⟨⟨name_altAll items, name_alternate items⟩, ?_, ?_⟩, ?_⟩
  · intro rules input start
    exact ⟨runAt_altAll several start, fun _ _ => runAt_alternate_eq_some_iff⟩
  · rintro tree rfl
    have one := List.length_pos_iff.2 tree.leaves_ne_nil
    have two : 2 ≤ tree.leaves.length := by omega
    obtain ⟨first, rest, rfl⟩ := Grouping.exists_node_of_leaves two
    refine ⟨Grouping.name_nested name_alternate _, fun rules input start => ?_⟩
    exact Grouping.runAt_alternate_node first rest start
  · rintro item rfl
    rw [altAll, halved]

/-- Three texts, none of which is there, in two groups; and one text. -/
theorem grouped_choice_of_texts :
    [Parser.literal "x", .literal "y", .literal "z"].length ≠ 1 ∧
    (altAll [.literal "x", .literal "y", .literal "z"]).runAt [] "w" 0 =
      some ⟨.failure ⟨"Expected: x|y|z", 0⟩, 0⟩ ∧
    ((Parser.literal "x").or (.literal "y") |>.or (.literal "z")).runAt [] "w" 0 =
      some ⟨.failure ⟨"Expected: x|y|z", 0⟩, 0⟩ ∧
    altAll [.literal "x"] = .literal "x" := by
  have flat : (Parser.alternate [.literal "x", .literal "y", .literal "z"]).runAt [] "w" 0 =
      some ⟨.failure ⟨"Expected: x|y|z", 0⟩, 0⟩ := rfl
  obtain ⟨-, balanced, groups⟩ :=
    (grouped_choice_takes_first [.literal "x", .literal "y", .literal "z"]).1 (by decide)
  obtain ⟨-, runs⟩ := groups (.node (.node (.leaf (.literal "x")) [.leaf (.literal "y")])
    [.leaf (.literal "z")]) rfl
  obtain ⟨-, single⟩ := grouped_choice_takes_first [.literal "x"]
  exact ⟨by decide, (balanced [] "w" 0).1.trans flat, (runs [] "w" 0).trans flat, single _ rfl⟩

end Peg
