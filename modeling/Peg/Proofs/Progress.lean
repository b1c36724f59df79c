import Peg.Proofs.Positions

/-!
# Parsers that move forward

Some parsers can be seen to read at least one character whenever they succeed:
the look goes through the tree, and stops at references. What can be seen is so
on every input, which is what keeps repetitions from standing still.

## Main definitions

* `Pattern.NeverEmpty`: a pattern without empty matches.
* `Parser.IsConsuming`: what can be seen from the tree of a parser.

## Main results

* `Derives.forward`: a consuming parser ends its successes further on.
* `Parser.isConsuming_seqAll_iff`, `Parser.isConsuming_altAll_iff`: sequences and
  choices of any number of parsers are judged by their items.
-/

namespace Peg

/-- A pattern never matches the empty text, wherever it stands. -/
def Pattern.NeverEmpty (pattern : Pattern) : Prop :=
  ∀ input position, pattern.matchEnd? input position ≠ some position

namespace Parser

/-- A parser that reads something whenever it succeeds, as far as its tree shows.
Repetitions may read nothing, and references are not looked into. -/
inductive IsConsuming : Parser → Prop
  | literal {text : String} (nonempty : text ≠ "") : IsConsuming (.literal text)
  | pattern {regex : Pattern} (nonempty : regex.NeverEmpty) : IsConsuming (.pattern regex)
  | sequence {items : List Parser} {item : Parser} (member : item ∈ items)
      (consuming : IsConsuming item) : IsConsuming (.sequence items)
  | alternate {items : List Parser} (consuming : ∀ item ∈ items, IsConsuming item) :
      IsConsuming (.alternate items)
  | capture {item : Parser} (consuming : IsConsuming item) : IsConsuming (.capture item)
  | map {item : Parser} {change : Value → Except Fault Value} (consuming : IsConsuming item) :
      IsConsuming (.map item change)

variable {item : Parser} {items : List Parser} {change : Value → Except Fault Value}

@[simp]
theorem not_isConsuming_pure : ¬ Parser.pure.IsConsuming := nofun

theorem isConsuming_literal_iff {text : String} :
    (Parser.literal text).IsConsuming ↔ text ≠ "" := by
  constructor
  · rintro ⟨nonempty⟩
    exact nonempty
  · exact .literal

theorem isConsuming_sequence_iff :
    (Parser.sequence items).IsConsuming ↔ ∃ item ∈ items, item.IsConsuming := by
  constructor
  · rintro (_ | _ | ⟨member, consuming⟩)
    exact ⟨_, member, consuming⟩
  · rintro ⟨item, member, consuming⟩
    exact .sequence member consuming

theorem isConsuming_seq_iff {first second : Parser} :
    (seq first second).IsConsuming ↔ first.IsConsuming ∨ second.IsConsuming := by
  simp [seq, isConsuming_sequence_iff]

theorem isConsuming_alternate_iff :
    (Parser.alternate items).IsConsuming ↔ ∀ item ∈ items, item.IsConsuming := by
  constructor
  · rintro (_ | _ | _ | consuming)
    exact consuming
  · exact .alternate

theorem isConsuming_capture_iff : (Parser.capture item).IsConsuming ↔ item.IsConsuming := by
  constructor
  · rintro (_ | _ | _ | _ | consuming)
    exact consuming
  · exact .capture

theorem isConsuming_map_iff : (Parser.map item change).IsConsuming ↔ item.IsConsuming := by
  constructor
  · rintro (_ | _ | _ | _ | _ | consuming)
    exact consuming
  · exact .map

/-- A sequence of any number of parsers is consuming if one of them is. -/
theorem isConsuming_seqAll_iff :
    (seqAll items).IsConsuming ↔ ∃ item ∈ items, item.IsConsuming := by
  by_cases empty : items = []
  · subst empty
    simp [seqAll]
  · rw [seqAll, if_neg (by simpa using empty), isConsuming_map_iff]
    refine halved_induction (motive := fun items tree =>
      tree.IsConsuming ↔ ∃ item ∈ items, item.IsConsuming) (fun item => by simp) ?_ empty
    intro before after first second _ _ _ left right
    simp [isConsuming_seq_iff, left, right, or_and_right, exists_or]

/-- A choice among any number of parsers is consuming if all of them are. -/
theorem isConsuming_altAll_iff :
    (altAll items).IsConsuming ↔ ∀ item ∈ items, item.IsConsuming := by
  by_cases empty : items = []
  · subst empty
    simp [altAll, halved, isConsuming_alternate_iff]
  · refine halved_induction (motive := fun items tree =>
      tree.IsConsuming ↔ ∀ item ∈ items, item.IsConsuming) (fun item => by simp) ?_ empty
    intro before after first second _ _ _ left right
    rw [Parser.or, isConsuming_alternate_iff]
    simp [left, right, or_imp, forall_and]

end Parser

variable {rules : Rules} {input : String}

/-- A parser ends further on if it is consuming, free of functions and run within the input. -/
def Forward (rules : Rules) (input : String) (item : Parser) (start : Nat)
    (outcome : Outcome Value) (calls : Nat) : Prop :=
  Derives rules input item start outcome calls ∧ (item.IsFunctionFree →
    start ≤ input.utf8ByteSize → item.IsConsuming →
      ∀ result, outcome = .success result → start < result.stop)

/-- One of the items in a row moves forward, and none of the others moves back. -/
theorem Row.lt_of_consuming {items : List Parser} {start stop calls : Nat} {values : List Value}
    (row : Row (Forward rules input) items start values stop calls)
    (own : ∀ item ∈ items, item.IsFunctionFree) (ownRules : rules.AreFunctionFree)
    (within : start ≤ input.utf8ByteSize) (consuming : ∃ item ∈ items, item.IsConsuming) :
    start < stop := by
  induction row with
  | nil =>
    obtain ⟨item, member, -⟩ := consuming
    cases member
  | cons first rest ih =>
    obtain ⟨here, others⟩ := List.forall_mem_cons.1 own
    obtain ⟨derived, forward⟩ := first
    obtain ⟨head, middle⟩ := derived.le_stop here ownRules within
    obtain ⟨item, member, reads⟩ := consuming
    obtain rfl | later := List.mem_cons.1 member
    · have tail := (rest.imp And.left).advances_of_derives others ownRules middle
      exact Nat.lt_of_lt_of_le (forward here within reads _ rfl) tail.le
    · exact Nat.lt_of_le_of_lt head (ih others middle ⟨item, later, reads⟩)

/-- A consuming parser ends its successes further on, by induction on its derivation. -/
theorem Derives.forward {parser : Parser} {start calls : Nat} {outcome : Outcome Value}
    (h : Derives rules input parser start outcome calls) (own : parser.IsFunctionFree)
    (ownRules : rules.AreFunctionFree) (within : start ≤ input.utf8ByteSize)
    (consuming : parser.IsConsuming) {result : Success Value}
    (succeeds : outcome = .success result) : start < result.stop := by
  induction h generalizing result with
  | literal_match =>
    cases succeeds
    have nonempty := Parser.isConsuming_literal_iff.1 consuming
    have bytes : 0 < _ := Nat.pos_of_ne_zero (mt String.utf8ByteSize_eq_zero_iff.1 nonempty)
    exact Nat.lt_add_of_pos_right bytes
  | @pattern_match regex start before found after cut bytes stop =>
    cases succeeds
    obtain _ | ⟨nonempty⟩ := consuming
    -- Having read nothing, the pattern would match the empty text.
    refine Nat.lt_add_of_pos_right (Text.size_pos fun nothing => ?_)
    subst nothing
    refine nonempty input.toList start (Pattern.matchEnd?_eq_some_iff.2 ?_)
    exact ⟨before, after, by simpa using cut, bytes, stop⟩
  | sequence_all _ _ row =>
    cases succeeds
    have row : Row (Forward rules input) _ _ _ _ _ :=
      row.imp fun ⟨derived, forward⟩ => ⟨derived, fun own within reads _ same =>
        forward own within reads same⟩
    exact row.lt_of_consuming (Parser.everyOf_iff.1 own) ownRules within
      (Parser.isConsuming_sequence_iff.1 consuming)
  | alternate_first _ _ ih =>
    have all := Parser.isConsuming_alternate_iff.1 consuming
    exact ih own.1 within (all _ List.mem_cons_self) succeeds
  | alternate_next _ _ _ _ ih =>
    have all := Parser.isConsuming_alternate_iff.1 consuming
    exact ih own.2 within (.alternate fun item member => all item (List.mem_cons_of_mem _ member))
      succeeds
  | capture_within _ _ ih =>
    cases succeeds
    have forward := ih own within (Parser.isConsuming_capture_iff.1 consuming) rfl
    exact forward
  | map_value _ _ ih =>
    cases succeeds
    have forward := ih own.2 within (Parser.isConsuming_map_iff.1 consuming) rfl
    exact forward
  | sequence_cut cut =>
    subst succeeds
    exact absurd (Outcome.isSuccess_success result) cut.not_isSuccess
  | capture_stop _ stops | map_stop _ stops =>
    subst succeeds
    exact absurd (Outcome.isSuccess_success result) stops
  | literal_mismatch | pattern_mismatch | finish_before | alternate_nil | alternate_none
  | sequence_back | many_fault | many_later | many_stuck | capture_outside | map_fault =>
    cases succeeds
  | pure | finish_at | many_done | many_next | rule => cases consuming
  | function => exact absurd own id

end Peg
