import Mathlib.Logic.Relation
import Peg.Proofs.Balanced
import Peg.Proofs.Items

/-!
# Where failures come from

A failure is made by one parser and handed on unchanged. From the parser that was
run a path leads to the one that made it: through items of sequences whose
predecessors have succeeded, captures, changed values and references, but never
into a repetition or a choice.

## Main definitions

* `Enters`: from one parser at a position to another, one step of such a path.
* `Parser.Makes`: the failures that a parser makes of itself.

## Main results

* `Enters.hand_on`: one step hands failures on.
* `Derives.madeAt`: every failure has a parser that made it.
* `runAt_seqAll_failure_iff`: a sequence of any number of parsers hands on the
  failure of its first item that fails.
* `runAt_failure_iff_made`: a run fails exactly if a path leads to a parser that
  makes the failure.
-/

namespace Peg

open Grouping (Retreats balanced)

/-- A parser that is run at a position runs another at a position, whose failure
would be its own. The items of a sequence before that one have succeeded, each
where the last one stopped. -/
inductive Enters (rules : Rules) (input : String) : Parser × Nat → Parser × Nat → Prop
  | item {before after : List Parser} {item : Parser} {values : List Value}
      {start middle calls : Nat} (chain : Chain rules input before start values middle calls) :
      Enters rules input (.sequence (before ++ item :: after), start) (item, middle)
  | captured {item : Parser} {start : Nat} :
      Enters rules input (.capture item, start) (item, start)
  | mapped {item : Parser} {change : Value → Except Fault Value} {start : Nat} :
      Enters rules input (.map item change, start) (item, start)
  | referred {name : String} {parser : Parser} {start : Nat}
      (found : rules.parser? name = some parser) :
      Enters rules input (.rule name, start) (parser, start)

/-- The failures that a parser makes of itself when it is run at a position. What
a function reports is its own affair; sequences, repetitions and parsers that
stand for another make none. -/
def Parser.Makes (parser : Parser) (position : Nat) (reason : Failure) : Prop :=
  match parser with
  | .literal _ | .alternate _ => reason = ⟨"Expected: " ++ parser.name, position⟩
  | .pattern regex => reason = ⟨"Expected regexp: " ++ regex.expr, position⟩
  | .finish => reason = ⟨"Expected end of input", position⟩
  | .function _ _ => True
  | .pure | .many _ | .sequence _ | .capture _ | .map _ _ | .rule _ => False

variable {rules : Rules} {input : String} {parser item : Parser} {items : List Parser}
  {start position calls : Nat} {reason : Failure}

/-- A failure is handed on by one step of a path. -/
theorem Enters.hand_on {outer inner : Parser × Nat} (h : Enters rules input outer inner)
    (fails : Derives rules input inner.1 inner.2 (.failure reason) calls) :
    ∃ callsOuter, Derives rules input outer.1 outer.2 (.failure reason) callsOuter := by
  have stops := Outcome.not_isSuccess_failure (α := Value) reason
  cases h with
  | item chain =>
    exact ⟨_, .sequence_cut ((chain.imp derives_of_runAt).cutShort fails stops _)⟩
  | captured => exact ⟨_, .capture_stop fails stops⟩
  | mapped => exact ⟨_, .map_stop fails stops⟩
  | referred found => exact ⟨_, .rule found fails⟩

/-- A failure is handed on along a path. -/
theorem hand_on_path {outer inner : Parser × Nat}
    (path : Relation.ReflTransGen (Enters rules input) outer inner)
    (fails : ∃ calls, Derives rules input inner.1 inner.2 (.failure reason) calls) :
    ∃ calls, Derives rules input outer.1 outer.2 (.failure reason) calls := by
  induction path using Relation.ReflTransGen.head_induction_on with
  | refl => exact fails
  | head step _ ih =>
    obtain ⟨calls, fails⟩ := ih
    exact step.hand_on fails

/-- A parser makes a failure at the end of a path. -/
def MadeAt (rules : Rules) (input : String) (parser : Parser) (start : Nat) (reason : Failure) :
    Prop :=
  ∃ maker position calls,
    Relation.ReflTransGen (Enters rules input) (parser, start) (maker, position) ∧
    Derives rules input maker position (.failure reason) calls ∧ maker.Makes position reason

theorem MadeAt.here (fails : Derives rules input parser start (.failure reason) calls)
    (makes : parser.Makes start reason) : MadeAt rules input parser start reason :=
  ⟨parser, start, calls, .refl, fails, makes⟩

theorem MadeAt.enter (step : Enters rules input (parser, start) (item, position))
    (h : MadeAt rules input item position reason) : MadeAt rules input parser start reason := by
  obtain ⟨maker, last, calls, path, fails, makes⟩ := h
  exact ⟨maker, last, calls, .head step path, fails, makes⟩

/-- Every failure has a parser that made it, by induction on its derivation. The
failure that ends a repetition and those of abandoned alternatives are in no
outcome, and the failure of a choice is its own. -/
theorem Derives.madeAt {outcome : Outcome Value}
    (h : Derives rules input parser start outcome calls) (failed : outcome = .failure reason) :
    MadeAt rules input parser start reason := by
  have derived := h
  induction h with
  | literal_mismatch | pattern_mismatch | finish_before | alternate_nil | alternate_none =>
    obtain rfl := Outcome.failure.inj failed
    exact .here derived rfl
  | function =>
    rw [failed] at derived
    exact .here derived trivial
  | sequence_cut _ cut =>
    obtain ⟨before, item, after, _, middle, _, _, rfl, row, ⟨last, made⟩, -⟩ := cut.exists_row
    exact .enter (.item ((row.imp Exists.choose).imp Derives.runAt_eq)) (made failed last)
  | alternate_first _ settles | alternate_next _ _ settles =>
    rw [failed] at settles
    exact absurd (Outcome.isFailure_failure _) settles
  | capture_stop inner _ ih => exact .enter .captured (ih failed inner)
  | map_stop inner _ ih => exact .enter .mapped (ih failed inner)
  | rule found inner ih => exact .enter (.referred found) (ih failed inner)
  | literal_match | pattern_match | pure | finish_at | sequence_all | sequence_back
  | many_done | many_next | many_fault | many_later | many_stuck | capture_within
  | capture_outside | map_value | map_fault => cases failed

/-- A parser whose value is changed fails as it does by itself. -/
theorem runAt_map_failure_iff {change : Value → Except Fault Value} :
    (Parser.map item change).runAt rules input start = some ⟨.failure reason, calls⟩ ↔
      item.runAt rules input start = some ⟨.failure reason, calls⟩ := by
  constructor
  · intro h
    cases derives_of_runAt h with
    | map_stop inner _ => exact inner.runAt_eq
  · intro h
    exact (Derives.map_stop (derives_of_runAt h) (Outcome.not_isSuccess_failure _)).runAt_eq

/-- A sequence fails as the first of its items does that fails. -/
theorem runAt_sequence_failure_iff :
    (Parser.sequence items).runAt rules input start = some ⟨.failure reason, calls⟩ ↔
      ∃ before item after values middle callsBefore callsItem,
        items = before ++ item :: after ∧
        Chain rules input before start values middle callsBefore ∧
        item.runAt rules input middle = some ⟨.failure reason, callsItem⟩ ∧
        calls = callsBefore + callsItem := by
  rw [runAt_sequence_eq_some_iff]
  constructor
  · intro h
    cases h with
    | stop cut chain last _ => exact ⟨_, _, _, _, _, _, _, cut, chain, last, rfl⟩
  · rintro ⟨before, item, after, values, middle, callsBefore, callsItem, cut, chain, last, rfl⟩
    exact .stop cut chain last (Outcome.not_isSuccess_failure _)

/-- So does a sequence of any number of parsers, unless a pair inside goes back. -/
theorem runAt_seqAll_failure_iff :
    (Parser.seqAll items).runAt rules input start = some ⟨.failure reason, calls⟩ ↔
      ¬ Retreats rules input (balanced .pure items).members start ∧
        (Parser.sequence items).runAt rules input start = some ⟨.failure reason, calls⟩ := by
  by_cases back : Retreats rules input (balanced .pure items).members start
  · obtain ⟨_, broken⟩ := Parser.runAt_seqAll_of_retreats back
    simp [back, broken]
  · rw [and_iff_right back]
    match items with
    | [] =>
      -- Neither of the two ever fails.
      rw [runAt_sequence_failure_iff]
      simp [Parser.seqAll, Parser.runAt, Parser.step, Step.done]
    | [item] =>
      rw [Parser.seqAll_one, runAt_map_failure_iff]
      constructor
      · intro h
        exact (Derives.sequence_stop (derives_of_runAt h)
          (Outcome.not_isSuccess_failure _)).runAt_eq
      · intro h
        cases derives_of_runAt h with
        | sequence_cut cut =>
          cases cut with
          | here first _ => exact first.runAt_eq
          | later _ rest => cases rest
    | first :: second :: rest =>
      have two : 2 ≤ (first :: second :: rest).length := by simp
      rw [Parser.runAt_seqAll two back]

/-- **Where failures come from.** A run fails exactly if a path leads from the
parser to one that makes this very failure where it is run: a text, a pattern or
the end of the input that is not there, a choice that names itself, or a function.
A sequence of any number of parsers hands on the failure of the first item that
fails, if no pair inside has gone back before, and a repetition never fails. -/
theorem runAt_failure_iff_made (rules : Rules) (parser : Parser) (input : String)
    (start : Nat) :
    (∀ reason,
      (∃ calls, parser.runAt rules input start = some ⟨.failure reason, calls⟩) ↔
        ∃ maker position calls,
          Relation.ReflTransGen (Enters rules input) (parser, start) (maker, position) ∧
          maker.runAt rules input position = some ⟨.failure reason, calls⟩ ∧
          maker.Makes position reason) ∧
    (∀ items reason,
      (∃ calls, (Parser.seqAll items).runAt rules input start = some ⟨.failure reason, calls⟩) ↔
        ¬ Retreats rules input (balanced .pure items).members start ∧
        ∃ before item after values middle callsBefore callsItem,
          items = before ++ item :: after ∧
          Chain rules input before start values middle callsBefore ∧
          item.runAt rules input middle = some ⟨.failure reason, callsItem⟩) ∧
    ∀ item reason calls,
      (Parser.many item).runAt rules input start ≠ some ⟨.failure reason, calls⟩ := by
  refine ⟨fun reason => ⟨?_, ?_⟩, fun items reason => ⟨?_, ?_⟩, ?_⟩
  · rintro ⟨calls, h⟩
    obtain ⟨maker, position, calls, path, fails, makes⟩ := (derives_of_runAt h).madeAt rfl
    exact ⟨maker, position, calls, path, fails.runAt_eq, makes⟩
  · rintro ⟨maker, position, calls, path, fails, -⟩
    obtain ⟨calls, fails⟩ := hand_on_path path ⟨calls, derives_of_runAt fails⟩
    exact ⟨calls, fails.runAt_eq⟩
  · rintro ⟨calls, h⟩
    obtain ⟨stays, flat⟩ := runAt_seqAll_failure_iff.1 h
    obtain ⟨before, item, after, values, middle, callsBefore, callsItem, cut, chain, last, -⟩ :=
      runAt_sequence_failure_iff.1 flat
    exact ⟨stays, before, item, after, values, middle, callsBefore, callsItem, cut, chain, last⟩
  · rintro ⟨stays, before, item, after, values, middle, callsBefore, callsItem, cut, chain, last⟩
    have flat := runAt_sequence_failure_iff.2
      ⟨before, item, after, values, middle, callsBefore, callsItem, cut, chain, last, rfl⟩
    exact ⟨callsBefore + callsItem, runAt_seqAll_failure_iff.2 ⟨stays, flat⟩⟩
  · intro item reason calls h
    exact not_derives_many_failure (derives_of_runAt h)

end Peg
