import Mathlib.Logic.Relation
import Peg.Proofs.Balanced
import Peg.Proofs.Derivation

/-!
# Where successes start

A success starts where its parser is run, unless a function says otherwise. What a
function reports is taken over by choices, captures, changed values and references.
Sequences and repetitions do not take it over: they start where they are run,
whatever their items report.

Sequences of any number of parsers change over from the one to the other: a single
parser keeps the start that it reports, and two of them do not.

## Main definitions

* `TakesOver`: the successes of one parser are those of another, up to the value.
* `Relays`: a parser takes over what a function reports, in any number of steps.
* `Parser.IsAnchored`: parsers that start where they are run.

## Main results

* `relays_seqAll_iff`, `relays_altAll_iff`: what sequences and choices of any number of
  parsers take over.
* `Derives.startsFrom`: every start is the place of the run or is relayed.
* `runAt_start`: where successes start.
-/

namespace Peg

/-- A success of the second parser is a success of the first one, over the same range. -/
inductive TakesOver (rules : Rules) : Parser → Parser → Prop
  | chosen {item : Parser} {items : List Parser} (member : item ∈ items) :
      TakesOver rules (.alternate items) item
  | captured {item : Parser} : TakesOver rules (.capture item) item
  | mapped {item : Parser} {change : Value → Except Fault Value} :
      TakesOver rules (.map item change) item
  | referred {name : String} {parser : Parser} (found : rules.parser? name = some parser) :
      TakesOver rules (.rule name) parser

/-- A parser takes over what a function reports, in any number of steps. -/
def Relays (rules : Rules) (parser : Parser) (name : String) (run : Function) : Prop :=
  Relation.ReflTransGen (TakesOver rules) parser (.function name run)

/-- A success over this range starts at the place of the run, or is reported in this way
by a function that is run at the same place. -/
def StartsFrom (rules : Rules) (input : String) (parser : Parser) (start origin stop : Nat) :
    Prop :=
  origin = start ∨ ∃ name run value, Relays rules parser name run ∧
    run input start = .success ⟨value, origin, stop⟩

/-- A parser that starts its successes where it is run. -/
inductive Parser.IsAnchored : Parser → Prop
  | literal (text : String) : IsAnchored (.literal text)
  | pattern (regex : Pattern) : IsAnchored (.pattern regex)
  | pure : IsAnchored .pure
  | finish : IsAnchored .finish
  | many (item : Parser) : IsAnchored (.many item)
  | sequence (items : List Parser) : IsAnchored (.sequence items)
  | seqAll {items : List Parser} (two : 2 ≤ items.length) : IsAnchored (.seqAll items)

variable {rules : Rules} {input name : String} {parser item inner : Parser} {items : List Parser}
  {run : Function} {start calls : Nat}

/-! ### What is relayed -/

theorem Relays.takeOver (step : TakesOver rules parser inner) (h : Relays rules inner name run) :
    Relays rules parser name run :=
  .head step h

/-- What is no function relays by taking over from another parser. -/
theorem Relays.exists_takesOver (h : Relays rules parser name run)
    (other : parser ≠ .function name run) :
    ∃ inner, TakesOver rules parser inner ∧ Relays rules inner name run := by
  rcases h.cases_head with same | step
  · exact absurd same other
  · exact step

/-- What takes nothing over relays nothing, unless it is a function itself. -/
theorem not_relays_of_forall (alone : ∀ inner, ¬ TakesOver rules parser inner)
    (other : parser ≠ .function name run) : ¬ Relays rules parser name run := by
  intro h
  obtain ⟨inner, step, -⟩ := h.exists_takesOver other
  exact alone inner step

theorem not_relays_pure : ¬ Relays rules .pure name run :=
  not_relays_of_forall nofun nofun

theorem not_relays_sequence : ¬ Relays rules (.sequence items) name run :=
  not_relays_of_forall nofun nofun

theorem relays_map_iff {change : Value → Except Fault Value} :
    Relays rules (.map item change) name run ↔ Relays rules item name run := by
  constructor
  · intro h
    obtain ⟨_, step, inner⟩ := h.exists_takesOver nofun
    cases step
    exact inner
  · exact fun h => h.takeOver .mapped

theorem relays_alternate_iff :
    Relays rules (.alternate items) name run ↔ ∃ item ∈ items, Relays rules item name run := by
  constructor
  · intro h
    obtain ⟨item, step, inner⟩ := h.exists_takesOver nofun
    cases step with
    | chosen member => exact ⟨item, member, inner⟩
  · rintro ⟨item, member, h⟩
    exact h.takeOver (.chosen member)

/-- A sequence of any number of parsers relays what a single parser in it relays. -/
theorem relays_seqAll_iff :
    Relays rules (.seqAll items) name run ↔
      ∃ item, items = [item] ∧ Relays rules item name run := by
  match items with
  | [] => simpa [Parser.seqAll] using not_relays_pure
  | [item] => simp [Parser.seqAll_one, relays_map_iff]
  | first :: second :: rest =>
    -- The outermost pair is a sequence.
    simpa [Parser.seqAll, Parser.halved, Parser.seq, relays_map_iff] using not_relays_sequence

/-- A choice among any number of parsers relays what each of them relays. -/
theorem relays_altAll_iff :
    Relays rules (.altAll items) name run ↔ ∃ item ∈ items, Relays rules item name run := by
  by_cases empty : items = []
  · subst empty
    rw [Parser.altAll, Parser.halved, relays_alternate_iff]
  · refine Parser.halved_induction (motive := fun items tree =>
      Relays rules tree name run ↔ ∃ item ∈ items, Relays rules item name run) ?_ ?_ empty
    · intro item
      simp
    · intro before after first second _ _ _ left right
      rw [Parser.or, relays_alternate_iff]
      simp only [List.mem_cons, List.not_mem_nil, or_false, exists_eq_left, left, right,
        List.mem_append, or_and_right, exists_or]

/-- A parser that starts where it is run relays nothing. -/
theorem Parser.IsAnchored.not_relays (h : parser.IsAnchored) : ¬ Relays rules parser name run := by
  cases h with
  | seqAll two =>
    rw [relays_seqAll_iff]
    rintro ⟨item, rfl, -⟩
    simp at two
  | sequence items => exact not_relays_sequence
  | _ => exact not_relays_of_forall nofun nofun

/-! ### Where successes start -/

theorem StartsFrom.takeOver {origin stop : Nat} (step : TakesOver rules parser inner)
    (h : StartsFrom rules input inner start origin stop) :
    StartsFrom rules input parser start origin stop := by
  obtain here | ⟨name, run, value, relays, reports⟩ := h
  · exact .inl here
  · exact .inr ⟨name, run, value, relays.takeOver step, reports⟩

/-- Every start is the place of the run or is relayed, by induction on the derivation. What
the items of sequences and repetitions start from does not matter. -/
theorem Derives.startsFrom {outcome : Outcome Value} {result : Success Value}
    (h : Derives rules input parser start outcome calls) (succeeds : outcome = .success result) :
    StartsFrom rules input parser start result.start result.stop := by
  induction h generalizing result with
  | literal_match | pattern_match | pure | finish_at | sequence_all | many_done | many_next =>
    cases succeeds
    exact .inl rfl
  | @function name run start => exact .inr ⟨name, run, result.value, .refl, succeeds⟩
  | alternate_first _ _ ih => exact .takeOver (.chosen List.mem_cons_self) (ih succeeds)
  | @alternate_next item items start _ _ _ _ _ rest _ _ ih =>
    -- The rest of the choice is a choice: one of its items is taken over, or nothing.
    obtain here | ⟨name, run, value, relays, reports⟩ := ih succeeds
    · exact .inl here
    · obtain ⟨other, member, relays⟩ := relays_alternate_iff.1 relays
      refine .inr ⟨name, run, value, ?_, reports⟩
      exact relays_alternate_iff.2 ⟨other, List.mem_cons_of_mem item member, relays⟩
  | capture_within _ _ ih =>
    cases succeeds
    have inner := ih rfl
    exact inner.takeOver .captured
  | map_value _ _ ih =>
    cases succeeds
    have inner := ih rfl
    exact inner.takeOver .mapped
  | rule found _ ih => exact .takeOver (.referred found) (ih succeeds)
  | sequence_cut cut =>
    subst succeeds
    exact absurd (Outcome.isSuccess_success result) cut.not_isSuccess
  | capture_stop _ stops | map_stop _ stops =>
    rw [succeeds] at stops
    exact absurd (Outcome.isSuccess_success result) stops
  | literal_mismatch | pattern_mismatch | finish_before | sequence_back | alternate_nil
  | alternate_none | many_fault | many_later | many_stuck | capture_outside | map_fault =>
    cases succeeds

/-- **Where successes start.** A success starts where the parser is run, or its range is
what a function reports that is run at the same place. Such a function is found through
choices, captures, changed values and references alone. In sequences of any number of
parsers it is found if it is in the only one, in choices if it is in any one. So every text,
pattern, repetition and sequence starts where it is run, whatever its items report. -/
theorem runAt_start (rules : Rules) (input : String) (start : Nat) :
    (∀ parser result calls, parser.runAt rules input start = some ⟨.success result, calls⟩ →
      result.start = start ∨ ∃ name run value, Relays rules parser name run ∧
        run input start = .success ⟨value, result.start, result.stop⟩) ∧
    (∀ items name run,
      (Relays rules (.seqAll items) name run ↔
        ∃ item, items = [item] ∧ Relays rules item name run) ∧
      (Relays rules (.altAll items) name run ↔
        ∃ item ∈ items, Relays rules item name run)) ∧
    ∀ (parser : Parser) result calls, parser.IsAnchored →
      parser.runAt rules input start = some ⟨.success result, calls⟩ → result.start = start := by
  refine ⟨?_, fun items name run => ⟨relays_seqAll_iff, relays_altAll_iff⟩, ?_⟩
  · intro parser result calls h
    exact (derives_of_runAt h).startsFrom rfl
  · intro parser result calls anchored h
    obtain here | ⟨name, run, value, relays, -⟩ := (derives_of_runAt h).startsFrom rfl
    · exact here
    · exact absurd relays anchored.not_relays

/-- A single function in a sequence, which reports a range further on. -/
def aheadRules : Rules :=
  [("ahead", .seqAll [.function "ahead" (Function.accept .unit 1 2)])]

/-- A reference to that sequence behind a text that is not there, captured. -/
def ahead : Parser :=
  .capture (.or (.literal "x") (.rule "ahead"))

/-- The range of the function is taken over all the way up, and a sequence around it starts
where it is run. -/
theorem runAt_start_ahead :
    (∃ name run value, Relays aheadRules ahead name run ∧
      run "ab" 0 = .success ⟨value, 1, 2⟩) ∧
    ∃ result, (Parser.sequence [ahead]).runAt aheadRules "ab" 0 = some ⟨.success result, 1⟩ ∧
      result.start = 0 := by
  have found : aheadRules.parser? "ahead" =
      some (.map (.function "ahead" (Function.accept .unit 1 2)) fun value =>
        .ok (.list [value])) := by
    rw [← Parser.seqAll_one]
    rfl
  have referred : (Parser.rule "ahead").runAt aheadRules "ab" 0 =
      some ⟨.success ⟨.list [.unit], 1, 2⟩, 1⟩ := by
    rw [Parser.runAt_rule, found, Option.bind_some]
    rfl
  have missing : (Parser.literal "x").runAt aheadRules "ab" 0 =
      some ⟨.failure (.expected "x" 0), 0⟩ := rfl
  have whole : ahead.runAt aheadRules "ab" 0 =
      some ⟨.success ⟨.spanned (.list [.unit]) ⟨"ab", 1, 2⟩, 1, 2⟩, 1⟩ := by
    rw [ahead, Parser.runAt_capture, Parser.or, Parser.runAt_alternate, List.map_cons,
      Step.firstOf_cons_failure missing, List.map_cons, Step.firstOf_cons_success referred]
    rfl
  have around : (Parser.sequence [ahead]).runAt aheadRules "ab" 0 =
      some ⟨.success ⟨.list [.spanned (.list [.unit]) ⟨"ab", 1, 2⟩], 0, 2⟩, 1⟩ := by
    rw [Parser.runAt_sequence, Step.inOrder, List.map_cons, Step.row_cons_success whole]
    rfl
  obtain ⟨starts, -, anchored⟩ := runAt_start aheadRules "ab" 0
  obtain here | reported := starts _ _ _ whole
  · cases here
  · exact ⟨reported, _, around, anchored _ _ _ (.sequence _) around⟩

end Peg
