import Peg.Proofs.Likeness
import Peg.Proofs.Provenance

/-!
# References are transparent

A reference stands for the parser of its rule and nothing else. Writing that parser
in its place, at any number of places of a grammar and again inside of what was
written there, changes neither what is accepted nor what values come of it. Names
are for messages alone: an unfolded grammar calls its parsers otherwise, and so it may
with its functions, but only choices and repetitions that break down say so.

The two grammars are not unfolded in step. One reference that is followed on one
side may be no reference on the other, so each of the runs is found from the other
by an induction of its own.

## Main definitions

* `Parser.Unfolds`: a parser with some references replaced by the parsers of their
  rules, and with other names for functions.
* `Likeness.exceptWords`: replies that are the same but for names, with no more
  references followed.

## Main results

* `Parser.Unfolds.follows`, `Parser.Unfolds.precedes`: if references run alike, so
  do parsers and what they unfold to, in both directions.
* `Enters.unfolds`: failures come from the same parsers before and after.
* `runAt_unfolded`: references are transparent, and names show in messages of choices
  and faults only.
-/

namespace Peg

namespace Parser

mutual

/-- A parser, and the same with some references replaced by the parsers of their
rules, in which references may be replaced as well. Functions may be renamed. -/
inductive Unfolds (rules : Rules) : Parser → Parser → Prop
  | literal (text : String) : Unfolds rules (.literal text) (.literal text)
  | pattern (regex : Pattern) : Unfolds rules (.pattern regex) (.pattern regex)
  | pure : Unfolds rules .pure .pure
  | finish : Unfolds rules .finish .finish
  | many {item item' : Parser} (inner : Unfolds rules item item') :
    Unfolds rules (.many item) (.many item')
  | sequence {items items' : List Parser} (each : UnfoldsAll rules items items') :
    Unfolds rules (.sequence items) (.sequence items')
  | alternate {items items' : List Parser} (each : UnfoldsAll rules items items') :
    Unfolds rules (.alternate items) (.alternate items')
  | capture {item item' : Parser} (inner : Unfolds rules item item') :
    Unfolds rules (.capture item) (.capture item')
  | map {item item' : Parser} (inner : Unfolds rules item item')
    (change : Value → Except Fault Value) : Unfolds rules (.map item change) (.map item' change)
  | function (name name' : String) (run : Function) :
    Unfolds rules (.function name run) (.function name' run)
  | rule (name : String) : Unfolds rules (.rule name) (.rule name)
  | unfold {name : String} {parser other : Parser} (found : rules.parser? name = some parser)
    (inner : Unfolds rules parser other) : Unfolds rules (.rule name) other

/-- The same for each of several parsers. -/
inductive UnfoldsAll (rules : Rules) : List Parser → List Parser → Prop
  | nil : UnfoldsAll rules [] []
  | cons {item item' : Parser} {items items' : List Parser} (first : Unfolds rules item item')
    (rest : UnfoldsAll rules items items') : UnfoldsAll rules (item :: items) (item' :: items')

end

section Built

variable {rules : Rules} {items items' : List Parser}

mutual

/-- No reference has to be replaced. -/
theorem Unfolds.refl (rules : Rules) (parser : Parser) : Unfolds rules parser parser := by
  match parser with
  | .literal text => exact .literal text
  | .pattern regex => exact .pattern regex
  | .pure => exact .pure
  | .finish => exact .finish
  | .many item => exact .many (.refl rules item)
  | .sequence items => exact .sequence (.refl rules items)
  | .alternate items => exact .alternate (.refl rules items)
  | .capture item => exact .capture (.refl rules item)
  | .map item change => exact .map (.refl rules item) change
  | .function name run => exact .function name name run
  | .rule name => exact .rule name

theorem UnfoldsAll.refl (rules : Rules) (items : List Parser) : UnfoldsAll rules items items := by
  match items with
  | [] => exact .nil
  | item :: items => exact .cons (.refl rules item) (.refl rules items)

end

theorem Unfolds.seqAll (each : List.Forall₂ (Unfolds rules) items items') :
    Unfolds rules (seqAll items) (seqAll items') :=
  related_seqAll .pure (fun first second => .sequence (.cons first (.cons second .nil)))
    (fun _ inner => .map inner _) each

theorem Unfolds.altAll (each : List.Forall₂ (Unfolds rules) items items') :
    Unfolds rules (altAll items) (altAll items') :=
  related_altAll (.alternate .nil)
    (fun first second => .alternate (.cons first (.cons second .nil))) each

/-- An item between others unfolds to one between what the others unfold to. -/
theorem UnfoldsAll.exists_cut {before after : List Parser} {item : Parser}
    (h : UnfoldsAll rules (before ++ item :: after) items') :
    ∃ before' item' after', items' = before' ++ item' :: after' ∧
      UnfoldsAll rules before before' ∧ Unfolds rules item item' := by
  induction before generalizing items' with
  | nil =>
    cases h with
    | cons first rest => exact ⟨[], _, _, rfl, .nil, first⟩
  | cons other before ih =>
    cases h with
    | cons first rest =>
      obtain ⟨before', item', after', rfl, all, same⟩ := ih rest
      exact ⟨_ :: before', item', after', rfl, .cons first all, same⟩

end Built

end Parser

/-- Faults of one kind at one position, which may quote different names. -/
inductive Fault.SameKind : Fault → Fault → Prop
  | emptyRepetition (item item' repetition repetition' : String) (position : Nat) :
    SameKind (.emptyRepetition item repetition position)
      (.emptyRepetition item' repetition' position)
  | reversedRange : SameKind .reversedRange .reversedRange
  | spanOutOfRange : SameKind .spanOutOfRange .spanOutOfRange
  | notASlice : SameKind .notASlice .notASlice

/-- Replies that are the same but for the words of failures and the names in faults. The
second one has followed as many references at most. -/
def Likeness.exceptWords : Likeness where
  values := Eq
  failures reason reason' := reason.position = reason'.position
  faults := Fault.SameKind
  calls calls calls' := calls' ≤ calls
  values_refl _ := rfl
  failures_refl _ := rfl
  faults_refl cause := by
    cases cause with
    | emptyRepetition item repetition position => exact .emptyRepetition _ _ _ _ position
    | reversedRange => exact .reversedRange
    | spanOutOfRange => exact .spanOutOfRange
    | notASlice => exact .notASlice
  calls_zero := Nat.le_refl 0
  calls_add := Nat.add_le_add
  list each := congrArg Value.list (List.forall₂_eq_eq_eq ▸ each)
  spanned _ same := by rw [same]

open Likeness (exceptWords)

namespace Parser

section Follows

variable {rules : Rules} {follow follow' : String → Step Value} {input : String}

mutual

/-- What a parser unfolds to follows it, if it does so for references. -/
theorem Unfolds.follows {parser parser' : Parser} (h : Unfolds rules parser parser')
    (references : ∀ {name other}, Unfolds rules (.rule name) other →
      Step.Follows exceptWords exceptWords.values (follow name) (other.step follow' input)) :
    Step.Follows exceptWords exceptWords.values (parser.step follow input)
      (parser'.step follow' input) := by
  cases h with
  | literal text => exact follows_done _ _
  | pattern regex => exact follows_done _ _
  | pure => exact follows_done _ _
  | finish => exact follows_done _ _
  | function name name' run => exact follows_done _ _
  | many inner =>
    exact follows_many (fun _ => .emptyRepetition _ _ _ _ _) (inner.follows references)
  | sequence each => exact follows_sequence (each.follow references)
  | alternate each => exact follows_alternate (fun _ => rfl) (each.follow references)
  | capture inner => exact follows_capture (inner.follows references)
  | map inner change =>
    exact follows_map (exceptWords.keeps_self id change) (inner.follows references)
  | rule name => exact references (.rule name)
  | unfold found inner => exact references (.unfold found inner)

/-- The same for each of several parsers. -/
theorem UnfoldsAll.follow {items items' : List Parser} (h : UnfoldsAll rules items items')
    (references : ∀ {name other}, Unfolds rules (.rule name) other →
      Step.Follows exceptWords exceptWords.values (follow name) (other.step follow' input)) :
    List.Forall₂ (Step.Follows exceptWords exceptWords.values) (steps follow input items)
      (steps follow' input items') := by
  cases h with
  | nil => exact .nil
  | cons first rest => exact .cons (first.follows references) (rest.follow references)

end

mutual

/-- A parser follows what it unfolds to, if references that are kept do so. Behind a
reference that was replaced one more is followed. -/
theorem Unfolds.precedes {parser parser' : Parser} (h : Unfolds rules parser parser')
    (references : ∀ name, Step.Follows exceptWords.flip exceptWords.flip.values (follow' name)
      (rules.step input name)) :
    Step.Follows exceptWords.flip exceptWords.flip.values (parser'.step follow' input)
      (parser.runAt rules input) := by
  match h with
  | .literal text => exact follows_done _ _
  | .pattern regex => exact follows_done _ _
  | .pure => exact follows_done _ _
  | .finish => exact follows_done _ _
  | .function name name' run => exact follows_done _ _
  | .many inner =>
    exact follows_many (fun _ => .emptyRepetition _ _ _ _ _) (inner.precedes references)
  | .sequence each => exact follows_sequence (each.precede references)
  | .alternate each => exact follows_alternate (fun _ => rfl) (each.precede references)
  | .capture inner => exact follows_capture (inner.precedes references)
  | .map inner change =>
    exact follows_map (exceptWords.flip.keeps_self Eq.symm change) (inner.precedes references)
  | .rule name => exact references name
  | .unfold found inner =>
    -- What stands in place of the reference is run at once, so it counts one less.
    intro start reply replied
    obtain ⟨reply', replied', outcome, calls⟩ := inner.precedes references start reply replied
    refine ⟨reply'.after 1, ?_, outcome, Nat.le_add_left_of_le calls⟩
    rw [runAt_rule, found, Option.bind_some, replied', Option.map_some]

/-- The same for each of several parsers. -/
theorem UnfoldsAll.precede {items items' : List Parser} (h : UnfoldsAll rules items items')
    (references : ∀ name, Step.Follows exceptWords.flip exceptWords.flip.values (follow' name)
      (rules.step input name)) :
    List.Forall₂ (Step.Follows exceptWords.flip exceptWords.flip.values)
      (steps follow' input items') (steps (rules.step input) input items) := by
  match h with
  | .nil => exact .nil
  | .cons first rest => exact .cons (first.precedes references) (rest.precede references)

end

end Follows

end Parser

section Runs

variable {rules rules' : Rules} {input : String} {parser parser' item item' : Parser}
  {start position calls : Nat} {reason : Failure}

/-- What a reference unfolds to follows it, by induction on how the replies of the rules
arise. Whether the reference is kept or not, the parser of its rule is run. -/
theorem Rules.Related.follows_unfolded (table : Rules.Related (Parser.Unfolds rules) rules rules')
    (name : String) :
    ∀ start reply, rules.step input name start = some reply →
      ∀ other, Parser.Unfolds rules (.rule name) other → ∃ reply',
        other.runAt rules' input start = some reply' ∧
          reply.Alike exceptWords exceptWords.values reply' := by
  refine Rules.step.partial_correctness rules input
    (fun name start reply => ∀ other, Parser.Unfolds rules (.rule name) other → ∃ reply',
      other.runAt rules' input start = some reply' ∧
        reply.Alike exceptWords exceptWords.values reply') ?_ name
  intro follow ih name start reply replied other h
  obtain ⟨parser, found, inner⟩ := Option.bind_eq_some_iff.1 replied
  obtain ⟨reply, run, rfl⟩ := Option.map_eq_some_iff.1 inner
  have references : ∀ {name other}, Parser.Unfolds rules (.rule name) other →
      Step.Follows exceptWords exceptWords.values (follow name)
        (other.step (rules'.step input) input) :=
    fun same start reply replied => ih _ start reply replied _ same
  cases h with
  | rule =>
    -- The reference is kept, and the parser of its rule has been unfolded in the table.
    obtain ⟨parser', found', same⟩ := table.exists_parser? found
    obtain ⟨reply', run', alike⟩ := same.follows references start reply run
    refine ⟨reply'.after 1, ?_, alike.after (Nat.le_refl 1)⟩
    rw [Parser.runAt_rule, found', Option.bind_some, Parser.runAt, run', Option.map_some]
  | unfold found' same =>
    -- Another copy of the rule's parser has been written here, unfolded in its own way.
    obtain rfl := Option.some.inj (found.symm.trans found')
    obtain ⟨reply', run', outcome, counted⟩ := same.follows references start reply run
    exact ⟨reply', run', outcome, Nat.le_add_left_of_le counted⟩

/-- A rule follows what has come of it, by induction on how the new replies arise. -/
theorem Rules.Related.precedes_unfolded (table : Rules.Related (Parser.Unfolds rules) rules rules')
    (name : String) :
    Step.Follows exceptWords.flip exceptWords.flip.values (rules'.step input name)
      (rules.step input name) := by
  refine Rules.step.partial_correctness rules' input
    (fun name start reply => ∃ reply', rules.step input name start = some reply' ∧
      reply.Alike exceptWords.flip exceptWords.flip.values reply') ?_ name
  intro follow ih name start reply replied
  obtain ⟨parser', found', inner⟩ := Option.bind_eq_some_iff.1 replied
  obtain ⟨reply, run, rfl⟩ := Option.map_eq_some_iff.1 inner
  obtain ⟨parser, found, same⟩ := table.flip.exists_parser? found'
  obtain ⟨reply', run', alike⟩ := same.precedes ih start reply run
  refine ⟨reply'.after 1, ?_, alike.after (Nat.le_refl 1)⟩
  rw [Rules.step, found, Option.bind_some, ← Parser.runAt, run', Option.map_some]

/-- A run that ends, does so alike after unfolding. -/
theorem exists_runAt_of_unfolds (table : Rules.Related (Parser.Unfolds rules) rules rules')
    (h : parser.Unfolds rules parser') {reply : Reply Value}
    (ends : parser.runAt rules input start = some reply) :
    ∃ reply', parser'.runAt rules' input start = some reply' ∧
      reply.Alike exceptWords exceptWords.values reply' :=
  h.follows (fun same start reply replied =>
    table.follows_unfolded _ start reply replied _ same) start reply ends

/-- Unfolding changes neither whether a run ends nor how. -/
theorem runAt_alike_of_unfolds (table : Rules.Related (Parser.Unfolds rules) rules rules')
    (h : parser.Unfolds rules parser') (input : String) (start : Nat) :
    Option.Rel (Reply.Alike exceptWords exceptWords.values) (parser.runAt rules input start)
      (parser'.runAt rules' input start) := by
  cases ends : parser.runAt rules input start with
  | some reply =>
    obtain ⟨reply', ends', alike⟩ := exists_runAt_of_unfolds table h ends
    rw [ends']
    exact .some alike
  | none =>
    cases ends' : parser'.runAt rules' input start with
    | none => exact .none
    | some reply' =>
      -- The other way round, the first run would have ended as well.
      obtain ⟨reply, back, -⟩ := h.precedes table.precedes_unfolded start reply' ends'
      rw [ends] at back
      cases back

/-! ### Where failures come from, before and after -/

theorem Parser.UnfoldsAll.chain {items items' : List Parser}
    (each : Parser.UnfoldsAll rules items items')
    (table : Rules.Related (Parser.Unfolds rules) rules rules') {values : List Value} {stop : Nat}
    (h : Chain rules input items start values stop calls) :
    ∃ calls', Chain rules' input items' start values stop calls' := by
  induction h generalizing items' with
  | nil =>
    cases each
    exact ⟨0, .nil⟩
  | @cons _ _ _ _ _ _ head _ first _ ih =>
    cases each with
    | cons same all =>
      obtain ⟨⟨_, callsHead⟩, first', ⟨rfl⟩, _⟩ := exists_runAt_of_unfolds table same first
      obtain ⟨callsTail, rest'⟩ := ih all
      exact ⟨callsHead + callsTail, .cons first' rest'⟩

/-- One step of a path to the maker of a failure is one step after unfolding, or none if
it leads through a reference that was replaced. -/
theorem Enters.unfolds (table : Rules.Related (Parser.Unfolds rules) rules rules')
    (step : Enters rules input (parser, start) (item, position))
    (h : parser.Unfolds rules parser') :
    ∃ item', item.Unfolds rules item' ∧
      Relation.ReflTransGen (Enters rules' input) (parser', start) (item', position) := by
  cases step with
  | item chain =>
    cases h with
    | sequence each =>
      obtain ⟨before', item', after', rfl, all, same⟩ := each.exists_cut
      obtain ⟨calls', chain'⟩ := all.chain table chain
      exact ⟨item', same, .single (.item chain')⟩
  | captured =>
    cases h with
    | capture inner => exact ⟨_, inner, .single .captured⟩
  | mapped =>
    cases h with
    | map inner => exact ⟨_, inner, .single .mapped⟩
  | referred found =>
    cases h with
    | rule =>
      obtain ⟨item', found', same⟩ := table.exists_parser? found
      exact ⟨item', same, .single (.referred found')⟩
    | unfold found' inner =>
      -- After unfolding, the path is already where the reference would lead.
      obtain rfl := Option.some.inj (found.symm.trans found')
      exact ⟨parser', inner, .refl⟩

theorem exists_path_of_unfolds (table : Rules.Related (Parser.Unfolds rules) rules rules')
    {outer inner : Parser × Nat} (path : Relation.ReflTransGen (Enters rules input) outer inner)
    {parser' : Parser} (h : outer.1.Unfolds rules parser') :
    ∃ item', inner.1.Unfolds rules item' ∧
      Relation.ReflTransGen (Enters rules' input) (parser', outer.2) (item', inner.2) := by
  induction path using Relation.ReflTransGen.head_induction_on generalizing parser' with
  | refl => exact ⟨parser', h, .refl⟩
  | head step _ ih =>
    obtain ⟨item', same, here⟩ := step.unfolds table h
    obtain ⟨last', same', path'⟩ := ih same
    exact ⟨last', same', here.trans path'⟩

/-- What makes a failure and is no choice is kept as it is, but for the name of a
function, and makes the same failure. -/
theorem Parser.Unfolds.fails_of_makes (h : parser.Unfolds rules parser')
    (fails : Derives rules input parser start (.failure reason) calls)
    (makes : parser.Makes start reason) :
    (∃ items, parser = .alternate items) ∨
      parser'.runAt rules' input start = some ⟨.failure reason, calls⟩ := by
  cases h with
  | alternate each => exact .inl ⟨_, rfl⟩
  | literal | pattern | finish | function => exact .inr fails.runAt_eq
  | pure | many | sequence | capture | map | rule | unfold => exact absurd makes id

/-- **References are transparent, and names are for messages.** Where references are
replaced by the parsers of their rules and functions get other names, a run ends if it
did before, in the same way: with the same value and range, with a failure at the same
position, or with a fault of the same kind at the same position, whatever names it
quotes. It follows as many references at most. The message of a failure changes only if
a path leads to a choice that made the failure. -/
theorem runAt_unfolded (table : Rules.Related (Parser.Unfolds rules) rules rules')
    (h : parser.Unfolds rules parser') (input : String) (start : Nat) :
    Option.Rel (Reply.Alike exceptWords exceptWords.values) (parser.runAt rules input start)
      (parser'.runAt rules' input start) ∧
    ∀ reason reason' calls calls',
      parser.runAt rules input start = some ⟨.failure reason, calls⟩ →
      parser'.runAt rules' input start = some ⟨.failure reason', calls'⟩ →
        reason = reason' ∨
          ∃ items position callsMade,
            Relation.ReflTransGen (Enters rules input) (parser, start)
              (.alternate items, position) ∧
            (Parser.alternate items).runAt rules input position =
              some ⟨.failure reason, callsMade⟩ ∧
            (Parser.alternate items).Makes position reason := by
  refine ⟨runAt_alike_of_unfolds table h input start, ?_⟩
  intro reason reason' calls calls' fails fails'
  obtain ⟨maker, position, callsMade, path, made, makes⟩ := (derives_of_runAt fails).madeAt rfl
  obtain ⟨maker', same, path'⟩ := exists_path_of_unfolds table path h
  have kept : (∃ items, maker = .alternate items) ∨
      maker'.runAt rules' input position = some ⟨.failure reason, callsMade⟩ :=
    same.fails_of_makes made makes
  obtain ⟨items, rfl⟩ | made' := kept
  · exact .inr ⟨items, position, callsMade, path, made.runAt_eq, makes⟩
  · -- The same failure is handed on along the path after unfolding.
    obtain ⟨callsOuter, handed⟩ := hand_on_path path' ⟨_, derives_of_runAt made'⟩
    obtain ⟨same, -⟩ := handed.unique (derives_of_runAt fails')
    exact .inl (Outcome.failure.inj same)

end Runs

/-- A digit in any number of opening brackets. -/
def bracketedDigit : Rules :=
  [("item", .alternate [.seq (.literal "(") (.rule "item"), .function "digit" Function.digit])]

/-- The same with two brackets at a time, and another name for the digit. -/
def bracketedTwice : Rules :=
  [("item", .alternate [
    .seq (.literal "(")
      (.alternate [.seq (.literal "(") (.rule "item"), .function "digit" Function.digit]),
    .function "0..9" Function.digit])]

/-- What two references lead to is read with two references at most after unfolding. -/
theorem runAt_unfolded_bracketed :
    Rules.Related (Parser.Unfolds bracketedDigit) bracketedDigit bracketedTwice ∧
    (Parser.rule "item").Unfolds bracketedDigit (.rule "item") ∧
    ∃ calls ≤ 2, (Parser.rule "item").runAt bracketedTwice "(7" 0 =
      some ⟨.success ⟨.list [.text "(", .number 7], 0, 2⟩, calls⟩ := by
  have found : bracketedDigit.parser? "item" = some (.alternate
    [.seq (.literal "(") (.rule "item"), .function "digit" Function.digit]) := rfl
  have table : Rules.Related (Parser.Unfolds bracketedDigit) bracketedDigit bracketedTwice := by
    refine .cons ⟨rfl, .alternate (.cons (.sequence (.cons (.literal "(") (.cons ?_ .nil)))
      (.cons (.function "digit" "0..9" _) .nil))⟩ .nil
    exact .unfold found (.refl _ _)
  have kept : (Parser.rule "item").Unfolds bracketedDigit (.rule "item") := .rule "item"
  refine ⟨table, kept, ?_⟩
  have digit : (Parser.rule "item").runAt bracketedDigit "(7" 1 =
      some ⟨.success ⟨.number 7, 1, 2⟩, 1⟩ := by
    rw [Parser.runAt_rule, found]
    rfl
  have bracket : (Parser.literal "(").runAt bracketedDigit "(7" 0 =
      some ⟨.success ⟨.text "(", 0, 1⟩, 0⟩ := rfl
  have row := Row.cons (derives_of_runAt bracket) (.cons (derives_of_runAt digit) .nil)
  have run := (Derives.rule found (.alternate_first (.sequence_all row (Nat.zero_le 2))
    (Outcome.not_isFailure_success _))).runAt_eq
  have alike := (runAt_unfolded table kept "(7" 0).1
  rw [run] at alike
  generalize (Parser.rule "item").runAt bracketedTwice "(7" 0 = run' at alike ⊢
  obtain @⟨_, ⟨_, calls⟩, ⟨rfl⟩, fewer⟩ := alike
  exact ⟨calls, fewer, rfl⟩

end Peg
