import Peg.Proofs.Balanced
import Peg.Proofs.Likeness
import Peg.Transform

/-!
# Values never steer a run

The values that parsers produce are handed around next to the positions, but no
parser looks at them. Two grammars that differ in nothing but the functions that
change values therefore run in step: they follow the same references, stop at the
same places and say the same about it.

This is a statement on two runs at once. Only a change that breaks down could be
told apart from another, so all changes have to have a value for every value.

## Main definitions

* `Parser.Remaps`: the same parser but for its changes of values.
* `Likeness.exceptValues`: replies that are the same but for their values.

## Main results

* `Parser.Remaps.follows`: parsers that are the same but for their changes run alike.
* `runAt_remapped`: so do runs over rules that are the same but for their changes.
-/

namespace Peg

/-- A change that has a value for every value. -/
def IsTotal (change : Value → Except Fault Value) : Prop :=
  ∀ value, ∃ changed, change value = .ok changed

/-- Of the functions that a grammar can name, only the text of a span can break down. -/
theorem Transform.isTotal_apply {transform : Transform} (h : transform ≠ .spanText) :
    IsTotal transform.apply := by
  intro value
  unfold apply
  split
  case h_13 => exact absurd rfl h
  all_goals exact ⟨_, rfl⟩

namespace Parser

mutual

/-- Two parsers that are the same but for how they change values. The changes never
break down. -/
inductive Remaps : Parser → Parser → Prop
  | literal (text : String) : Remaps (.literal text) (.literal text)
  | pattern (regex : Pattern) : Remaps (.pattern regex) (.pattern regex)
  | pure : Remaps .pure .pure
  | finish : Remaps .finish .finish
  | many {item item' : Parser} (inner : Remaps item item') : Remaps (.many item) (.many item')
  | sequence {items items' : List Parser} (each : RemapsAll items items') :
    Remaps (.sequence items) (.sequence items')
  | alternate {items items' : List Parser} (each : RemapsAll items items') :
    Remaps (.alternate items) (.alternate items')
  | capture {item item' : Parser} (inner : Remaps item item') :
    Remaps (.capture item) (.capture item')
  | map {item item' : Parser} {change change' : Value → Except Fault Value}
    (inner : Remaps item item') (total : IsTotal change) (total' : IsTotal change') :
    Remaps (.map item change) (.map item' change')
  | rule (name : String) : Remaps (.rule name) (.rule name)
  | function (name : String) (run : Function) :
    Remaps (.function name run) (.function name run)

/-- The same for each of several parsers. -/
inductive RemapsAll : List Parser → List Parser → Prop
  | nil : RemapsAll [] []
  | cons {item item' : Parser} {items items' : List Parser} (first : Remaps item item')
    (rest : RemapsAll items items') : RemapsAll (item :: items) (item' :: items')

end

mutual

theorem Remaps.symm {parser parser' : Parser} (h : Remaps parser parser') :
    Remaps parser' parser := by
  cases h with
  | literal text => exact .literal text
  | pattern regex => exact .pattern regex
  | pure => exact .pure
  | finish => exact .finish
  | many inner => exact .many inner.symm
  | sequence each => exact .sequence each.symm
  | alternate each => exact .alternate each.symm
  | capture inner => exact .capture inner.symm
  | map inner total total' => exact .map inner.symm total' total
  | rule name => exact .rule name
  | function name run => exact .function name run

theorem RemapsAll.symm {items items' : List Parser} (h : RemapsAll items items') :
    RemapsAll items' items := by
  cases h with
  | nil => exact .nil
  | cons first rest => exact .cons first.symm rest.symm

end

mutual

/-- Changes of values do not show in names. -/
theorem Remaps.name_eq {parser parser' : Parser} (h : Remaps parser parser') :
    parser.name = parser'.name := by
  cases h with
  | literal _ | pattern _ | pure | finish | rule _ | function _ _ => rfl
  | many inner => rw [name, name, inner.name_eq]
  | sequence each | alternate each => rw [name, name, each.names_eq]
  | capture inner | map inner _ _ => rw [name, name, inner.name_eq]

theorem RemapsAll.names_eq {items items' : List Parser} (h : RemapsAll items items') :
    names items = names items' := by
  cases h with
  | nil => rfl
  | cons first rest => rw [names, names, first.name_eq, rest.names_eq]

end

theorem Remaps.seqAll {items items' : List Parser} (each : List.Forall₂ Remaps items items') :
    Remaps (seqAll items) (seqAll items') :=
  related_seqAll .pure (fun first second => .sequence (.cons first (.cons second .nil)))
    (fun _ inner => .map inner (fun _ => ⟨_, rfl⟩) fun _ => ⟨_, rfl⟩) each

theorem Remaps.altAll {items items' : List Parser} (each : List.Forall₂ Remaps items items') :
    Remaps (altAll items) (altAll items') :=
  related_altAll (.alternate .nil)
    (fun first second => .alternate (.cons first (.cons second .nil))) each

end Parser

/-- Replies that are the same but for their values. -/
def Likeness.exceptValues : Likeness where
  values _ _ := True
  failures := Eq
  faults := Eq
  calls := Eq
  values_refl _ := trivial
  failures_refl _ := rfl
  faults_refl _ := rfl
  calls_zero := rfl
  calls_add h h' := by rw [h, h']
  list _ := trivial
  spanned _ _ := trivial

open Likeness (exceptValues)

/-- Whatever two changes make of values, it is the same but for the values. -/
theorem exceptValues_keeps {change change' : Value → Except Fault Value} (total : IsTotal change)
    (total' : IsTotal change') : exceptValues.Keeps change change' := by
  intro value value' start stop _
  obtain ⟨changed, result⟩ := total value
  obtain ⟨changed', result'⟩ := total' value'
  simp only [Outcome.map, result, result']
  exact .success trivial

namespace Parser

section Follows

variable {follow follow' : String → Step Value} {input : String}

mutual

/-- Parsers that are the same but for their changes of values run alike if the rules do. -/
theorem Remaps.follows {parser parser' : Parser} (h : Remaps parser parser')
    (references : ∀ name, Step.Follows exceptValues exceptValues.values (follow name)
      (follow' name)) :
    Step.Follows exceptValues exceptValues.values (parser.step follow input)
      (parser'.step follow' input) := by
  cases h with
  | literal text => exact follows_done _ _
  | pattern regex => exact follows_done _ _
  | pure => exact follows_done _ _
  | finish => exact follows_done _ _
  | function name run => exact follows_done _ _
  | many inner =>
    -- The words of a repetition that breaks down are those of its name.
    refine follows_many (fun start => ?_) (inner.follows references)
    rw [inner.name_eq]
    exact rfl
  | sequence each => exact follows_sequence (each.follow references)
  | alternate each =>
    refine follows_alternate (fun start => ?_) (each.follow references)
    rw [(Remaps.alternate each).name_eq]
    exact rfl
  | capture inner => exact follows_capture (inner.follows references)
  | map inner total total' =>
    exact follows_map (exceptValues_keeps total total') (inner.follows references)
  | rule name => exact references name

/-- The same for each of several parsers. -/
theorem RemapsAll.follow {items items' : List Parser} (h : RemapsAll items items')
    (references : ∀ name, Step.Follows exceptValues exceptValues.values (follow name)
      (follow' name)) :
    List.Forall₂ (Step.Follows exceptValues exceptValues.values) (steps follow input items)
      (steps follow' input items') := by
  cases h with
  | nil => exact .nil
  | cons first rest => exact .cons (first.follows references) (rest.follow references)

end

end Follows

end Parser

section Runs

variable {rules rules' : Rules} {input : String} {parser parser' : Parser}

/-- Rules that are the same but for their changes of values run alike, by induction on
how the replies of the first ones arise. -/
theorem Rules.Related.follows_remapped (h : Rules.Related Parser.Remaps rules rules')
    (name : String) :
    Step.Follows exceptValues exceptValues.values (rules.step input name)
      (rules'.step input name) := by
  refine Rules.step.partial_correctness rules input
    (fun name start reply => ∃ reply', rules'.step input name start = some reply' ∧
      reply.Alike exceptValues exceptValues.values reply') ?_ name
  intro follow ih name start reply replied
  obtain ⟨parser, found, inner⟩ := Option.bind_eq_some_iff.1 replied
  obtain ⟨reply, run, rfl⟩ := Option.map_eq_some_iff.1 inner
  obtain ⟨parser', found', same⟩ := h.exists_parser? found
  obtain ⟨reply', run', alike⟩ := same.follows ih start reply run
  -- Both tables count the one reference that led here.
  refine ⟨reply'.after 1, ?_, alike.after rfl⟩
  rw [Rules.step, found', Option.bind_some, run']
  rfl

/-- A reply without its value. -/
def Reply.withoutValue {α : Type} (reply : Reply α) : Reply Unit :=
  reply.map fun _ => .ok ()

theorem Reply.Alike.withoutValue_eq {reply reply' : Reply Value}
    (h : reply.Alike exceptValues exceptValues.values reply') :
    reply.withoutValue = reply'.withoutValue := by
  obtain ⟨outcome, calls⟩ := reply
  obtain ⟨outcome', calls'⟩ := reply'
  obtain ⟨alike, rfl⟩ := h
  cases alike with
  | success _ => rfl
  | failure same => rw [same]
  | fault same => rw [same]

/-- A run that ends, does so in the same way after a change of all changes of values. -/
theorem withoutValue_of_remaps (h : parser.Remaps parser')
    (table : Rules.Related Parser.Remaps rules rules') {start : Nat} {reply : Reply Value}
    (ends : parser.runAt rules input start = some reply) :
    (parser'.runAt rules' input start).map Reply.withoutValue = some reply.withoutValue := by
  obtain ⟨reply', ends', alike⟩ := h.follows table.follows_remapped start reply ends
  rw [Parser.runAt, ends', Option.map_some, alike.withoutValue_eq]

/-- **Values never steer a run.** Two grammars that differ in nothing but the
functions that change values, none of which breaks down, run in the same way
everywhere: both runs end or neither does, with the same name, the same success,
failure or fault, the same range, the same words and the same number of references
that were followed. -/
theorem runAt_remapped (h : parser.Remaps parser')
    (table : Rules.Related Parser.Remaps rules rules') (input : String) (start : Nat) :
    parser.name = parser'.name ∧
      (parser.runAt rules input start).map Reply.withoutValue =
        (parser'.runAt rules' input start).map Reply.withoutValue := by
  refine ⟨h.name_eq, ?_⟩
  cases ends : parser.runAt rules input start with
  | some reply => exact (withoutValue_of_remaps h table ends).symm
  | none =>
    cases ends' : parser'.runAt rules' input start with
    | none => rfl
    | some reply' =>
      -- The other way round, the first run would have ended as well.
      have back := withoutValue_of_remaps h.symm (table.flip.imp fun _ _ same =>
        ⟨same.1, same.2.symm⟩) ends'
      rw [ends] at back
      cases back

end Runs

/-- A letter with its value changed. -/
def letterRules (transform : Transform) : Rules :=
  [("letter", .map (.literal "a") transform.apply)]

/-- The letter under a tag and its length are both dropped for the same failure
behind it. -/
theorem runAt_remapped_letter :
    (Parser.seqAll [.rule "letter", .finish]).Remaps (.seqAll [.rule "letter", .finish]) ∧
    Rules.Related Parser.Remaps (letterRules (.tag "A")) (letterRules .length) ∧
    ((Parser.seqAll [.rule "letter", .finish]).runAt (letterRules .length) "ab" 0).map
        Reply.withoutValue = some ⟨.failure ⟨"Expected end of input", 1⟩, 1⟩ := by
  have whole : (Parser.seqAll [.rule "letter", .finish]).Remaps
      (.seqAll [.rule "letter", .finish]) :=
    .seqAll (.cons (.rule "letter") (.cons .finish .nil))
  have table : Rules.Related Parser.Remaps (letterRules (.tag "A")) (letterRules .length) :=
    .cons ⟨rfl, .map (.literal "a") (Transform.isTotal_apply nofun)
      (Transform.isTotal_apply nofun)⟩ .nil
  refine ⟨whole, table, ?_⟩
  rw [← (runAt_remapped whole table "ab" 0).2]
  have letter : (Parser.rule "letter").runAt (letterRules (.tag "A")) "ab" 0 =
      some ⟨.success ⟨.tagged "A" (.text "a"), 0, 1⟩, 1⟩ := by
    rw [Parser.runAt_rule]
    rfl
  rw [Parser.runAt_seqAll_pair, Parser.runAt_sequence, Step.inOrder, List.map_cons,
    Step.row_cons_success letter]
  rfl

end Peg
