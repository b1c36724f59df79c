import Peg.Parser.Basic
import Peg.Parser.Step

/-!
# Running a parser

A parser is run on an input from a position. The run is a step that is put
together along the tree of the parser; a reference takes the step of its rule.

## Main definitions

* `Parser.step`: the step of a parser, given those of the rules.
* `Rules.step`: the step of a rule, as the least solution of what the rules say
  about each other.
* `Parser.runAt`: the reply of a parser.

## Main results

* `Parser.step_extends`: a parser replies at more positions if the rules do.
-/

namespace Peg

/-- The outcome of matching a text at a position, which has to fall between characters. -/
def literalOutcome (text input : String) (position : Nat) : Outcome Value :=
  match Text.dropBytes? input.toList position with
  | some rest =>
    if text.toList.isPrefixOf rest then
      .success ⟨.text text, position, position + text.utf8ByteSize⟩
    else .failure (.expected text position)
  | none => .failure (.expected text position)

/-- The outcome of matching a pattern at a position. -/
def patternOutcome (pattern : Pattern) (input : String) (position : Nat) : Outcome Value :=
  match pattern.matchEnd? input.toList position with
  | some stop =>
    match Text.slice? input.toList position stop with
    | some found => .success ⟨.text (String.ofList found), position, stop⟩
    | none => .fault .notASlice
  | none => .failure ⟨"Expected regexp: " ++ pattern.expr, position⟩

/-- The outcome of asking for the end of the input. -/
def finishOutcome (input : String) (position : Nat) : Outcome Value :=
  if position = input.utf8ByteSize then .success ⟨.unit, position, position⟩
  else .failure ⟨"Expected end of input", position⟩

/-- The outcome with the span that was read added to the value. A span is asserted to be
in order and to lie within the input. -/
def captureOutcome (input : String) : Outcome Value → Outcome Value
  | .success ⟨value, start, stop⟩ =>
    if start ≤ stop ∧ stop ≤ input.utf8ByteSize then
      .success ⟨.spanned value ⟨input, start, stop⟩, start, stop⟩
    else .fault .spanOutOfRange
  | other => other

/-- The reply with the values of a success in one value. -/
def Reply.listed (reply : Reply (List Value)) : Reply Value :=
  reply.map fun values => .ok (.list values)

@[simp]
theorem Reply.listed_success (values : List Value) (start stop calls : Nat) :
    (⟨.success ⟨values, start, stop⟩, calls⟩ : Reply (List Value)).listed =
      ⟨.success ⟨.list values, start, stop⟩, calls⟩ :=
  rfl

@[simp]
theorem Reply.listed_failure (reason : Failure) (calls : Nat) :
    (⟨.failure reason, calls⟩ : Reply (List Value)).listed = ⟨.failure reason, calls⟩ :=
  rfl

@[simp]
theorem Reply.listed_fault (cause : Fault) (calls : Nat) :
    (⟨.fault cause, calls⟩ : Reply (List Value)).listed = ⟨.fault cause, calls⟩ :=
  rfl

section Outcomes

variable {input text : String} {pattern : Pattern} {position : Nat}

/-- A text is matched where the input goes on with it. -/
theorem literalOutcome_of_append {before after : List Char}
    (cut : input.toList = before ++ text.toList ++ after) (bytes : Text.size before = position) :
    literalOutcome text input position =
      .success ⟨.text text, position, position + text.utf8ByteSize⟩ := by
  have rest : Text.dropBytes? input.toList position = some (text.toList ++ after) :=
    Text.dropBytes?_eq_some_iff.2 ⟨before, by rw [cut, List.append_assoc], bytes⟩
  simp [literalOutcome, rest]

/-- A text is expected where the input does not go on with it. -/
theorem literalOutcome_of_ne
    (h : ∀ before after, input.toList = before ++ text.toList ++ after →
      Text.size before ≠ position) :
    literalOutcome text input position = .failure (.expected text position) := by
  unfold literalOutcome
  split
  · next rest cut =>
    obtain ⟨before, whole, bytes⟩ := Text.dropBytes?_eq_some_iff.1 cut
    refine if_neg fun found => ?_
    obtain ⟨after, rfl⟩ := List.isPrefixOf_iff_prefix.1 found
    exact h before after (by rw [whole, List.append_assoc]) bytes
  · rfl

/-- A pattern takes the characters up to where its match ends. -/
theorem patternOutcome_of_matchEnd? {before found after : List Char}
    (cut : input.toList = before ++ found ++ after) (bytes : Text.size before = position)
    (h : pattern.program.matchEnd? before (found ++ after) position =
      some (position + Text.size found)) :
    patternOutcome pattern input position =
      .success ⟨.text (String.ofList found), position, position + Text.size found⟩ := by
  have stop : pattern.matchEnd? input.toList position = some (position + Text.size found) :=
    Pattern.matchEnd?_eq_some_iff.2
      ⟨before, found ++ after, by rw [cut, List.append_assoc], bytes, h⟩
  have slice : Text.slice? input.toList position (position + Text.size found) = some found :=
    Text.slice?_eq_some_iff.2 ⟨before, after, cut, bytes, rfl⟩
  simp [patternOutcome, stop, slice]

/-- A pattern is expected where no match begins. -/
theorem patternOutcome_of_eq_none
    (h : ∀ before after, input.toList = before ++ after → Text.size before = position →
      pattern.program.matchEnd? before after position = none) :
    patternOutcome pattern input position =
      .failure ⟨"Expected regexp: " ++ pattern.expr, position⟩ := by
  have stop : pattern.matchEnd? input.toList position = none := by
    rw [Option.eq_none_iff_forall_ne_some]
    intro stop found
    obtain ⟨before, after, cut, bytes, ends⟩ := Pattern.matchEnd?_eq_some_iff.1 found
    rw [h before after cut bytes] at ends
    cases ends
  simp [patternOutcome, stop]

end Outcomes

namespace Parser

mutual

/-- What a parser does on an input, given what the rules do. -/
def step (rules : String → Step Value) (input : String) : Parser → Step Value
  | .literal text => fun position => Step.done (literalOutcome text input position)
  | .pattern regex => fun position => Step.done (patternOutcome regex input position)
  | .pure => fun position => Step.done (.success ⟨.unit, position, position⟩)
  | .finish => fun position => Step.done (finishOutcome input position)
  | .many item => fun position =>
    (Step.iterate item.name (item.name ++ "*") (step rules input item) position).map Reply.listed
  | .sequence items => fun position =>
    (Step.inOrder (steps rules input items) position).map Reply.listed
  | .alternate items =>
    Step.firstOf ("|".intercalate (names items)) (steps rules input items)
  | .capture item => fun position =>
    (step rules input item position).map
      fun reply => { reply with outcome := captureOutcome input reply.outcome }
  | .map item change => fun position =>
    (step rules input item position).map fun reply => reply.map change
  | .rule name => rules name
  | .function _ run => fun position => Step.done (run input position)

/-- What several parsers do. -/
def steps (rules : String → Step Value) (input : String) : List Parser → List (Step Value)
  | [] => []
  | item :: items => step rules input item :: steps rules input items

end

theorem steps_eq_map (rules : String → Step Value) (input : String) (items : List Parser) :
    steps rules input items = items.map (step rules input) := by
  induction items with
  | nil => rfl
  | cons item items ih => simp [steps, ih]

section Extends

variable {larger smaller : String → Step Value} {input : String}

mutual

/-- Rules that reply at more positions make a parser reply at more positions. -/
theorem step_extends (h : ∀ name, (larger name).Extends (smaller name)) (parser : Parser) :
    (step larger input parser).Extends (step smaller input parser) := by
  intro start reply replied
  match parser with
  | .literal _ | .pattern _ | .pure | .finish | .function _ _ => exact replied
  | .many item =>
    obtain ⟨tail, rounds, rfl⟩ := Option.map_eq_some_iff.1 replied
    exact Option.map_eq_some_iff.2
      ⟨tail, Step.iterate_extends (step_extends h item) _ _ rounds, rfl⟩
  | .sequence items =>
    obtain ⟨tail, all, rfl⟩ := Option.map_eq_some_iff.1 replied
    rw [steps_eq_map] at all
    refine Option.map_eq_some_iff.2 ⟨tail, ?_, rfl⟩
    rw [steps_eq_map]
    exact Step.inOrder_extends (steps_extend h items) _ _ all
  | .alternate items =>
    simp only [step, steps_eq_map] at replied ⊢
    exact Step.firstOf_extends (steps_extend h items) _ _ replied
  | .capture item | .map item _ =>
    obtain ⟨inner, run, rfl⟩ := Option.map_eq_some_iff.1 replied
    exact Option.map_eq_some_iff.2 ⟨inner, step_extends h item _ _ run, rfl⟩
  | .rule name => exact h name _ _ replied

/-- The same for each of several parsers. -/
theorem steps_extend (h : ∀ name, (larger name).Extends (smaller name)) (items : List Parser) :
    ∀ item ∈ items, (step larger input item).Extends (step smaller input item) := by
  match items with
  | [] => simp
  | item :: items =>
    exact List.forall_mem_cons.2 ⟨step_extends h item, steps_extend h items⟩

end

end Extends

end Parser

/-- What a rule does on an input: what its parser does, with one more reference
followed. A rule that leads back to itself for ever gives no reply. -/
def Rules.step (rules : Rules) (input : String) (name : String) (position : Nat) :
    Option (Reply Value) :=
  (rules.parser? name).bind fun parser =>
    (parser.step (rules |>.step input) input position).map (Reply.after 1)
partial_fixpoint monotonicity by
  intro smaller larger below name position
  have grows : ∀ name, Step.Extends (larger name) (smaller name) := by
    intro name start reply replied
    have order := below name start
    rw [replied] at order
    generalize larger name start = other at order ⊢
    cases order
    rfl
  dsimp only
  cases rules.parser? name with
  | none => exact .bot
  | some parser =>
    simp only [Option.bind_some]
    cases replied : parser.step smaller input position with
    | none => exact .bot
    | some reply =>
      rw [parser.step_extends grows _ _ replied]
      exact .refl

namespace Parser

/-- The reply of a parser at a position of an input, if the run ends. -/
def runAt (rules : Rules) (parser : Parser) (input : String) (position : Nat) :
    Option (Reply Value) :=
  parser.step (rules.step input) input position

variable {rules : Rules} {input : String} {start : Nat}

/-! ### Runs of each kind of parser -/

theorem runAt_literal (text : String) :
    (Parser.literal text).runAt rules input start = some ⟨literalOutcome text input start, 0⟩ :=
  rfl

theorem runAt_pattern (regex : Pattern) :
    (Parser.pattern regex).runAt rules input start = some ⟨patternOutcome regex input start, 0⟩ :=
  rfl

theorem runAt_finish :
    Parser.finish.runAt rules input start = some ⟨finishOutcome input start, 0⟩ :=
  rfl

theorem runAt_sequence (items : List Parser) :
    (Parser.sequence items).runAt rules input start =
      (Step.inOrder (items.map fun item => item.runAt rules input) start).map Reply.listed := by
  rw [runAt, step, steps_eq_map]
  rfl

theorem runAt_alternate (items : List Parser) :
    (Parser.alternate items).runAt rules input start =
      Step.firstOf (Parser.alternate items).name
        (items.map fun item => item.runAt rules input) start := by
  rw [runAt, step, steps_eq_map]
  rfl

theorem runAt_many (item : Parser) :
    (Parser.many item).runAt rules input start =
      (Step.iterate item.name (Parser.many item).name (item.runAt rules input) start).map
        Reply.listed := by
  rw [runAt, step]
  rfl

theorem runAt_capture (item : Parser) :
    (Parser.capture item).runAt rules input start =
      (item.runAt rules input start).map
        fun reply => { reply with outcome := captureOutcome input reply.outcome } := by
  rw [runAt, step]
  rfl

theorem runAt_map (item : Parser) (change : Value → Except Fault Value) :
    (Parser.map item change).runAt rules input start =
      (item.runAt rules input start).map fun reply => reply.map change := by
  rw [runAt, step]
  rfl

theorem runAt_rule (name : String) :
    (Parser.rule name).runAt rules input start =
      (rules.parser? name).bind fun parser =>
        (parser.runAt rules input start).map (Reply.after 1) := by
  rw [runAt, step, Rules.step]
  rfl

end Parser

end Peg
