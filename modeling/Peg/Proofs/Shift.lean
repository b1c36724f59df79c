import Peg.Proofs.Balanced
import Peg.Proofs.Derivation
import Peg.Proofs.Parts
import Peg.Proofs.Verbatim
import Peg.Proofs.Regex.LookFree
import Peg.Transform

/-!
# Text in front

What a parser does depends on the text that follows alone. With more text in
front it does the same further on: every position grows by the size of that text,
and nothing else changes. The parser must have no way to ask where it stands, be
it by a function, an anchor in a pattern, or a mapped function that reads a span.

## Main definitions

* `Value.mapSpans`: a value with every span inside it changed.
* `IgnoresSpans`: a mapped function to which spans are opaque.
* `Parser.IsMovable`, `Rules.AreMovable`: parsers that cannot ask where they stand.
* `Span.shift`, `Outcome.shift`, `Reply.shift`: the same with text in front.

## Main results

* `Transform.ignoresSpans`: the named functions that read no span ignore them.
* `Parser.isMovable_seqAll`, `Parser.isMovable_altAll`: sequences and choices of any
  number of movable parsers are movable.
* `Derives.moves`: what is derived behind one text is derived behind every text.
* `runAt_shift`: the same for runs.
-/

namespace Peg

/-! ### Functions that ignore spans -/

namespace Value

mutual

/-- A value with every span inside it changed. -/
def mapSpans (move : Span → Span) : Value → Value
  | .unit => .unit
  | .number n => .number n
  | .text s => .text s
  | .list elements => .list (mapSpansAll move elements)
  | .tagged tag value => .tagged tag (value.mapSpans move)
  | .spanned value span => .spanned (value.mapSpans move) (move span)

/-- Several values with every span inside them changed. -/
def mapSpansAll (move : Span → Span) : List Value → List Value
  | [] => []
  | value :: values => value.mapSpans move :: mapSpansAll move values

end

variable {move : Span → Span}

theorem mapSpansAll_eq_map (values : List Value) :
    mapSpansAll move values = values.map (mapSpans move) := by
  induction values with
  | nil => rfl
  | cons value values ih => rw [mapSpansAll, ih, List.map_cons]

mutual

@[simp]
theorem join_mapSpans (value : Value) : (value.mapSpans move).join = value.join := by
  match value with
  | .unit | .number _ | .text _ => rfl
  | .list elements => exact joinAll_mapSpans elements
  | .tagged _ value | .spanned value _ => exact join_mapSpans value

@[simp]
theorem joinAll_mapSpans (values : List Value) :
    joinAll (mapSpansAll move values) = joinAll values := by
  match values with
  | [] => rfl
  | value :: values =>
    rw [mapSpansAll, joinAll, join_mapSpans value, joinAll_mapSpans values, joinAll]

end

mutual

@[simp]
theorem sum_mapSpans (value : Value) : (value.mapSpans move).sum = value.sum := by
  match value with
  | .unit | .number _ | .text _ => rfl
  | .list elements => exact sumAll_mapSpans elements
  | .tagged _ value | .spanned value _ => exact sum_mapSpans value

@[simp]
theorem sumAll_mapSpans (values : List Value) :
    sumAll (mapSpansAll move values) = sumAll values := by
  match values with
  | [] => rfl
  | value :: values => rw [mapSpansAll, sumAll, sum_mapSpans value, sumAll_mapSpans values, sumAll]

end

/-- A value is a list of values exactly if it is one with its spans changed. -/
theorem eq_list_of_mapSpans {value : Value} {values : List Value}
    (h : value.mapSpans move = .list values) :
    ∃ elements, value = .list elements ∧ values = mapSpansAll move elements := by
  cases value with
  | list elements => exact ⟨elements, rfl, (list.inj h).symm⟩
  | unit | number _ | text _ | tagged _ _ | spanned _ _ => cases h

/-- Values are taken out of a tree without a look at the spans. -/
theorem leaves_mapSpans (count : Nat) (value : Value) :
    Parser.leaves count (value.mapSpans move) = mapSpansAll move (Parser.leaves count value) := by
  fun_induction Parser.leaves count value with
  | case1 count value small =>
    rw [Parser.leaves.eq_def, if_pos small]
    rfl
  | case2 count large first second ihFirst ihSecond =>
    rw [Parser.leaves.eq_def, if_neg large]
    simp only [mapSpans, mapSpansAll, ihFirst, ihSecond]
    simp only [mapSpansAll_eq_map, List.map_append]
  | case3 count large value other =>
    rw [Parser.leaves.eq_def, if_neg large]
    cases value with
    | list elements =>
      rcases elements with _ | ⟨first, _ | ⟨second, _ | ⟨third, rest⟩⟩⟩
      · rfl
      · rfl
      · exact absurd rfl (other first second)
      · rfl
    | _ => rfl

mutual

/-- Spans that stay as they are leave the value as it is. -/
theorem mapSpans_of_forall (h : ∀ span, move span = span) (value : Value) :
    value.mapSpans move = value := by
  match value with
  | .unit | .number _ | .text _ => rfl
  | .list elements => rw [mapSpans, mapSpansAll_of_forall h elements]
  | .tagged _ value => rw [mapSpans, mapSpans_of_forall h value]
  | .spanned value span => rw [mapSpans, mapSpans_of_forall h value, h span]

/-- Spans that stay as they are leave several values as they are. -/
theorem mapSpansAll_of_forall (h : ∀ span, move span = span) (values : List Value) :
    mapSpansAll move values = values := by
  match values with
  | [] => rfl
  | value :: values => rw [mapSpansAll, mapSpans_of_forall h value, mapSpansAll_of_forall h values]

end

end Value

/-- A mapped function that has a value for every value, and to which spans are
opaque: it may keep, drop or repeat them, but what it gives does not depend on
what they are. -/
def IgnoresSpans (change : Value → Except Fault Value) : Prop :=
  ∀ value, ∃ changed, change value = .ok changed ∧
    ∀ move, change (value.mapSpans move) = .ok (changed.mapSpans move)

theorem ignoresSpans_leaves (count : Nat) :
    IgnoresSpans fun value => .ok (.list (Parser.leaves count value)) := by
  intro value
  refine ⟨_, rfl, fun move => ?_⟩
  exact congrArg (fun values => Except.ok (Value.list values)) (Value.leaves_mapSpans count value)

/-- The named functions that read no span, and put none into a value. -/
def Transform.IsBlind : Transform → Prop
  | .spanText | .spanStart | .spanSource => False
  | .constant value => ∀ move, value.mapSpans move = value
  | _ => True

/-- The named functions that read no span ignore spans. -/
theorem Transform.ignoresSpans {transform : Transform} (blind : transform.IsBlind) :
    IgnoresSpans transform.apply := by
  intro value
  cases transform with
  | identity => exact ⟨value, rfl, fun _ => rfl⟩
  | constant result => exact ⟨result, rfl, fun move => congrArg Except.ok (blind move).symm⟩
  | length =>
    cases value with
    | list elements =>
      refine ⟨_, rfl, fun move => ?_⟩
      simp [Value.mapSpans, Value.mapSpansAll_eq_map, Transform.apply]
    | _ => exact ⟨_, rfl, fun _ => rfl⟩
  | uppercase => cases value <;> exact ⟨_, rfl, fun _ => rfl⟩
  | uint32 => cases value <;> exact ⟨_, rfl, fun _ => rfl⟩
  | increment => cases value <;> exact ⟨_, rfl, fun _ => rfl⟩
  | pick index =>
    cases value with
    | list elements =>
      refine ⟨_, rfl, fun move => ?_⟩
      simp only [Value.mapSpans, Value.mapSpansAll_eq_map, Transform.apply, List.getElem?_map]
      cases elements[index]? <;> rfl
    | _ => exact ⟨_, rfl, fun _ => rfl⟩
  | join => exact ⟨_, rfl, fun move => by simp [Transform.apply, Value.mapSpans]⟩
  | sum => exact ⟨_, rfl, fun move => by simp [Transform.apply, Value.mapSpans]⟩
  | digits =>
    cases value with
    | list elements =>
      refine ⟨_, rfl, fun move => ?_⟩
      simp [Value.mapSpans, Value.mapSpansAll_eq_map, Transform.apply, List.foldl_map]
    | _ => exact ⟨_, rfl, fun _ => rfl⟩
  | tag name => exact ⟨_, rfl, fun _ => rfl⟩
  | spanText | spanStart | spanSource => exact absurd blind id

/-! ### Parsers that cannot ask where they stand -/

/-- A pattern of an expression that is written without anchors. -/
def Pattern.IsAnchorFree (regex : Pattern) : Prop :=
  Pattern.compile regex.expr = .ok regex ∧
    ∃ tree, Regex.Syntax.parse? regex.expr = some tree ∧ tree.IsAnchorFree

theorem Pattern.IsAnchorFree.isLookFree {regex : Pattern} (h : regex.IsAnchorFree) :
    regex.program.IsLookFree := by
  obtain ⟨compiled, tree, read, free⟩ := h
  unfold compile Regex.Expr.parse? at compiled
  simp only [read, Option.bind_eq_bind, Option.bind_some] at compiled
  cases normal : Regex.Switches.default.expr? tree with
  | none =>
    rw [normal] at compiled
    cases compiled
  | some result =>
    obtain ⟨expr, after⟩ := result
    rw [normal] at compiled
    rw [← Except.ok.inj compiled]
    exact Regex.Expr.isLookFree_ofExpr (Regex.Switches.isLookFree_expr? free normal)

namespace Parser

/-- A primitive parser of the library whose pattern names no place, or a mapped
function that ignores spans. -/
def IsMovablePart : Parser → Prop
  | .function _ _ => False
  | .pattern regex => regex.IsAnchorFree
  | .map _ change => IgnoresSpans change
  | _ => True

/-- A parser that cannot ask where it stands. -/
def IsMovable (parser : Parser) : Prop :=
  parser.Every IsMovablePart

theorem isMovable_seqAll {items : List Parser} (h : ∀ item ∈ items, item.IsMovable) :
    (seqAll items).IsMovable :=
  every_seqAll trivial (fun _ count => ignoresSpans_leaves count) h

theorem isMovable_altAll {items : List Parser} (h : ∀ item ∈ items, item.IsMovable) :
    (altAll items).IsMovable :=
  every_altAll h

end Parser

/-- The parser of every rule is movable. -/
def Rules.AreMovable (rules : Rules) : Prop :=
  ∀ name parser, rules.parser? name = some parser → parser.IsMovable

/-! ### The same with text in front -/

/-- A span of a text, in that text with `front` before it. -/
def Span.shift (front : String) (span : Span) : Span :=
  ⟨front ++ span.source, front.utf8ByteSize + span.start, front.utf8ByteSize + span.stop⟩

/-- A fault behind `front`: a repetition stands still further on. -/
def Fault.shift (front : String) : Fault → Fault
  | .emptyRepetition item repetition position =>
    .emptyRepetition item repetition (front.utf8ByteSize + position)
  | .reversedRange => .reversedRange
  | .spanOutOfRange => .spanOutOfRange
  | .notASlice => .notASlice

/-- An outcome behind `front`: all positions are further on, those in spans included. -/
def Outcome.shift (front : String) : Outcome Value → Outcome Value
  | .success ⟨value, start, stop⟩ =>
    .success ⟨value.mapSpans (Span.shift front), front.utf8ByteSize + start,
      front.utf8ByteSize + stop⟩
  | .failure ⟨message, position⟩ => .failure ⟨message, front.utf8ByteSize + position⟩
  | .fault cause => .fault (cause.shift front)

/-- A reply behind `front`: as many references are followed. -/
def Reply.shift (front : String) (reply : Reply Value) : Reply Value :=
  ⟨reply.outcome.shift front, reply.calls⟩

@[simp]
theorem Span.shift_empty (span : Span) : Span.shift "" span = span := by
  simp [Span.shift]

@[simp]
theorem Outcome.shift_empty (outcome : Outcome Value) : outcome.shift "" = outcome := by
  match outcome with
  | .success ⟨value, start, stop⟩ =>
    simp [shift, Value.mapSpans_of_forall Span.shift_empty]
  | .failure ⟨message, position⟩ => simp [shift]
  | .fault (.emptyRepetition _ _ _) => simp [shift, Fault.shift]
  | .fault .reversedRange | .fault .spanOutOfRange | .fault .notASlice => rfl

section Primitive

variable (front rest : String) (start : Nat)

theorem literalOutcome_shift (text : String) :
    literalOutcome text (front ++ rest) (front.utf8ByteSize + start) =
      (literalOutcome text rest start).shift front := by
  unfold literalOutcome
  rw [String.toList_append, ← Text.size_toList front, Text.dropBytes?_append]
  split
  · split
    · simp [Outcome.shift, Value.mapSpans, Nat.add_assoc]
    · simp [Outcome.shift, Failure.expected]
  · simp [Outcome.shift, Failure.expected]

theorem matchEnd?_shift {regex : Pattern} (free : regex.program.IsLookFree) :
    regex.matchEnd? (front ++ rest).toList (front.utf8ByteSize + start) =
      (regex.matchEnd? rest.toList start).map (front.utf8ByteSize + ·) := by
  unfold Pattern.matchEnd?
  rw [String.toList_append, ← Text.size_toList front, Text.splitAt?_append]
  cases Text.splitAt? rest.toList start with
  | none => rfl
  | some parts => exact free.matchEnd?_eq _ _ _ _ _

theorem patternOutcome_shift {regex : Pattern} (free : regex.program.IsLookFree) :
    patternOutcome regex (front ++ rest) (front.utf8ByteSize + start) =
      (patternOutcome regex rest start).shift front := by
  unfold patternOutcome
  rw [matchEnd?_shift front rest start free]
  cases regex.matchEnd? rest.toList start with
  | none => rfl
  | some stop =>
    simp only [Option.map_some]
    rw [String.toList_append, ← Text.size_toList front, Text.slice?_append_left, Text.size_toList]
    cases Text.slice? rest.toList start stop <;> rfl

theorem finishOutcome_shift :
    finishOutcome (front ++ rest) (front.utf8ByteSize + start) =
      (finishOutcome rest start).shift front := by
  unfold finishOutcome
  rw [String.utf8ByteSize_append]
  simp only [Nat.add_left_cancel_iff]
  split <;> rfl

end Primitive

/-! ### Runs with text in front -/

namespace Outcome

variable {front : String} {outcome : Outcome Value}

theorem eq_success_of_shift {result : Success Value}
    (h : .success result = outcome.shift front) :
    ∃ value start stop, outcome = .success ⟨value, start, stop⟩ ∧
      result = ⟨value.mapSpans (Span.shift front), front.utf8ByteSize + start,
        front.utf8ByteSize + stop⟩ := by
  cases outcome with
  | success inner => exact ⟨_, _, _, rfl, success.inj h⟩
  | failure reason => cases h
  | fault cause => cases h

theorem eq_list_of_shift {values : List Value} {origin stop : Nat}
    (h : .success ⟨.list values, origin, stop⟩ = outcome.shift front) :
    ∃ elements origin' stop', outcome = .success ⟨.list elements, origin', stop'⟩ ∧
      values = Value.mapSpansAll (Span.shift front) elements ∧
      stop = front.utf8ByteSize + stop' := by
  obtain ⟨value, origin', stop', rfl, same⟩ := eq_success_of_shift h
  obtain ⟨listed, -, rfl⟩ := Success.mk.inj same
  obtain ⟨elements, rfl, rfl⟩ := Value.eq_list_of_mapSpans listed.symm
  exact ⟨elements, origin', stop', rfl, rfl, rfl⟩

theorem exists_failure_of_shift {reason : Failure}
    (h : .failure reason = outcome.shift front) : ∃ inner, outcome = .failure inner := by
  cases outcome with
  | success inner => cases h
  | failure inner => exact ⟨inner, rfl⟩
  | fault cause => cases h

theorem exists_fault_of_shift {cause : Fault}
    (h : .fault cause = outcome.shift front) : ∃ inner, outcome = .fault inner := by
  cases outcome with
  | success inner => cases h
  | failure inner => cases h
  | fault inner => exact ⟨inner, rfl⟩

@[simp]
theorem isSuccess_shift : (outcome.shift front).IsSuccess ↔ outcome.IsSuccess := by
  cases outcome <;> exact Iff.rfl

@[simp]
theorem isFailure_shift : (outcome.shift front).IsFailure ↔ outcome.IsFailure := by
  cases outcome <;> exact Iff.rfl

end Outcome

section Runs

variable {rules : Rules} {front rest : String} {parser : Parser} {position start calls : Nat}
  {outcome : Outcome Value}

/-- An outcome behind `front` is that of a run on the rest alone, moved, and the
rules derive it behind every other text as well. -/
def Moves (rules : Rules) (front rest : String) (parser : Parser) (start : Nat)
    (outcome : Outcome Value) (calls : Nat) : Prop :=
  ∃ alone : Outcome Value, outcome = alone.shift front ∧
    ∀ other : String, Derives rules (other ++ rest) parser (other.utf8ByteSize + start)
      (alone.shift other) calls

/-- The outcome of a primitive parser is found by running it. -/
theorem Derives.moves_of_runAt (h : Derives rules (front ++ rest) parser position outcome calls)
    (here : position = front.utf8ByteSize + start) (alone : Outcome Value)
    (runs : ∀ other : String, parser.runAt rules (other ++ rest) (other.utf8ByteSize + start) =
      some ⟨alone.shift other, 0⟩) : Moves rules front rest parser start outcome calls := by
  have run := h.runAt_eq
  rw [here, runs front] at run
  cases run
  exact ⟨alone, rfl, fun other => derives_of_runAt (runs other)⟩

/-- How a movable item ends behind `front` on its own account. -/
def MovesAlone (rules : Rules) (front rest : String) (item : Parser) (position : Nat)
    (outcome : Outcome Value) (calls : Nat) : Prop :=
  item.IsMovable → ∀ start, position = front.utf8ByteSize + start →
    Moves rules front rest item start outcome calls

/-- What is in a row behind one text is in a row behind every text. -/
theorem Row.moves {items : List Parser} {values : List Value} {stop : Nat}
    (row : Row (MovesAlone rules front rest) items position values stop calls)
    (movable : ∀ item ∈ items, item.IsMovable) (here : position = front.utf8ByteSize + start) :
    ∃ elements stop', values = Value.mapSpansAll (Span.shift front) elements ∧
      stop = front.utf8ByteSize + stop' ∧
      ∀ other : String, Row (Derives rules (other ++ rest)) items (other.utf8ByteSize + start)
        (Value.mapSpansAll (Span.shift other) elements) (other.utf8ByteSize + stop') calls := by
  induction row generalizing start with
  | nil => exact ⟨[], start, rfl, here, fun _ => .nil⟩
  | cons first _ ih =>
    obtain ⟨alone, others⟩ := List.forall_mem_cons.1 movable
    obtain ⟨head, same, movedHead⟩ := first alone start here
    obtain ⟨value, origin, middle, rfl, rfl⟩ := Outcome.eq_success_of_shift same
    obtain ⟨elements, stop, rfl, rfl, movedTail⟩ := ih others rfl
    exact ⟨value :: elements, stop, rfl, rfl, fun other =>
      .cons (movedHead other) (movedTail other)⟩

/-- What is cut short behind one text is cut short behind every text. -/
theorem CutShort.moves {items : List Parser}
    (cut : CutShort (MovesAlone rules front rest) items position outcome calls)
    (movable : ∀ item ∈ items, item.IsMovable) (here : position = front.utf8ByteSize + start) :
    ∃ alone : Outcome Value, outcome = alone.shift front ∧
      ∀ other : String, CutShort (Derives rules (other ++ rest)) items
        (other.utf8ByteSize + start) (alone.shift other) calls := by
  induction cut generalizing start with
  | here first stops =>
    obtain ⟨alone, rfl, moved⟩ := first (movable _ List.mem_cons_self) start here
    rw [Outcome.isSuccess_shift] at stops
    exact ⟨alone, rfl, fun other => .here (moved other) (by simpa using stops)⟩
  | later first _ ih =>
    obtain ⟨alone, others⟩ := List.forall_mem_cons.1 movable
    obtain ⟨head, same, movedHead⟩ := first alone start here
    obtain ⟨value, origin, middle, rfl, rfl⟩ := Outcome.eq_success_of_shift same
    obtain ⟨tail, rfl, movedTail⟩ := ih others rfl
    exact ⟨tail, rfl, fun other => .later (movedHead other) (movedTail other)⟩

/-- What is derived behind one text is derived behind every text, by induction on
the derivation. The position within the rest is what the parts are related by. -/
theorem Derives.moves (h : Derives rules (front ++ rest) parser position outcome calls)
    (movable : parser.IsMovable) (movableRules : rules.AreMovable)
    (here : position = front.utf8ByteSize + start) :
    Moves rules front rest parser start outcome calls := by
  have derived := h
  induction h generalizing start with
  | @literal_match text | @literal_mismatch text =>
    refine derived.moves_of_runAt here (literalOutcome text rest start) fun other => ?_
    rw [Parser.runAt_literal, literalOutcome_shift]
  | @pattern_match regex | @pattern_mismatch regex =>
    refine derived.moves_of_runAt here (patternOutcome regex rest start) fun other => ?_
    rw [Parser.runAt_pattern, patternOutcome_shift other rest start movable.isLookFree]
  | pure => exact derived.moves_of_runAt here (.success ⟨.unit, start, start⟩) fun other => rfl
  | finish_at | finish_before =>
    refine derived.moves_of_runAt here (finishOutcome rest start) fun other => ?_
    rw [Parser.runAt_finish, finishOutcome_shift]
  | function => exact absurd movable id
  | sequence_all _ ordered row =>
    have row : Row (MovesAlone rules front rest) _ _ _ _ _ :=
      row.imp fun ⟨derived, moves⟩ movable start here => moves movable here derived
    obtain ⟨elements, stop, rfl, rfl, moved⟩ := row.moves (Parser.everyOf_iff.1 movable) here
    obtain rfl := here
    rw [Nat.add_le_add_iff_left] at ordered
    exact ⟨.success ⟨.list elements, start, stop⟩, rfl, fun other =>
      .sequence_all (moved other) (Nat.add_le_add_left ordered _)⟩
  | sequence_back _ back row =>
    have row : Row (MovesAlone rules front rest) _ _ _ _ _ :=
      row.imp fun ⟨derived, moves⟩ movable start here => moves movable here derived
    obtain ⟨elements, stop, rfl, rfl, moved⟩ := row.moves (Parser.everyOf_iff.1 movable) here
    obtain rfl := here
    rw [Nat.add_lt_add_iff_left] at back
    exact ⟨.fault .reversedRange, rfl, fun other =>
      .sequence_back (moved other) (Nat.add_lt_add_left back _)⟩
  | sequence_cut _ cut =>
    have cut : CutShort (MovesAlone rules front rest) _ _ _ _ :=
      cut.imp fun ⟨derived, moves⟩ movable start here => moves movable here derived
    obtain ⟨alone, rfl, moved⟩ := cut.moves (Parser.everyOf_iff.1 movable) here
    exact ⟨alone, rfl, fun other => .sequence_cut (moved other)⟩
  | alternate_nil =>
    obtain rfl := here
    exact ⟨.failure ⟨"Expected: ", start⟩, rfl, fun _ => .alternate_nil⟩
  | alternate_first first settles ih =>
    obtain ⟨alone, rfl, moved⟩ := ih movable.1 here first
    rw [Outcome.isFailure_shift] at settles
    exact ⟨alone, rfl, fun other => .alternate_first (moved other) (by simpa using settles)⟩
  | alternate_next first rest settles ihFirst ihRest =>
    obtain ⟨head, same, movedHead⟩ := ihFirst movable.1 here first
    obtain ⟨reason, rfl⟩ := Outcome.exists_failure_of_shift same
    obtain ⟨tail, rfl, movedTail⟩ := ihRest movable.2 here rest
    rw [Outcome.isFailure_shift] at settles
    exact ⟨tail, rfl, fun other =>
      .alternate_next (movedHead other) (movedTail other) (by simpa using settles)⟩
  | @alternate_none item items _ _ _ _ _ first rest ihFirst ihRest =>
    obtain ⟨head, same, movedHead⟩ := ihFirst movable.1 here first
    obtain ⟨reason, rfl⟩ := Outcome.exists_failure_of_shift same
    obtain ⟨tail, same, movedTail⟩ := ihRest movable.2 here rest
    obtain ⟨reason, rfl⟩ := Outcome.exists_failure_of_shift same
    obtain rfl := here
    exact ⟨.failure ⟨"Expected: " ++ (Parser.alternate (item :: items)).name, start⟩, rfl,
      fun other => .alternate_none (movedHead other) (movedTail other)⟩
  | many_done first ih =>
    obtain ⟨head, same, moved⟩ := ih movable here first
    obtain ⟨reason, rfl⟩ := Outcome.exists_failure_of_shift same
    obtain rfl := here
    exact ⟨.success ⟨.list [], start, start⟩, rfl, fun other => .many_done (moved other)⟩
  | many_next first forward rest ihFirst ihRest =>
    obtain ⟨head, same, movedHead⟩ := ihFirst movable here first
    obtain ⟨value, origin, middle, rfl, rfl⟩ := Outcome.eq_success_of_shift same
    obtain ⟨tail, same, movedTail⟩ := ihRest movable rfl rest
    obtain ⟨values, origin, stop, rfl, rfl, rfl⟩ := Outcome.eq_list_of_shift same
    obtain rfl := here
    have forward : start < middle := Nat.lt_of_add_lt_add_left forward
    exact ⟨.success ⟨.list (value :: values), start, stop⟩, rfl, fun other =>
      .many_next (movedHead other) (Nat.add_lt_add_left forward _) (movedTail other)⟩
  | many_fault first ih =>
    obtain ⟨head, same, moved⟩ := ih movable here first
    obtain ⟨cause, rfl⟩ := Outcome.exists_fault_of_shift same
    exact ⟨.fault cause, same, fun other => .many_fault (moved other)⟩
  | many_later first forward rest ihFirst ihRest =>
    obtain ⟨head, same, movedHead⟩ := ihFirst movable here first
    obtain ⟨value, origin, middle, rfl, rfl⟩ := Outcome.eq_success_of_shift same
    obtain ⟨tail, same, movedTail⟩ := ihRest movable rfl rest
    obtain ⟨cause, rfl⟩ := Outcome.exists_fault_of_shift same
    obtain rfl := here
    have forward : start < middle := Nat.lt_of_add_lt_add_left forward
    exact ⟨.fault cause, same, fun other =>
      .many_later (movedHead other) (Nat.add_lt_add_left forward _) (movedTail other)⟩
  | @many_stuck item _ _ _ first stuck ih =>
    obtain ⟨head, same, moved⟩ := ih movable here first
    obtain ⟨value, origin, middle, rfl, rfl⟩ := Outcome.eq_success_of_shift same
    obtain rfl := here
    have stuck : ¬ start < middle := fun forward => stuck (Nat.add_lt_add_left forward _)
    exact ⟨.fault (.emptyRepetition item.name (Parser.many item).name start), rfl, fun other =>
      .many_stuck (moved other) fun forward => stuck (Nat.lt_of_add_lt_add_left forward)⟩
  | capture_within inner within ih =>
    obtain ⟨alone, same, moved⟩ := ih movable here inner
    obtain ⟨value, origin, stop, rfl, equal⟩ := Outcome.eq_success_of_shift same
    obtain ⟨rfl, rfl, rfl⟩ := Success.mk.inj equal
    simp only [String.utf8ByteSize_append, Nat.add_le_add_iff_left] at within
    refine ⟨.success ⟨.spanned value ⟨rest, origin, stop⟩, origin, stop⟩, rfl, fun other => ?_⟩
    refine .capture_within (moved other) ?_
    simpa only [String.utf8ByteSize_append, Nat.add_le_add_iff_left] using within
  | capture_outside inner outside ih =>
    obtain ⟨alone, same, moved⟩ := ih movable here inner
    obtain ⟨value, origin, stop, rfl, rfl⟩ := Outcome.eq_success_of_shift same
    simp only [String.utf8ByteSize_append, Nat.add_le_add_iff_left] at outside
    refine ⟨.fault .spanOutOfRange, rfl, fun other => .capture_outside (moved other) ?_⟩
    simpa only [String.utf8ByteSize_append, Nat.add_le_add_iff_left] using outside
  | capture_stop inner stops ih =>
    obtain ⟨alone, rfl, moved⟩ := ih movable here inner
    rw [Outcome.isSuccess_shift] at stops
    exact ⟨alone, rfl, fun other => .capture_stop (moved other) (by simpa using stops)⟩
  | map_value inner changed ih =>
    obtain ⟨alone, same, moved⟩ := ih movable.2 here inner
    obtain ⟨value, origin, stop, rfl, equal⟩ := Outcome.eq_success_of_shift same
    obtain ⟨rfl, rfl, rfl⟩ := Success.mk.inj equal
    -- The mapped function gives the same value for every text in front, spans aside.
    obtain ⟨result, -, opaquely⟩ := movable.1 value
    rw [opaquely] at changed
    obtain rfl := Except.ok.inj changed
    exact ⟨.success ⟨result, origin, stop⟩, rfl, fun other =>
      .map_value (moved other) (opaquely _)⟩
  | @map_fault item change _ _ result cause inner broken ih =>
    obtain ⟨value, total, -⟩ := movable.1 result.value
    rw [broken] at total
    cases total
  | map_stop inner stops ih =>
    obtain ⟨alone, rfl, moved⟩ := ih movable.2 here inner
    rw [Outcome.isSuccess_shift] at stops
    exact ⟨alone, rfl, fun other => .map_stop (moved other) (by simpa using stops)⟩
  | rule found inner ih =>
    obtain ⟨alone, rfl, moved⟩ := ih (movableRules _ _ found) here inner
    exact ⟨alone, rfl, fun other => .rule found (moved other)⟩

end Runs

/-- **Shift invariance.** Where no parser can ask where it stands, a run with a
text in front is the run on the rest alone, with every position further on by the
size of that text: one ends if the other does, with the same values and messages
and after following as many references. -/
theorem runAt_shift {rules : Rules} {parser : Parser} (movable : parser.IsMovable)
    (movableRules : rules.AreMovable) (front rest : String) (start : Nat) :
    parser.runAt rules (front ++ rest) (front.utf8ByteSize + start) =
      (parser.runAt rules rest start).map (Reply.shift front) := by
  cases run : parser.runAt rules rest start with
  | none =>
    rw [runAt_eq_none_iff] at run
    rw [Option.map_none, runAt_eq_none_iff]
    intro outcome calls derived
    -- Behind the empty text the run on the rest alone would end too.
    obtain ⟨alone, -, moved⟩ := derived.moves movable movableRules rfl
    have derivedAlone := moved ""
    rw [String.empty_append, String.utf8ByteSize_empty, Nat.zero_add] at derivedAlone
    exact run _ _ derivedAlone
  | some reply =>
    obtain ⟨outcome, calls⟩ := reply
    have derived : Derives rules ("" ++ rest) parser start outcome calls := by
      rw [String.empty_append]
      exact derives_of_runAt run
    have here : start = "".utf8ByteSize + start := by simp
    obtain ⟨alone, same, moved⟩ := derived.moves movable movableRules here
    rw [Outcome.shift_empty] at same
    obtain rfl := same
    exact (moved front).runAt_eq

/-- Accented letters, as many as there are. -/
def accents : Pattern :=
  ⟨"é+", ⟨#[.read (.singleton 'é'), .fork [0, 2]]⟩⟩

/-- Accented letters to the end of the text. -/
def accentRules : Rules :=
  [("rest", .seqAll [.capture (.pattern accents), .finish])]

/-- Behind `aé` the span that is captured begins three bytes further on, and the
value around it is the same. -/
theorem runAt_shift_accents :
    (Parser.map (.rule "rest") (Transform.pick 0).apply).IsMovable ∧ accentRules.AreMovable ∧
    (Parser.map (.rule "rest") (Transform.pick 0).apply).runAt accentRules
        ("aé" ++ "zéé") (3 + 1) =
      some ⟨.success ⟨.spanned (.text "éé") ⟨"aézéé", 4, 8⟩, 4, 8⟩, 1⟩ := by
  have free : accents.IsAnchorFree :=
    ⟨rfl, .repetition 1 none true (.literal ⟨'é', false⟩), rfl, trivial, trivial⟩
  have item : (Parser.capture (.pattern accents)).IsMovable := free
  have finish : Parser.finish.IsMovable := trivial
  have items := Parser.isMovable_seqAll
    (List.forall_mem_cons.2 ⟨item, List.forall_mem_singleton.2 finish⟩)
  have movable : (Parser.map (.rule "rest") (Transform.pick 0).apply).IsMovable :=
    ⟨Transform.ignoresSpans trivial, trivial⟩
  have movableRules : accentRules.AreMovable := by
    intro name parser found
    have member := Rules.mem_of_parser?_eq_some found
    obtain ⟨rfl, rfl⟩ := Prod.mk.inj (List.mem_singleton.1 member)
    exact items
  refine ⟨movable, movableRules, ?_⟩
  have run : (Parser.map (.rule "rest") (Transform.pick 0).apply).runAt accentRules "zéé" 1 =
      some ⟨.success ⟨.spanned (.text "éé") ⟨"zéé", 1, 5⟩, 1, 5⟩, 1⟩ := by
    have found : accentRules.parser? "rest" =
      some (.seqAll [.capture (.pattern accents), .finish]) := rfl
    rw [Parser.runAt_map, Parser.runAt_rule, found, Option.bind_some, Parser.runAt_seqAll_pair]
    rfl
  have size : "aé".utf8ByteSize = 3 := rfl
  rw [← size, runAt_shift movable movableRules, run]
  rfl

end Peg
