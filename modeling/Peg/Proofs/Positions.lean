import Peg.Proofs.Items
import Peg.Proofs.Parts

/-!
# Where runs end and fail

A run within an input reads from its start on to a place between characters, or
does not move at all. It fails at such a place too. The one primitive parser
that can succeed inside a character reads nothing there, so no combination of
parsers gets from there to anywhere else.

## Main definitions

* `Text.Advances`: the way from one offset to another that a run can take.
* `Outcome.Lands`: the positions of a success or a failure are such ways.
* `Outcome.Fits`: the same, and nothing breaks down but a repetition.

## Main results

* `Derives.lands`: every outcome of parsers without functions lands.
* `Derives.fits`: every outcome of the library's own parsers fits.
* `runAt_within`: the same for runs, clause by clause.
-/

namespace Peg

namespace Text

/-- A way from one offset on to another within a text. It stays where it is or
leads from a place between characters to another. -/
structure Advances (cs : List Char) (start stop : Nat) : Prop where
  le : start ≤ stop
  within : stop ≤ size cs
  boundary : stop ≠ start → isBoundary cs start = true ∧ isBoundary cs stop = true

variable {cs : List Char} {start middle stop : Nat}

theorem Advances.refl (within : start ≤ size cs) : Advances cs start start :=
  ⟨Nat.le_refl _, within, fun moved => absurd rfl moved⟩

theorem Advances.trans (h : Advances cs start middle) (h' : Advances cs middle stop) :
    Advances cs start stop where
  le := Nat.le_trans h.le h'.le
  within := h'.within
  boundary moved := by
    by_cases first : middle = start
    · subst first
      exact h'.boundary moved
    · by_cases second : stop = middle
      · subst second
        exact h.boundary moved
      · exact ⟨(h.boundary first).1, (h'.boundary second).2⟩

/-- Reading some characters advances. -/
theorem Advances.of_append {before found after : List Char}
    (cut : cs = before ++ found ++ after) (bytes : size before = start) :
    Advances cs start (start + size found) where
  le := Nat.le_add_right _ _
  within := by
    rw [cut, size_append, size_append, bytes]
    exact Nat.le_add_right _ _
  boundary _ := by
    constructor
    · exact isBoundary_iff.2 ⟨before, found ++ after, by rw [cut, List.append_assoc], bytes⟩
    · exact isBoundary_iff.2 ⟨before ++ found, after, cut, by rw [size_append, bytes]⟩

/-- From a place between characters there are characters to where a way ends. -/
theorem Advances.exists_slice (h : Advances cs start stop) (between : isBoundary cs start = true) :
    ∃ found, slice? cs start stop = some found := by
  by_cases moved : stop = start
  · subst moved
    exact ⟨[], slice?_self between⟩
  · obtain ⟨before, after, cut, bytes⟩ := isBoundary_iff.1 (h.boundary moved).1
    obtain ⟨before', after', cut', bytes'⟩ := isBoundary_iff.1 (h.boundary moved).2
    have le := h.le
    obtain ⟨found, rfl, rfl⟩ | ⟨found, rfl, rfl⟩ :=
      List.append_eq_append_iff.1 (cut.symm.trans cut')
    · rw [size_append] at bytes'
      exact ⟨found, slice?_eq_some_iff.2 ⟨before, after', cut', bytes, by omega⟩⟩
    · rw [size_append] at bytes
      omega

end Text

/-- The positions of an outcome are ways from `start` within the input: a success
begins there, and both it and a failure advance. Of a fault nothing is said. -/
def Outcome.Lands (input : String) (start : Nat) : Outcome Value → Prop
  | .success result => result.start = start ∧ Text.Advances input.toList start result.stop
  | .failure reason => Text.Advances input.toList start reason.position
  | .fault _ => True

/-- The positions of an outcome fit a run from `start` within the input: a
success begins there, and both it and a failure advance. Nothing breaks down but
a repetition. -/
def Outcome.Fits (input : String) (start : Nat) : Outcome Value → Prop
  | .success result => result.start = start ∧ Text.Advances input.toList start result.stop
  | .failure reason => Text.Advances input.toList start reason.position
  | .fault cause =>
    ∃ item repetition position, cause = .emptyRepetition item repetition position

theorem Outcome.Lands.trans {input : String} {start middle : Nat} {outcome : Outcome Value}
    (h : outcome.Lands input middle) (way : Text.Advances input.toList start middle)
    (stops : ¬ outcome.IsSuccess) : outcome.Lands input start := by
  cases outcome with
  | success result => exact absurd (isSuccess_success result) stops
  | failure reason => exact way.trans h
  | fault cause => trivial

variable {rules : Rules} {input : String}

/-- How an item ends on its own account, if it is free of functions and run within the input. -/
def LandsAlone (input : String) (item : Parser) (start : Nat) (outcome : Outcome Value)
    (_calls : Nat) : Prop :=
  item.IsFunctionFree → start ≤ Text.size input.toList → outcome.Lands input start

variable {items : List Parser} {start stop calls : Nat} {values : List Value}
  {outcome : Outcome Value}

/-- A row of items that land is a way. -/
theorem Row.advances (row : Row (LandsAlone input) items start values stop calls)
    (own : ∀ item ∈ items, item.IsFunctionFree) (within : start ≤ Text.size input.toList) :
    Text.Advances input.toList start stop := by
  induction row with
  | nil => exact .refl within
  | cons first _ ih =>
    obtain ⟨here, rest⟩ := List.forall_mem_cons.1 own
    obtain ⟨-, way⟩ := first here within
    exact way.trans (ih rest way.within)

/-- What cuts a row of items short lands. -/
theorem CutShort.lands (cut : CutShort (LandsAlone input) items start outcome calls)
    (own : ∀ item ∈ items, item.IsFunctionFree) (within : start ≤ Text.size input.toList) :
    outcome.Lands input start := by
  obtain ⟨before, item, after, _, middle, _, _, rfl, row, last, -⟩ := cut.exists_row
  obtain ⟨before, here⟩ := List.forall_mem_append.1 own
  have way := row.advances before within
  exact (last (here _ List.mem_cons_self) way.within).trans way cut.not_isSuccess

/-- Every outcome of parsers without functions lands, by induction on its derivation. -/
theorem Derives.lands {parser : Parser} {start calls : Nat} {outcome : Outcome Value}
    (h : Derives rules input parser start outcome calls) (own : parser.IsFunctionFree)
    (ownRules : rules.AreFunctionFree) (within : start ≤ input.utf8ByteSize) :
    outcome.Lands input start := by
  rw [← Text.size_toList] at within
  induction h with
  | literal_match cut bytes =>
    refine ⟨rfl, ?_⟩
    rw [← Text.size_toList]
    exact .of_append cut bytes
  | pattern_match cut bytes stop => exact ⟨rfl, .of_append cut bytes⟩
  -- These fail, or succeed, where they are run, which may be inside a character.
  | literal_mismatch | pattern_mismatch | finish_before | alternate_nil => exact .refl within
  | pure | finish_at => exact ⟨rfl, .refl within⟩
  | function => exact absurd own id
  | sequence_all _ _ row =>
    have row : Row (LandsAlone input) _ _ _ _ _ := row.imp fun ⟨_, lands⟩ => lands
    exact ⟨rfl, row.advances (Parser.everyOf_iff.1 own) within⟩
  | sequence_cut _ cut =>
    have cut : CutShort (LandsAlone input) _ _ _ _ := cut.imp fun ⟨_, lands⟩ => lands
    exact cut.lands (Parser.everyOf_iff.1 own) within
  | alternate_first _ _ ih => exact ih own.1 within
  | alternate_next _ _ _ _ ih => exact ih own.2 within
  | alternate_none => exact .refl within
  | many_done => exact ⟨rfl, .refl within⟩
  | many_next _ _ _ ihFirst ihRest =>
    obtain ⟨-, first⟩ := ihFirst own within
    obtain ⟨-, rest⟩ := ihRest own first.within
    exact ⟨rfl, first.trans rest⟩
  | capture_within _ _ ih => exact ih own within
  | capture_stop _ _ ih => exact ih own within
  | map_value _ _ ih => exact ih own.2 within
  | map_stop _ _ ih => exact ih own.2 within
  | rule found _ ih => exact ih (ownRules _ _ found) within
  | sequence_back | many_fault | many_later | many_stuck | capture_outside | map_fault => trivial

/-- A parser without functions starts where it is run, be it within the input or not. -/
theorem Derives.start_eq {parser : Parser} {start calls : Nat} {outcome : Outcome Value}
    (h : Derives rules input parser start outcome calls) (own : parser.IsFunctionFree)
    (ownRules : rules.AreFunctionFree) {result : Success Value}
    (succeeds : outcome = .success result) : result.start = start := by
  induction h generalizing result with
  | function => exact absurd own id
  | sequence_cut cut => exact absurd (succeeds ▸ Outcome.isSuccess_success result) cut.not_isSuccess
  | alternate_first _ _ ih => exact ih own.1 succeeds
  | alternate_next _ _ _ _ ih => exact ih own.2 succeeds
  | capture_within _ _ ih =>
    have begins := ih own rfl
    cases succeeds
    exact begins
  | capture_stop _ _ ih => exact ih own succeeds
  | map_value _ _ ih =>
    have begins := ih own.2 rfl
    cases succeeds
    exact begins
  | map_stop _ _ ih => exact ih own.2 succeeds
  | rule found _ ih => exact ih (ownRules _ _ found) succeeds
  | _ => cases succeeds <;> rfl

/-- So it does not stop before the place where it is run. -/
theorem isForward_of_isFunctionFree {parser : Parser} (own : parser.IsFunctionFree)
    (ownRules : rules.AreFunctionFree) : parser.IsForward rules input := by
  intro start result calls h
  have derived := derives_of_runAt h
  have ordered := derived.isOrdered
  rwa [Outcome.IsOrdered, derived.start_eq own ownRules rfl] at ordered

/-- A row of parsers without functions is a way. -/
theorem Row.advances_of_derives (row : Row (Derives rules input) items start values stop calls)
    (own : ∀ item ∈ items, item.IsFunctionFree) (ownRules : rules.AreFunctionFree)
    (within : start ≤ input.utf8ByteSize) : Text.Advances input.toList start stop := by
  have lands : Row (LandsAlone input) items start values stop calls := by
    refine row.imp fun first own within => first.lands own ownRules ?_
    rwa [← Text.size_toList]
  rw [← Text.size_toList] at within
  exact lands.advances own within

/-- A success ends within the input, and not before it began. -/
theorem Derives.le_stop {parser : Parser} {start calls : Nat} {result : Success Value}
    (h : Derives rules input parser start (.success result) calls) (own : parser.IsFunctionFree)
    (ownRules : rules.AreFunctionFree) (within : start ≤ input.utf8ByteSize) :
    start ≤ result.stop ∧ result.stop ≤ input.utf8ByteSize := by
  obtain ⟨-, way⟩ := h.lands own ownRules within
  have stop := way.within
  rw [Text.size_toList] at stop
  exact ⟨way.le, stop⟩

/-- Where mapped functions have a value for every value, nothing breaks down but a
repetition. The induction is on the derivation again. -/
theorem Derives.exists_emptyRepetition {parser : Parser} {start calls : Nat}
    {outcome : Outcome Value} (h : Derives rules input parser start outcome calls)
    (own : parser.IsBuiltIn) (ownRules : rules.AreBuiltIn) (within : start ≤ input.utf8ByteSize)
    {cause : Fault} (breaks : outcome = .fault cause) :
    ∃ item repetition position, cause = .emptyRepetition item repetition position := by
  have further {item : Parser} {start calls : Nat} {head : Success Value}
      (first : Derives rules input item start (.success head) calls) (own : item.IsBuiltIn)
      (within : start ≤ input.utf8ByteSize) : head.stop ≤ input.utf8ByteSize :=
    (first.le_stop own.isFunctionFree ownRules.areFunctionFree within).2
  induction h with
  | many_stuck =>
    cases breaks
    exact ⟨_, _, _, rfl⟩
  | capture_outside inner outside =>
    -- A span past the end would need a success that ends past the end.
    exact absurd ⟨inner.isOrdered, further inner own within⟩ outside
  | map_fault _ broken =>
    obtain ⟨value, changed⟩ := own.1 _
    rw [broken] at changed
    cases changed
  | function => exact absurd own id
  | sequence_back row back =>
    have free := ownRules.areFunctionFree
    have items := Parser.everyOf_iff.1 own
    have way := row.advances_of_derives
      (fun item here => Parser.IsBuiltIn.isFunctionFree (items item here)) free within
    exact absurd back (Nat.not_lt_of_le way.le)
  | sequence_cut _ cut =>
    obtain ⟨before, item, after, _, middle, _, _, rfl, row, ⟨-, broken⟩, -⟩ := cut.exists_row
    obtain ⟨before, here⟩ := List.forall_mem_append.1 (Parser.everyOf_iff.1 own)
    have free := ownRules.areFunctionFree
    have way := (row.imp Exists.choose).advances_of_derives
      (fun item here => Parser.IsBuiltIn.isFunctionFree (before item here)) free within
    refine broken (here _ List.mem_cons_self) ?_ breaks
    rw [← Text.size_toList]
    exact way.within
  | alternate_first _ _ ih => exact ih own.1 within breaks
  | alternate_next _ _ _ _ ih => exact ih own.2 within breaks
  | many_fault _ ih => exact ih own within breaks
  | many_later first _ _ _ ihRest => exact ihRest own (further first own within) breaks
  | capture_stop _ _ ih => exact ih own within breaks
  | map_stop _ _ ih => exact ih own.2 within breaks
  | rule found _ ih => exact ih (ownRules _ _ found) within breaks
  | literal_match | literal_mismatch | pattern_match | pattern_mismatch | pure | finish_at
  | finish_before | sequence_all | alternate_nil | alternate_none | many_done | many_next
  | capture_within | map_value => cases breaks

/-- Every outcome of the library's own parsers fits. -/
theorem Derives.fits {parser : Parser} {start calls : Nat} {outcome : Outcome Value}
    (h : Derives rules input parser start outcome calls) (own : parser.IsBuiltIn)
    (ownRules : rules.AreBuiltIn) (within : start ≤ input.utf8ByteSize) :
    outcome.Fits input start := by
  have lands := h.lands own.isFunctionFree ownRules.areFunctionFree within
  cases outcome with
  | success result => exact lands
  | failure reason => exact lands
  | fault cause => exact h.exists_emptyRepetition own ownRules within rfl

/-- **Where runs end and fail.** A run of the library's own parsers from a
position within the input succeeds from there on to an offset within the input,
or fails at one. Unless it stays where it is, both ends fall between characters,
and from a place between characters on the text that was read can be cut out.
Nothing breaks down but a repetition; in particular no span ends past the input. -/
theorem runAt_within {parser : Parser} {start : Nat} {reply : Reply Value}
    (own : parser.IsBuiltIn) (ownRules : rules.AreBuiltIn)
    (within : start ≤ input.utf8ByteSize) (h : parser.runAt rules input start = some reply) :
    (∀ result, reply.outcome = .success result →
      result.start = start ∧ start ≤ result.stop ∧ result.stop ≤ input.utf8ByteSize ∧
      (result.stop ≠ start → Text.isBoundary input.toList start = true ∧
        Text.isBoundary input.toList result.stop = true) ∧
      (Text.isBoundary input.toList start = true →
        ∃ s, (⟨input, result.start, result.stop⟩ : Span).text? = some s)) ∧
    (∀ reason, reply.outcome = .failure reason →
      start ≤ reason.position ∧ reason.position ≤ input.utf8ByteSize ∧
      (reason.position = start ∨ Text.isBoundary input.toList reason.position = true)) ∧
    (∀ cause, reply.outcome = .fault cause →
      ∃ item repetition position, cause = .emptyRepetition item repetition position) := by
  have fits := (derives_of_runAt h).fits own ownRules within
  refine ⟨fun result same => ?_, fun reason same => ?_, fun cause same => ?_⟩
  · rw [same] at fits
    obtain ⟨begins, way⟩ := fits
    have stop := way.within
    rw [Text.size_toList] at stop
    refine ⟨begins, way.le, stop, way.boundary, fun between => ?_⟩
    obtain ⟨found, slice⟩ := way.exists_slice between
    exact ⟨String.ofList found, by rw [Span.text?, begins, slice]; rfl⟩
  · rw [same] at fits
    have stop := Text.Advances.within fits
    rw [Text.size_toList] at stop
    refine ⟨Text.Advances.le fits, stop, ?_⟩
    by_cases moved : reason.position = start
    · exact .inl moved
    · exact .inr (Text.Advances.boundary fits moved).2
  · rw [same] at fits
    exact fits

/-- A captured sequence with a reference in it reads `éz` after `a`: two
characters of three bytes, which can be cut out. -/
theorem runAt_within_captured :
    ∃ result s,
      (Parser.capture ((Parser.literal "é").seq (.rule "tail"))).runAt
        [("tail", .many (.literal "z"))] "aéz" 1 = some ⟨.success result, 1⟩ ∧
      result.start = 1 ∧ result.stop = 4 ∧
      (⟨"aéz", result.start, result.stop⟩ : Span).text? = some s := by
  obtain ⟨rules, same⟩ : ∃ rules : Rules, rules = [("tail", .many (.literal "z"))] := ⟨_, rfl⟩
  have first : (Parser.literal "é").runAt rules "aéz" 1 =
      some ⟨.success ⟨.text "é", 1, 3⟩, 0⟩ := rfl
  have more : (Parser.literal "z").runAt rules "aéz" 3 =
      some ⟨.success ⟨.text "z", 3, 4⟩, 0⟩ := rfl
  have last : (Parser.literal "z").runAt rules "aéz" 4 =
      some ⟨.failure (.expected "z" 4), 0⟩ := rfl
  have tail : (Parser.rule "tail").runAt rules "aéz" 3 =
      some ⟨.success ⟨.list [.text "z"], 3, 4⟩, 1⟩ := by
    have found : rules.parser? "tail" = some (.many (.literal "z")) := by
      rw [same]
      rfl
    rw [Parser.runAt_rule, found, Option.bind_some, Parser.runAt_many,
      Step.iterate_success more (by decide), Step.iterate_failure last]
    rfl
  have whole : (Parser.capture ((Parser.literal "é").seq (.rule "tail"))).runAt rules "aéz" 1 =
      some ⟨.success ⟨.spanned (.list [.text "é", .list [.text "z"]]) ⟨"aéz", 1, 4⟩, 1, 4⟩,
        1⟩ := by
    rw [Parser.runAt_capture, Parser.seq, Parser.runAt_sequence, Step.inOrder, List.map_cons,
      Step.row_cons_success first, List.map_cons, Step.row_cons_success tail]
    rfl
  have own : (Parser.capture ((Parser.literal "é").seq (.rule "tail"))).IsBuiltIn :=
    ⟨trivial, trivial, trivial⟩
  have ownRules : rules.AreBuiltIn := by
    refine Rules.areBuiltIn_of_mem fun row member => ?_
    rw [same] at member
    obtain rfl := List.mem_singleton.1 member
    exact trivial
  obtain ⟨within, -, -⟩ := runAt_within own ownRules (by decide) whole
  obtain ⟨-, -, -, -, cut⟩ := within _ rfl
  obtain ⟨s, text⟩ := cut rfl
  rw [← same]
  exact ⟨_, s, whole, rfl, rfl, text⟩

end Peg
