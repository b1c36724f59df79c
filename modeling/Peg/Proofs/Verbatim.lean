import Peg.Proofs.Balanced
import Peg.Proofs.Derivation
import Peg.Proofs.Parts

/-!
# Values that spell what was read

Without functions of a user, a value is nothing but the text that was read, cut
into pieces: the pieces stand in the order of the text, none is missing, and
none occurs twice. The same holds of every value inside it that carries a span.

## Main definitions

* `Value.HasPart`: the values inside a value.
* `Spells`: a value is the text between two offsets, and so are its parts with spans.

## Main results

* `Spells.cons`: a list spells what its head spells, and then what the others do.
* `Spells.leaves`: values that are taken out of a tree spell what the tree spells.
* `Derives.isVerbatim`, `runAt_spells`: the values of plain parsers spell what was read.
-/

namespace Peg

namespace Value

/-- The values inside a value, itself included. -/
inductive HasPart : Value → Value → Prop
  | self {value : Value} : HasPart value value
  | list {elements : List Value} {element part : Value} (member : element ∈ elements)
      (inner : HasPart element part) : HasPart (.list elements) part
  | tagged {tag : String} {value part : Value} (inner : HasPart value part) :
      HasPart (.tagged tag value) part
  | spanned {value part : Value} {span : Span} (inner : HasPart value part) :
      HasPart (.spanned value span) part

variable {value part : Value} {values : List Value}

theorem HasPart.trans {middle : Value} (h : value.HasPart middle) (h' : middle.HasPart part) :
    value.HasPart part := by
  induction h with
  | self => exact h'
  | list member _ ih => exact .list member (ih h')
  | tagged _ ih => exact .tagged (ih h')
  | spanned _ ih => exact .spanned (ih h')

theorem joinAll_append (first second : List Value) :
    joinAll (first ++ second) = joinAll first ++ joinAll second := by
  induction first with
  | nil => simp [joinAll]
  | cons value first ih => simp [joinAll, ih, String.append_assoc]

/-- The values that are taken out of a tree are parts of it. -/
theorem hasPart_of_mem_leaves {count : Nat} (h : part ∈ Parser.leaves count value) :
    value.HasPart part := by
  fun_induction Parser.leaves count value with
  | case1 count value small =>
    obtain rfl := List.mem_singleton.1 h
    exact .self
  | case2 count large first second ihFirst ihSecond =>
    obtain h | h := List.mem_append.1 h
    · exact .list List.mem_cons_self (ihFirst h)
    · exact .list (List.mem_cons_of_mem _ List.mem_cons_self) (ihSecond h)
  | case3 count large value other =>
    obtain rfl := List.mem_singleton.1 h
    exact .self

/-- Putting the values of a tree in a row keeps their text. -/
theorem joinAll_leaves (count : Nat) (value : Value) :
    joinAll (Parser.leaves count value) = value.join := by
  fun_induction Parser.leaves count value with
  | case1 count value small => simp [joinAll]
  | case2 count large first second ihFirst ihSecond =>
    simp [joinAll_append, ihFirst, ihSecond, join, joinAll]
  | case3 count large value other => simp [joinAll]

end Value

/-- A value is the text between two offsets of the input, and every value inside
it that carries a span is the text of its span. -/
structure Spells (input : String) (value : Value) (start stop : Nat) : Prop where
  text : Text.slice? input.toList start stop = some value.join.toList
  spans : ∀ inner span, value.HasPart (.spanned inner span) →
    span.source = input ∧ span.text? = some inner.join

namespace Spells

variable {input s : String} {value head : Value} {values : List Value}
  {start middle stop : Nat}

/-- Reading some characters spells them. -/
theorem of_cut {before after : List Char} (cut : input.toList = before ++ s.toList ++ after)
    (bytes : Text.size before = start) :
    Spells input (.text s) start (start + s.utf8ByteSize) where
  text := by
    rw [← Text.size_toList]
    exact Text.slice?_eq_some_iff.2 ⟨before, after, cut, bytes, rfl⟩
  spans _ _ inner := by cases inner

theorem unit (between : Text.isBoundary input.toList start = true) :
    Spells input .unit start start where
  text := Text.slice?_self between
  spans _ _ inner := by cases inner

theorem nil (between : Text.isBoundary input.toList start = true) :
    Spells input (.list []) start start where
  text := Text.slice?_self between
  spans _ _ inner := by
    cases inner with
    | list member _ => cases member

theorem cons (first : Spells input head start middle)
    (rest : Spells input (.list values) middle stop) :
    Spells input (.list (head :: values)) start stop where
  text := by
    have whole := Text.slice?_append first.text rest.text
    rwa [← String.toList_append] at whole
  spans inner span part := by
    cases part with
    | list member within =>
      obtain rfl | member := List.mem_cons.1 member
      · exact first.spans inner span within
      · exact rest.spans inner span (.list member within)

/-- A value with the span it was read from spells what it spelt before. -/
theorem spanned (h : Spells input value start stop) :
    Spells input (.spanned value ⟨input, start, stop⟩) start stop where
  text := h.text
  spans inner span part := by
    cases part with
    | self => exact ⟨rfl, by rw [Span.text?, h.text, Option.map_some, String.ofList_toList]⟩
    | spanned within => exact h.spans inner span within

/-- The values that are taken out of a tree spell what the tree spells. -/
theorem leaves (h : Spells input value start stop) (count : Nat) :
    Spells input (.list (Parser.leaves count value)) start stop where
  text := by rw [h.text, Value.join, Value.joinAll_leaves]
  spans inner span part := by
    cases part with
    | list member within =>
      exact h.spans inner span ((Value.hasPart_of_mem_leaves member).trans within)

/-- A value is spelt from its start on to a place between characters. -/
theorem isBoundary_stop (h : Spells input value start stop) :
    Text.isBoundary input.toList stop = true :=
  Text.isBoundary_of_slice? h.text

end Spells

/-- A success starts where it is run and spells what was read. -/
def Outcome.IsVerbatim (input : String) (start : Nat) : Outcome Value → Prop
  | .success result => result.start = start ∧ Spells input result.value start result.stop
  | .failure _ | .fault _ => True

variable {rules : Rules} {input : String} {parser : Parser} {start : Nat}

theorem Outcome.isVerbatim_of_not_isSuccess {outcome : Outcome Value}
    (stops : ¬ outcome.IsSuccess) : outcome.IsVerbatim input start := by
  cases outcome with
  | success result => exact absurd (isSuccess_success result) stops
  | failure reason => trivial
  | fault cause => trivial

/-- Each value in a row is spelt from where the one before it ends, which is a place
between characters again. -/
theorem Row.spells {items : List Parser} {values : List Value} {stop calls : Nat}
    (row : Row (fun item start outcome _ => item.IsPlain →
      Text.isBoundary input.toList start = true → outcome.IsVerbatim input start)
      items start values stop calls)
    (plain : ∀ item ∈ items, item.IsPlain) (between : Text.isBoundary input.toList start = true) :
    Spells input (.list values) start stop := by
  induction row with
  | nil => exact .nil between
  | cons first _ ih =>
    obtain ⟨here, others⟩ := List.forall_mem_cons.1 plain
    obtain ⟨-, head⟩ := first here between
    exact head.cons (ih others head.isBoundary_stop)

/-- The successes of plain parsers spell what was read, by induction on their
derivations. What an abandoned attempt has read is in no value. -/
theorem Derives.isVerbatim {outcome : Outcome Value} {calls : Nat}
    (h : Derives rules input parser start outcome calls) (plain : parser.IsPlain)
    (plainRules : rules.ArePlain) (between : Text.isBoundary input.toList start = true) :
    outcome.IsVerbatim input start := by
  induction h with
  | literal_match cut bytes => exact ⟨rfl, .of_cut cut bytes⟩
  | @pattern_match regex start before found after cut bytes stop =>
    have read : Spells input (.text (String.ofList found)) start
        (start + (String.ofList found).utf8ByteSize) := .of_cut (by simpa using cut) bytes
    rw [← Text.size_toList, String.toList_ofList] at read
    exact ⟨rfl, read⟩
  | literal_mismatch | pattern_mismatch | finish_before | alternate_nil | alternate_none
  | sequence_back | many_fault | many_later | many_stuck | capture_outside | map_fault => trivial
  | pure | finish_at => exact ⟨rfl, .unit between⟩
  | many_done => exact ⟨rfl, .nil between⟩
  | function => exact absurd plain id
  | sequence_all _ _ row =>
    exact ⟨rfl, (row.imp Exists.choose_spec).spells (Parser.everyOf_iff.1 plain) between⟩
  | sequence_cut cut => exact Outcome.isVerbatim_of_not_isSuccess cut.not_isSuccess
  | capture_stop _ stops | map_stop _ stops => exact Outcome.isVerbatim_of_not_isSuccess stops
  | many_next _ _ _ ihFirst ihRest =>
    obtain ⟨-, first⟩ := ihFirst plain between
    obtain ⟨-, rest⟩ := ihRest plain first.isBoundary_stop
    exact ⟨rfl, first.cons rest⟩
  | alternate_first _ _ ih => exact ih plain.1 between
  | alternate_next _ _ _ _ ih => exact ih plain.2 between
  | capture_within _ _ ih =>
    obtain ⟨origin, read⟩ := ih plain between
    obtain rfl := origin
    exact ⟨rfl, read.spanned⟩
  | map_value _ changed ih =>
    obtain ⟨⟨count, flatten⟩, plain⟩ := plain
    obtain ⟨origin, read⟩ := ih plain between
    rw [flatten] at changed
    cases changed
    exact ⟨origin, read.leaves count⟩
  | rule found _ ih => exact ih (plainRules _ _ found) between

/-- **Nothing is lost, doubled or moved.** When a parser without functions of a user
succeeds from a place between characters, the texts in its value, put together from
left to right, are what was read. So they are for every value with a span inside
it, whose span is one of this input. -/
theorem runAt_spells {result : Success Value} {calls : Nat} (plain : parser.IsPlain)
    (plainRules : rules.ArePlain) (between : Text.isBoundary input.toList start = true)
    (h : parser.runAt rules input start = some ⟨.success result, calls⟩) :
    (⟨input, result.start, result.stop⟩ : Span).text? = some result.value.join ∧
      ∀ inner span, result.value.HasPart (.spanned inner span) →
        span.source = input ∧ span.text? = some inner.join := by
  have run : Outcome.IsVerbatim input start (.success result) :=
    (derives_of_runAt h).isVerbatim plain plainRules between
  obtain ⟨begins, read⟩ := run
  refine ⟨?_, read.spans⟩
  rw [Span.text?, begins, read.text, Option.map_some, String.ofList_toList]

/-- Two letters with spans, the first of which an abandoned attempt has read before.
The value spells both, and what carries the first span spells the first. -/
theorem runAt_spells_letters :
    (Parser.seqAll [.capture (.alternate [.seq (.literal "é") (.literal "x"), .literal "é"]),
        .capture (.literal "z")]).runAt [] "aéz" 1 =
      some ⟨.success ⟨.list [.spanned (.text "é") ⟨"aéz", 1, 3⟩,
        .spanned (.text "z") ⟨"aéz", 3, 4⟩], 1, 4⟩, 0⟩ ∧
    (⟨"aéz", 1, 4⟩ : Span).text? = some "éz" ∧ (⟨"aéz", 1, 3⟩ : Span).text? = some "é" := by
  have first : Parser.IsPlain
      (.capture (.alternate [.seq (.literal "é") (.literal "x"), .literal "é"])) :=
    ⟨⟨trivial, trivial, trivial⟩, trivial, trivial⟩
  have second : Parser.IsPlain (.capture (.literal "z")) := trivial
  have plain := Parser.isPlain_seqAll
    (List.forall_mem_cons.2 ⟨first, List.forall_mem_singleton.2 second⟩)
  have plainRules : Rules.ArePlain [] := nofun
  have run : (Parser.seqAll [.capture (.alternate [.seq (.literal "é") (.literal "x"),
      .literal "é"]), .capture (.literal "z")]).runAt [] "aéz" 1 =
        some ⟨.success ⟨.list [.spanned (.text "é") ⟨"aéz", 1, 3⟩,
          .spanned (.text "z") ⟨"aéz", 3, 4⟩], 1, 4⟩, 0⟩ := by
    rw [Parser.runAt_seqAll_pair]
    rfl
  obtain ⟨whole, parts⟩ := runAt_spells plain plainRules rfl run
  obtain ⟨-, part⟩ := parts (.text "é") ⟨"aéz", 1, 3⟩ (.list List.mem_cons_self .self)
  exact ⟨run, whole, part⟩

end Peg
