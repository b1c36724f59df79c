import Peg.Proofs.Balanced
import Peg.Proofs.Derivation
import Peg.Proofs.Verbatim

/-!
# Spans inside values

The spans inside the value of a run are nested as the values are, and stand in
the order of the text. Repetitions and sequences of parsers that each carry a
span cover what was read without a gap.

## Main definitions

* `Value.Within`: every span inside a value lies between two offsets.
* `Value.Precedes`: the spans of one value end before those of another begin.
* `Value.IsLaidOut`: the spans inside a value are nested and ordered.
* `Tiles`: values with spans, each of which begins where the one before it ends.

## Main results

* `Value.IsLaidOut.cons`, `Value.IsLaidOut.leaves`: lists keep the spans in order.
* `Derives.isLaidOut`: the values of plain parsers are laid out.
* `tiles_of_many`, `tiles_of_row`, `tiles_of_runAt_seqAll`: values that tile.
* `runAt_spans_nested`: the same for runs, clause by clause.
-/

namespace Peg

namespace Value

/-- Every span inside a value lies between two offsets. -/
def Within (value : Value) (lo hi : Nat) : Prop :=
  ∀ inner span, value.HasPart (.spanned inner span) →
    lo ≤ span.start ∧ span.start ≤ span.stop ∧ span.stop ≤ hi

/-- Every span inside one value ends at or before the start of every span inside another. -/
def Precedes (first second : Value) : Prop :=
  ∀ inner span inner' span', first.HasPart (.spanned inner span) →
    second.HasPart (.spanned inner' span') → span.stop ≤ span'.start

/-- The spans inside a value lie between two offsets. Inside a value with a span
they lie within that span, and those of an element of a list come before those of
the elements after it. -/
structure IsLaidOut (value : Value) (lo hi : Nat) : Prop where
  le : lo ≤ hi
  within : value.Within lo hi
  nested : ∀ inner outer, value.HasPart (.spanned inner outer) →
    inner.Within outer.start outer.stop
  ordered : ∀ elements, value.HasPart (.list elements) → elements.Pairwise Precedes

variable {value head part : Value} {values : List Value} {lo mid hi : Nat}

theorem Within.of_hasPart (h : value.Within lo hi) (inside : value.HasPart part) :
    part.Within lo hi :=
  fun inner span deeper => h inner span (inside.trans deeper)

/-- Spans on the two sides of an offset are in order. -/
theorem Within.precedes (h : head.Within lo mid) (h' : value.Within mid hi) :
    head.Precedes value := by
  intro inner span inner' span' first second
  obtain ⟨-, -, before⟩ := h inner span first
  obtain ⟨after, -, -⟩ := h' inner' span' second
  exact Nat.le_trans before after

theorem Precedes.parts {first second : Value} (h : head.Precedes value)
    (left : head.HasPart first) (right : value.HasPart second) : first.Precedes second :=
  fun inner span inner' span' some other =>
    h inner span inner' span' (left.trans some) (right.trans other)

namespace IsLaidOut

theorem unit (le : lo ≤ hi) : IsLaidOut .unit lo hi where
  le := le
  within _ _ inside := by cases inside
  nested _ _ inside := by cases inside
  ordered _ inside := by cases inside

theorem text (le : lo ≤ hi) (s : String) : IsLaidOut (.text s) lo hi where
  le := le
  within _ _ inside := by cases inside
  nested _ _ inside := by cases inside
  ordered _ inside := by cases inside

theorem nil (le : lo ≤ hi) : IsLaidOut (.list []) lo hi where
  le := le
  within _ _ inside := by
    cases inside with
    | list member _ => cases member
  nested _ _ inside := by
    cases inside with
    | list member _ => cases member
  ordered _ inside := by
    cases inside with
    | self => exact .nil
    | list member _ => cases member

/-- A value in front of others that are laid out from where it ends. -/
theorem cons (first : head.IsLaidOut lo mid) (rest : IsLaidOut (.list values) mid hi) :
    IsLaidOut (.list (head :: values)) lo hi where
  le := Nat.le_trans first.le rest.le
  within inner span inside := by
    cases inside with
    | list member deeper =>
      obtain rfl | member := List.mem_cons.1 member
      · obtain ⟨begins, between, ends⟩ := first.within inner span deeper
        exact ⟨begins, between, Nat.le_trans ends rest.le⟩
      · obtain ⟨begins, between, ends⟩ := rest.within inner span (.list member deeper)
        exact ⟨Nat.le_trans first.le begins, between, ends⟩
  nested inner outer inside := by
    cases inside with
    | list member deeper =>
      obtain rfl | member := List.mem_cons.1 member
      · exact first.nested inner outer deeper
      · exact rest.nested inner outer (.list member deeper)
  ordered elements inside := by
    cases inside with
    | self =>
      -- The head ends where the others begin, and they are in order themselves.
      refine List.pairwise_cons.2 ⟨?_, rest.ordered values .self⟩
      intro element member
      exact first.within.precedes (rest.within.of_hasPart (.list member .self))
    | list member deeper =>
      obtain rfl | member := List.mem_cons.1 member
      · exact first.ordered elements deeper
      · exact rest.ordered elements (.list member deeper)

/-- A value with the span over which it is laid out. -/
theorem spanned (h : value.IsLaidOut lo hi) (source : String) :
    IsLaidOut (.spanned value ⟨source, lo, hi⟩) lo hi where
  le := h.le
  within inner span inside := by
    cases inside with
    | self => exact ⟨Nat.le_refl lo, h.le, Nat.le_refl hi⟩
    | spanned deeper => exact h.within inner span deeper
  nested inner outer inside := by
    cases inside with
    | self => exact h.within
    | spanned deeper => exact h.nested inner outer deeper
  ordered elements inside := by
    cases inside with
    | spanned deeper => exact h.ordered elements deeper

/-- The values that are taken out of a tree stand in the order of the tree. -/
theorem pairwise_leaves (count : Nat)
    (h : ∀ elements, value.HasPart (.list elements) → elements.Pairwise Precedes) :
    (Parser.leaves count value).Pairwise Precedes := by
  fun_induction Parser.leaves count value with
  | case1 count value small => exact List.pairwise_singleton _ _
  | case2 count large first second ihFirst ihSecond =>
    have left : HasPart (.list [first, second]) first := .list List.mem_cons_self .self
    have right : HasPart (.list [first, second]) second :=
      .list (List.mem_cons_of_mem _ List.mem_cons_self) .self
    have inOrder : first.Precedes second := by
      have both := h [first, second] .self
      exact List.rel_of_pairwise_cons both List.mem_cons_self
    refine List.pairwise_append.2 ⟨?_, ?_, ?_⟩
    · exact ihFirst fun elements inside => h elements (left.trans inside)
    · exact ihSecond fun elements inside => h elements (right.trans inside)
    · intro one member other member'
      exact inOrder.parts (hasPart_of_mem_leaves member) (hasPart_of_mem_leaves member')
  | case3 count large value other => exact List.pairwise_singleton _ _

/-- The values that are taken out of a tree are laid out as the tree is. -/
theorem leaves (h : value.IsLaidOut lo hi) (count : Nat) :
    IsLaidOut (.list (Parser.leaves count value)) lo hi where
  le := h.le
  within inner span inside := by
    cases inside with
    | list member deeper => exact h.within inner span ((hasPart_of_mem_leaves member).trans deeper)
  nested inner outer inside := by
    cases inside with
    | list member deeper => exact h.nested inner outer ((hasPart_of_mem_leaves member).trans deeper)
  ordered elements inside := by
    cases inside with
    | self => exact pairwise_leaves count h.ordered
    | list member deeper =>
      exact h.ordered elements ((hasPart_of_mem_leaves member).trans deeper)

end IsLaidOut

end Value

/-- A success starts where it is run, and its value is laid out over what was read. -/
def Outcome.IsLaidOut (start : Nat) : Outcome Value → Prop
  | .success result => result.start = start ∧ result.value.IsLaidOut start result.stop
  | .failure _ | .fault _ => True

variable {rules : Rules} {input : String} {parser : Parser} {start calls : Nat}

theorem Outcome.isLaidOut_of_not_isSuccess {outcome : Outcome Value}
    (stops : ¬ outcome.IsSuccess) : outcome.IsLaidOut start := by
  cases outcome with
  | success result => exact absurd (isSuccess_success result) stops
  | failure reason => trivial
  | fault cause => trivial

/-- The values in a row are laid out one after the other. -/
theorem Row.isLaidOut {items : List Parser} {values : List Value} {stop : Nat}
    (row : Row (fun item start outcome _ => item.IsPlain → outcome.IsLaidOut start)
      items start values stop calls)
    (plain : ∀ item ∈ items, item.IsPlain) : Value.IsLaidOut (.list values) start stop := by
  induction row with
  | nil => exact .nil (Nat.le_refl _)
  | cons first _ ih =>
    obtain ⟨here, others⟩ := List.forall_mem_cons.1 plain
    obtain ⟨-, head⟩ := first here
    exact head.cons (ih others)

/-- The values of plain parsers are laid out, by induction on their derivations. A
span that an abandoned attempt has captured is in no value. -/
theorem Derives.isLaidOut {outcome : Outcome Value}
    (h : Derives rules input parser start outcome calls) (plain : parser.IsPlain)
    (plainRules : rules.ArePlain) : outcome.IsLaidOut start := by
  induction h with
  | literal_match | pattern_match => exact ⟨rfl, .text (Nat.le_add_right _ _) _⟩
  | literal_mismatch | pattern_mismatch | finish_before | alternate_nil | alternate_none
  | sequence_back | many_fault | many_later | many_stuck | capture_outside | map_fault => trivial
  | pure | finish_at => exact ⟨rfl, .unit (Nat.le_refl _)⟩
  | many_done => exact ⟨rfl, .nil (Nat.le_refl _)⟩
  | function => exact absurd plain id
  | sequence_all _ _ row =>
    exact ⟨rfl, (row.imp Exists.choose_spec).isLaidOut (Parser.everyOf_iff.1 plain)⟩
  | sequence_cut cut => exact Outcome.isLaidOut_of_not_isSuccess cut.not_isSuccess
  | capture_stop _ stops | map_stop _ stops => exact Outcome.isLaidOut_of_not_isSuccess stops
  | many_next _ _ _ ihFirst ihRest =>
    obtain ⟨-, first⟩ := ihFirst plain
    obtain ⟨-, rest⟩ := ihRest plain
    exact ⟨rfl, first.cons rest⟩
  | alternate_first _ _ ih => exact ih plain.1
  | alternate_next _ _ _ _ ih => exact ih plain.2
  | capture_within _ _ ih =>
    obtain ⟨origin, inner⟩ := ih plain
    obtain rfl := origin
    exact ⟨rfl, inner.spanned _⟩
  | map_value _ changed ih =>
    obtain ⟨⟨count, flatten⟩, plain⟩ := plain
    obtain ⟨origin, inner⟩ := ih plain
    rw [flatten] at changed
    cases changed
    exact ⟨origin, inner.leaves count⟩
  | rule found _ ih => exact ih (plainRules _ _ found)

/-! ### Values that tile what was read -/

/-- Values with spans that cover what lies between two offsets: each span begins
where the one before it ends. -/
inductive Tiles : List Value → Nat → Nat → Prop
  | nil {offset : Nat} : Tiles [] offset offset
  | cons {inner : Value} {values : List Value} {stop : Nat} (span : Span)
      (rest : Tiles values span.stop stop) :
      Tiles (.spanned inner span :: values) span.start stop

/-- The value of a captured parser carries the span from where it was run to where it ended. -/
theorem Derives.exists_spanned {item : Parser} {result : Success Value}
    (h : Derives rules input (.capture item) start (.success result) calls)
    (plain : item.IsPlain) (plainRules : rules.ArePlain) :
    ∃ inner, result.value = .spanned inner ⟨input, start, result.stop⟩ := by
  cases h with
  | capture_within inner _ =>
    obtain ⟨rfl, -⟩ := inner.isLaidOut plain plainRules
    exact ⟨_, rfl⟩
  | capture_stop _ stops => exact absurd (Outcome.isSuccess_success result) stops

theorem tiles_of_many {item : Parser} {values : List Value} {origin stop : Nat}
    (h : Derives rules input (.many (.capture item)) start
      (.success ⟨.list values, origin, stop⟩) calls)
    (plain : item.IsPlain) (plainRules : rules.ArePlain) : Tiles values start stop := by
  induction values generalizing start origin calls with
  | nil =>
    cases h
    exact .nil
  | cons value values ih =>
    cases h with
    | many_next first _ rest =>
      obtain ⟨inner, spanned⟩ := first.exists_spanned plain plainRules
      rw [spanned]
      exact .cons ⟨input, start, _⟩ (ih rest)

theorem tiles_of_row {items : List Parser} {values : List Value} {stop : Nat}
    (h : Row (Derives rules input) (items.map .capture) start values stop calls)
    (plain : ∀ item ∈ items, item.IsPlain) (plainRules : rules.ArePlain) :
    Tiles values start stop := by
  induction items generalizing values start calls with
  | nil =>
    cases h
    exact .nil
  | cons item items ih =>
    obtain ⟨plain, plainRest⟩ := List.forall_mem_cons.1 plain
    cases h with
    | cons first rest =>
      obtain ⟨inner, spanned⟩ := first.exists_spanned plain plainRules
      rw [spanned]
      exact .cons ⟨input, start, _⟩ (ih rest plainRest)

theorem tiles_of_runAt_many {item : Parser} {result : Success Value}
    (h : (Parser.many (.capture item)).runAt rules input start = some ⟨.success result, calls⟩)
    (plain : item.IsPlain) (plainRules : rules.ArePlain) :
    ∃ values, result.value = .list values ∧ Tiles values start result.stop := by
  obtain ⟨value, origin, stop⟩ := result
  have derived := derives_of_runAt h
  obtain ⟨values, listed⟩ := derived.exists_list_of_many
  obtain rfl : value = .list values := listed
  exact ⟨values, rfl, tiles_of_many derived plain plainRules⟩

theorem tiles_of_runAt_sequence {items : List Parser} {result : Success Value}
    (h : (Parser.sequence (items.map .capture)).runAt rules input start =
      some ⟨.success result, calls⟩)
    (plain : ∀ item ∈ items, item.IsPlain) (plainRules : rules.ArePlain) :
    ∃ values, result.value = .list values ∧ Tiles values start result.stop := by
  obtain ⟨values, same, -, row⟩ := (derives_of_runAt h).row_of_sequence
  exact ⟨values, congrArg Success.value same, tiles_of_row row plain plainRules⟩

/-- A sequence of any number of captured parsers but none tiles what it reads. A
single one is no sequence, but its value is put into a list as well. -/
theorem tiles_of_runAt_seqAll {items : List Parser} {result : Success Value}
    (h : (Parser.seqAll (items.map .capture)).runAt rules input start =
      some ⟨.success result, calls⟩) (nonempty : items ≠ [])
    (plain : ∀ item ∈ items, item.IsPlain) (plainRules : rules.ArePlain) :
    ∃ values, result.value = .list values ∧ Tiles values start result.stop := by
  match items with
  | [] => exact absurd rfl nonempty
  | [item] =>
    rw [List.map_singleton, Parser.seqAll_one] at h
    cases derives_of_runAt h with
    | map_value inner changed =>
      cases changed
      obtain ⟨value, spanned⟩ := inner.exists_spanned (plain item List.mem_cons_self) plainRules
      dsimp only at spanned
      rw [spanned]
      exact ⟨_, rfl, .cons ⟨input, start, _⟩ .nil⟩
    | map_stop _ stops => exact absurd (Outcome.isSuccess_success _) stops
  | first :: second :: rest =>
    have two : 2 ≤ ((first :: second :: rest).map Parser.capture).length := by simp
    exact tiles_of_runAt_sequence (Parser.runAt_sequence_of_seqAll two h) plain plainRules

/-- **Spans are nested and ordered.** In the value of a successful run of a parser
without functions of a user, every span lies within what was read, every span
inside a value with a span lies within that span, and in every list the spans of
one element end before those of a later element begin. The values of a repetition
or a sequence of captured parsers tile what was read. -/
theorem runAt_spans_nested {result : Success Value} (plain : parser.IsPlain)
    (plainRules : rules.ArePlain)
    (h : parser.runAt rules input start = some ⟨.success result, calls⟩) :
    (∀ inner span, result.value.HasPart (.spanned inner span) →
      result.start ≤ span.start ∧ span.start ≤ span.stop ∧ span.stop ≤ result.stop) ∧
    (∀ inner outer, result.value.HasPart (.spanned inner outer) →
      ∀ value span, inner.HasPart (.spanned value span) →
        outer.start ≤ span.start ∧ span.stop ≤ outer.stop) ∧
    (∀ elements, result.value.HasPart (.list elements) → elements.Pairwise Value.Precedes) ∧
    (∀ item, parser = .many (.capture item) →
      ∃ values, result.value = .list values ∧ Tiles values start result.stop) ∧
    ∀ items, parser = .sequence (items.map .capture) ∨
        parser = .seqAll (items.map .capture) ∧ items ≠ [] →
      ∃ values, result.value = .list values ∧ Tiles values start result.stop := by
  have laid : Outcome.IsLaidOut start (.success result) :=
    (derives_of_runAt h).isLaidOut plain plainRules
  obtain ⟨begins, laid⟩ := laid
  refine ⟨?_, ?_, laid.ordered, ?_, ?_⟩
  · rw [begins]
    exact laid.within
  · intro inner outer outside value span inside
    obtain ⟨after, -, before⟩ := laid.nested inner outer outside value span inside
    exact ⟨after, before⟩
  · rintro item rfl
    exact tiles_of_runAt_many h plain plainRules
  · rintro items (rfl | ⟨rfl, nonempty⟩)
    · have each : ∀ item ∈ items.map Parser.capture, item.IsPlain := Parser.everyOf_iff.1 plain
      exact tiles_of_runAt_sequence h
        (fun item member => each (.capture item) (List.mem_map_of_mem member)) plainRules
    · have each : ∀ item ∈ items.map Parser.capture, item.IsPlain :=
        Parser.forall_every_of_seqAll plain
      exact tiles_of_runAt_seqAll h nonempty
        (fun item member => each (.capture item) (List.mem_map_of_mem member)) plainRules

/-- Letters with spans, repeated inside a sequence of captured parsers: the spans of
the letters lie within the span of their repetition, and the spans of the sequence
tile what was read. -/
theorem runAt_spans_nested_letters :
    (Parser.sequence ([.many (.capture (.literal "é")), .literal "z"].map .capture)).runAt
        [] "aééz" 1 =
      some ⟨.success ⟨.list [
        .spanned (.list [.spanned (.text "é") ⟨"aééz", 1, 3⟩,
          .spanned (.text "é") ⟨"aééz", 3, 5⟩]) ⟨"aééz", 1, 5⟩,
        .spanned (.text "z") ⟨"aééz", 5, 6⟩], 1, 6⟩, 0⟩ ∧
    (Value.spanned (.text "é") ⟨"aééz", 1, 3⟩).Precedes
      (.spanned (.text "é") ⟨"aééz", 3, 5⟩) ∧
    Tiles [.spanned (.list [.spanned (.text "é") ⟨"aééz", 1, 3⟩,
        .spanned (.text "é") ⟨"aééz", 3, 5⟩]) ⟨"aééz", 1, 5⟩,
      .spanned (.text "z") ⟨"aééz", 5, 6⟩] 1 6 := by
  have one : (Parser.capture (.literal "é")).runAt [] "aééz" 1 =
      some ⟨.success ⟨.spanned (.text "é") ⟨"aééz", 1, 3⟩, 1, 3⟩, 0⟩ := rfl
  have two : (Parser.capture (.literal "é")).runAt [] "aééz" 3 =
      some ⟨.success ⟨.spanned (.text "é") ⟨"aééz", 3, 5⟩, 3, 5⟩, 0⟩ := rfl
  have three : (Parser.capture (.literal "é")).runAt [] "aééz" 5 =
      some ⟨.failure (.expected "é" 5), 0⟩ := rfl
  have letters : (Parser.capture (.many (.capture (.literal "é")))).runAt [] "aééz" 1 =
      some ⟨.success ⟨.spanned (.list [.spanned (.text "é") ⟨"aééz", 1, 3⟩,
        .spanned (.text "é") ⟨"aééz", 3, 5⟩]) ⟨"aééz", 1, 5⟩, 1, 5⟩, 0⟩ := by
    rw [Parser.runAt_capture, Parser.runAt_many, Step.iterate_success one (by decide),
      Step.iterate_success two (by decide), Step.iterate_failure three]
    rfl
  have run : (Parser.sequence ([.many (.capture (.literal "é")), .literal "z"].map
      .capture)).runAt [] "aééz" 1 =
        some ⟨.success ⟨.list [
          .spanned (.list [.spanned (.text "é") ⟨"aééz", 1, 3⟩,
            .spanned (.text "é") ⟨"aééz", 3, 5⟩]) ⟨"aééz", 1, 5⟩,
          .spanned (.text "z") ⟨"aééz", 5, 6⟩], 1, 6⟩, 0⟩ := by
    rw [Parser.runAt_sequence, Step.inOrder]
    simp only [List.map_cons, Step.row_cons_success letters]
    rfl
  have plain : (Parser.sequence ([.many (.capture (.literal "é")), .literal "z"].map
      .capture)).IsPlain := ⟨trivial, trivial, trivial⟩
  have plainRules : Rules.ArePlain [] := nofun
  obtain ⟨-, -, ordered, -, tiles⟩ := runAt_spans_nested plain plainRules run
  have letters := ordered _ (.list List.mem_cons_self (.spanned .self))
  obtain ⟨values, same, tiles⟩ := tiles [.many (.capture (.literal "é")), .literal "z"] (.inl rfl)
  obtain rfl := Value.list.inj same
  exact ⟨run, List.rel_of_pairwise_cons letters List.mem_cons_self, tiles⟩

end Peg
