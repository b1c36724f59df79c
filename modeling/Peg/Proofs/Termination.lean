import Mathlib.Logic.Relation
import Mathlib.Order.WellFoundedSet
import Peg.Proofs.Items
import Peg.Proofs.Progress

/-!
# Grammars whose runs end

A reference leads to its rule at the place where it stands. A grammar whose
references can come back to a rule at one and the same place runs for ever, and
so does a repetition that stands still, but for the check that breaks it down.
Neither can happen where rules are not left-recursive and every repeated parser
is consuming.

The run of a parser then depends on runs at later places, on rules that it
refers to where it starts, and on its own parts, in this order of precedence.

## Main definitions

* `Parser.LeftRefers`: the references that a parser may follow before it moves.
* `Parser.IsWellFormed`, `Rules.IsWellFormed`: grammars without left recursion
  and without repetitions that can stand still.
* `Settles`: a run ends with a success or a failure.

## Main results

* `Parser.leftRefers_seqAll_iff`, `Parser.leftRefers_altAll_iff`: sequences and
  choices of any number of parsers refer to what the flat ones refer to.
* `Settles.of_left`: a parser settles if what it refers to at once does, and
  everything further on.
* `runAt_settles`: runs of well-formed grammars succeed or fail.
-/

namespace Peg

namespace Parser

/-- The rules that a parser may refer to at the place where it starts. A
sequence gets to an item only past items that may read nothing. -/
inductive LeftRefers : Parser → String → Prop
  | rule {name : String} : LeftRefers (.rule name) name
  | many {item : Parser} {name : String} (inner : LeftRefers item name) :
      LeftRefers (.many item) name
  | capture {item : Parser} {name : String} (inner : LeftRefers item name) :
      LeftRefers (.capture item) name
  | map {item : Parser} {change : Value → Except Fault Value} {name : String}
      (inner : LeftRefers item name) : LeftRefers (.map item change) name
  | alternate {items : List Parser} {item : Parser} {name : String} (member : item ∈ items)
      (inner : LeftRefers item name) : LeftRefers (.alternate items) name
  | sequence_head {item : Parser} {items : List Parser} {name : String}
      (first : LeftRefers item name) : LeftRefers (.sequence (item :: items)) name
  | sequence_tail {item : Parser} {items : List Parser} {name : String}
      (stays : ¬ item.IsConsuming) (rest : LeftRefers (.sequence items) name) :
      LeftRefers (.sequence (item :: items)) name

/-- A parser without functions of a user but for changes that always have a
value. Its references are to rules of the table, and what it repeats is consuming. -/
inductive IsWellFormed (rules : Rules) : Parser → Prop
  | literal {text : String} : IsWellFormed rules (.literal text)
  | pattern {regex : Pattern} : IsWellFormed rules (.pattern regex)
  | pure : IsWellFormed rules .pure
  | finish : IsWellFormed rules .finish
  | many {item : Parser} (inner : IsWellFormed rules item) (consuming : item.IsConsuming) :
      IsWellFormed rules (.many item)
  | sequence {items : List Parser} (inner : ∀ item ∈ items, IsWellFormed rules item) :
      IsWellFormed rules (.sequence items)
  | alternate {items : List Parser} (inner : ∀ item ∈ items, IsWellFormed rules item) :
      IsWellFormed rules (.alternate items)
  | capture {item : Parser} (inner : IsWellFormed rules item) : IsWellFormed rules (.capture item)
  | map {item : Parser} {change : Value → Except Fault Value} (inner : IsWellFormed rules item)
      (total : ∀ value, ∃ changed, change value = .ok changed) :
      IsWellFormed rules (.map item change)
  | rule {name : String} {target : Parser} (found : rules.parser? name = some target) :
      IsWellFormed rules (.rule name)

end Parser

/-- The rules that a rule may refer to at the place where it starts. -/
def Rules.LeftRefers (rules : Rules) (name target : String) : Prop :=
  ∃ parser, rules.parser? name = some parser ∧ parser.LeftRefers target

/-- Every rule is well formed, and none of them leads back to itself at the place
where it starts. -/
structure Rules.IsWellFormed (rules : Rules) : Prop where
  parsers : ∀ name parser, rules.parser? name = some parser → parser.IsWellFormed rules
  acyclic : ∀ name, ¬ Relation.TransGen rules.LeftRefers name name

variable {rules : Rules} {input : String}

/-! ### Well-formed parsers -/

namespace Parser

variable {parser item : Parser} {items : List Parser} {name : String}

theorem IsWellFormed.isFunctionFree (h : parser.IsWellFormed rules) : parser.IsFunctionFree := by
  induction h with
  | literal | pattern | pure | finish | rule _ => exact trivial
  | many _ _ ih => exact ih
  | capture _ ih => exact ih
  | map _ _ ih => exact ⟨trivial, ih⟩
  | sequence _ ih => exact everyOf_iff.2 ih
  | alternate _ ih => exact everyOf_iff.2 ih

theorem IsWellFormed.seqAll (h : ∀ item ∈ items, item.IsWellFormed rules) :
    (Parser.seqAll items).IsWellFormed rules :=
  seqAll_of_forall .pure (fun first second => .sequence (by simp [first, second]))
    (fun _ each => .map each fun _ => ⟨_, rfl⟩) h

theorem IsWellFormed.altAll (h : ∀ item ∈ items, item.IsWellFormed rules) :
    (Parser.altAll items).IsWellFormed rules :=
  altAll_of_forall (.alternate nofun) (fun first second => .alternate (by simp [first, second])) h

/-! ### References that are followed at once -/

@[simp]
theorem not_leftRefers_literal {text : String} : ¬ (Parser.literal text).LeftRefers name := nofun

@[simp]
theorem leftRefers_rule_iff {target : String} :
    (Parser.rule name).LeftRefers target ↔ target = name := by
  constructor
  · rintro ⟨⟩
    rfl
  · rintro rfl
    exact .rule

@[simp]
theorem leftRefers_many_iff : (Parser.many item).LeftRefers name ↔ item.LeftRefers name := by
  constructor
  · rintro (_ | inner)
    exact inner
  · exact .many

@[simp]
theorem leftRefers_capture_iff : (Parser.capture item).LeftRefers name ↔ item.LeftRefers name := by
  constructor
  · rintro (_ | _ | inner)
    exact inner
  · exact .capture

@[simp]
theorem leftRefers_map_iff {change : Value → Except Fault Value} :
    (Parser.map item change).LeftRefers name ↔ item.LeftRefers name := by
  constructor
  · rintro (_ | _ | _ | inner)
    exact inner
  · exact .map

@[simp]
theorem leftRefers_alternate_iff :
    (Parser.alternate items).LeftRefers name ↔ ∃ item ∈ items, item.LeftRefers name := by
  constructor
  · rintro (_ | _ | _ | _ | ⟨member, inner⟩)
    exact ⟨_, member, inner⟩
  · rintro ⟨item, member, inner⟩
    exact .alternate member inner

@[simp]
theorem not_leftRefers_sequence_nil : ¬ (Parser.sequence []).LeftRefers name := nofun

@[simp]
theorem leftRefers_sequence_cons_iff :
    (Parser.sequence (item :: items)).LeftRefers name ↔
      item.LeftRefers name ∨ ¬ item.IsConsuming ∧ (Parser.sequence items).LeftRefers name := by
  constructor
  · rintro (_ | _ | _ | _ | _ | first | ⟨stays, rest⟩)
    · exact .inl first
    · exact .inr ⟨stays, rest⟩
  · rintro (first | ⟨stays, rest⟩)
    · exact .sequence_head first
    · exact .sequence_tail stays rest

theorem leftRefers_sequence_append_iff {later : List Parser} :
    (Parser.sequence (items ++ later)).LeftRefers name ↔
      (Parser.sequence items).LeftRefers name ∨
        (∀ item ∈ items, ¬ item.IsConsuming) ∧ (Parser.sequence later).LeftRefers name := by
  induction items with
  | nil => simp
  | cons item items ih =>
    simp only [List.cons_append, leftRefers_sequence_cons_iff, ih, List.forall_mem_cons]
    tauto

/-- A sequence of any number of parsers refers to what the flat sequence refers to. -/
theorem leftRefers_seqAll_iff :
    (seqAll items).LeftRefers name ↔ (Parser.sequence items).LeftRefers name := by
  by_cases empty : items = []
  · subst empty
    constructor <;> exact nofun
  · rw [seqAll, if_neg (by simpa using empty), leftRefers_map_iff]
    -- Whether the second half is reached depends on what the first half may read.
    refine (halved_induction (motive := fun items tree =>
      (tree.IsConsuming ↔ ∃ item ∈ items, item.IsConsuming) ∧
        (tree.LeftRefers name ↔ (Parser.sequence items).LeftRefers name)) ?_ ?_ empty).2
    · intro item
      simp
    · rintro before after first second - - - ⟨reads, left⟩ ⟨reads', right⟩
      constructor
      · simp [isConsuming_seq_iff, reads, reads', or_and_right, exists_or]
      · simp [seq, leftRefers_sequence_append_iff, left, right, reads]

/-- A choice among any number of parsers refers to what its items refer to. -/
theorem leftRefers_altAll_iff :
    (altAll items).LeftRefers name ↔ ∃ item ∈ items, item.LeftRefers name := by
  by_cases empty : items = []
  · subst empty
    simp [altAll, halved]
  · refine halved_induction (motive := fun items tree =>
      tree.LeftRefers name ↔ ∃ item ∈ items, item.LeftRefers name) (fun item => by simp) ?_ empty
    intro before after first second _ _ _ left right
    simp [Parser.or, left, right, or_and_right, exists_or]

end Parser

/-- Rules do not lead back to themselves if each leads on to rules of lower rank. -/
theorem Rules.IsWellFormed.of_rank (rank : String → Nat)
    (formed : ∀ row ∈ rules, row.2.IsWellFormed rules)
    (lower : ∀ row ∈ rules, ∀ target, row.2.LeftRefers target → rank target < rank row.1) :
    rules.IsWellFormed where
  parsers _ _ found := formed _ (Rules.mem_of_parser?_eq_some found)
  acyclic name cycle := by
    have step : ∀ name target, rules.LeftRefers name target → rank target < rank name := by
      rintro name target ⟨parser, found, refers⟩
      exact lower _ (Rules.mem_of_parser?_eq_some found) target refers
    have descends : ∀ target, Relation.TransGen rules.LeftRefers name target →
        rank target < rank name := by
      intro target path
      induction path with
      | single refers => exact step _ _ refers
      | tail _ refers ih => exact (step _ _ refers).trans ih
    exact Nat.lt_irrefl _ (descends name cycle)

theorem Rules.IsWellFormed.areFunctionFree (h : rules.IsWellFormed) : rules.AreFunctionFree :=
  fun name parser found => (h.parsers name parser found).isFunctionFree

/-- What holds of a rule if it holds of the rules that this one refers to at once,
holds of every rule. -/
theorem Rules.IsWellFormed.induction (h : rules.IsWellFormed) {motive : Parser → Prop}
    (step : ∀ parser, parser.IsWellFormed rules →
      (∀ name target, parser.LeftRefers name → rules.parser? name = some target → motive target) →
        motive parser)
    {name : String} {parser : Parser} (found : rules.parser? name = some parser) :
    motive parser := by
  -- The table is finite, so that paths of references without cycles cannot go on for ever.
  let names : Set String := {name | ∃ parser, rules.parser? name = some parser}
  have finite : names.Finite := by
    refine (List.finite_toSet (rules.map (·.1))).subset ?_
    rintro name ⟨parser, found⟩
    exact List.mem_map.2 ⟨_, Rules.mem_of_parser?_eq_some found, rfl⟩
  have wellFounded : names.WellFoundedOn fun target name =>
      Relation.TransGen rules.LeftRefers name target := by
    have order : IsStrictOrder String fun target name =>
        Relation.TransGen rules.LeftRefers name target :=
      { irrefl := h.acyclic
        trans := fun _ _ _ second first => first.trans second }
    exact finite.wellFoundedOn
  refine wellFounded.induction (P := fun name => ∀ parser, rules.parser? name = some parser →
    motive parser) ⟨parser, found⟩ ?_ parser found
  rintro name - ih parser found
  refine step parser (h.parsers name parser found) fun target other refers found' => ?_
  exact ih target ⟨other, found'⟩ (.single ⟨parser, found, refers⟩) other found'

/-! ### Runs that end -/

/-- The run of a parser succeeds or fails. -/
def Settles (rules : Rules) (input : String) (parser : Parser) (start : Nat) : Prop :=
  (∃ result calls, Derives rules input parser start (.success result) calls) ∨
    ∃ reason calls, Derives rules input parser start (.failure reason) calls

theorem settles_iff {parser : Parser} {start : Nat} :
    Settles rules input parser start ↔
      Succeeds rules input parser start ∨ Fails rules input parser start := by
  constructor
  · rintro (⟨result, calls, run⟩ | ⟨reason, calls, run⟩)
    · exact .inl ⟨result, calls, run.runAt_eq⟩
    · exact .inr ⟨reason, calls, run.runAt_eq⟩
  · rintro (⟨result, calls, run⟩ | ⟨reason, calls, run⟩)
    · exact .inl ⟨result, calls, derives_of_runAt run⟩
    · exact .inr ⟨reason, calls, derives_of_runAt run⟩

namespace Settles

variable {parser item : Parser} {items : List Parser} {start : Nat}

/-- A run that ends settles if it cannot break down. -/
theorem of_runAt {reply : Reply Value} (h : parser.runAt rules input start = some reply)
    (sound : ∀ cause calls, ¬ Derives rules input parser start (.fault cause) calls) :
    Settles rules input parser start := by
  have run := derives_of_runAt h
  cases ends : reply.outcome with
  | success result => exact .inl ⟨result, _, ends ▸ run⟩
  | failure reason => exact .inr ⟨reason, _, ends ▸ run⟩
  | fault cause => exact absurd (ends ▸ run) (sound cause _)

theorem sequence_cons (first : Settles rules input item start)
    (rest : ∀ head calls, Derives rules input item start (.success head) calls →
      start ≤ head.stop ∧ Settles rules input (.sequence items) head.stop) :
    Settles rules input (.sequence (item :: items)) start := by
  obtain ⟨head, calls, first⟩ | ⟨reason, calls, first⟩ := first
  · obtain ⟨forward, ⟨result, _, tail⟩ | ⟨reason, _, tail⟩⟩ := rest head calls first
    · obtain ⟨value, origin, stop⟩ := result
      obtain ⟨values, same⟩ := tail.exists_list_of_sequence
      subst same
      exact .inl ⟨_, _, .sequence_next first forward tail⟩
    · exact .inr ⟨_, _, .sequence_later first tail⟩
  · exact .inr ⟨_, _, .sequence_stop first (Outcome.not_isSuccess_failure _)⟩

theorem alternate_cons (first : Settles rules input item start)
    (rest : Settles rules input (.alternate items) start) :
    Settles rules input (.alternate (item :: items)) start := by
  obtain ⟨head, calls, first⟩ | ⟨reason, calls, first⟩ := first
  · exact .inl ⟨_, _, .alternate_first first (Outcome.not_isFailure_success _)⟩
  · obtain ⟨result, _, tail⟩ | ⟨reason', _, tail⟩ := rest
    · exact .inl ⟨_, _, .alternate_next first tail (Outcome.not_isFailure_success _)⟩
    · exact .inr ⟨_, _, .alternate_none first tail⟩

theorem many (first : Settles rules input item start)
    (rest : ∀ head calls, Derives rules input item start (.success head) calls →
      start < head.stop ∧ Settles rules input (.many item) head.stop) :
    Settles rules input (.many item) start := by
  obtain ⟨head, calls, first⟩ | ⟨reason, calls, first⟩ := first
  · obtain ⟨forward, ⟨result, _, tail⟩ | ⟨reason, _, tail⟩⟩ := rest head calls first
    · obtain ⟨value, origin, stop⟩ := result
      obtain ⟨values, same⟩ := tail.exists_list_of_many
      subst same
      exact .inl ⟨_, _, .many_next first forward tail⟩
    · exact absurd tail not_derives_many_failure
  · exact .inl ⟨_, _, .many_done first⟩

theorem capture (inner : Settles rules input item start)
    (within : ∀ result calls, Derives rules input item start (.success result) calls →
      result.stop ≤ input.utf8ByteSize) : Settles rules input (.capture item) start := by
  obtain ⟨result, calls, inner⟩ | ⟨reason, calls, inner⟩ := inner
  · have ends := within result calls inner
    obtain ⟨value, origin, stop⟩ := result
    exact .inl ⟨_, _, .capture_within inner ⟨inner.isOrdered, ends⟩⟩
  · exact .inr ⟨_, _, .capture_stop inner (Outcome.not_isSuccess_failure _)⟩

theorem map {change : Value → Except Fault Value} (inner : Settles rules input item start)
    (total : ∀ value, ∃ changed, change value = .ok changed) :
    Settles rules input (.map item change) start := by
  obtain ⟨⟨value, origin, stop⟩, calls, inner⟩ | ⟨reason, calls, inner⟩ := inner
  · obtain ⟨changed, same⟩ := total value
    exact .inl ⟨_, _, .map_value inner same⟩
  · exact .inr ⟨_, _, .map_stop inner (Outcome.not_isSuccess_failure _)⟩

theorem rule {name : String} (found : rules.parser? name = some parser)
    (inner : Settles rules input parser start) : Settles rules input (.rule name) start := by
  obtain ⟨result, calls, inner⟩ | ⟨reason, calls, inner⟩ := inner
  · exact .inl ⟨_, _, .rule found inner⟩
  · exact .inr ⟨_, _, .rule found inner⟩

theorem alternate_of_forall (each : ∀ item ∈ items, Settles rules input item start) :
    Settles rules input (.alternate items) start := by
  induction items with
  | nil => exact .inr ⟨_, _, .alternate_nil⟩
  | cons item items ih =>
    obtain ⟨first, rest⟩ := List.forall_mem_cons.1 each
    exact first.alternate_cons (ih rest)

end Settles

/-- Every well-formed parser settles further on in the input. -/
def SettleLater (rules : Rules) (input : String) (start : Nat) : Prop :=
  ∀ parser stop, parser.IsWellFormed rules → start < stop → stop ≤ input.utf8ByteSize →
    Settles rules input parser stop

/-- The rules that a parser refers to at once settle where it starts. -/
def LeftSettle (rules : Rules) (input : String) (parser : Parser) (start : Nat) : Prop :=
  ∀ name target, parser.LeftRefers name → rules.parser? name = some target →
    Settles rules input target start

section Left

variable {parser : Parser} {items : List Parser} {start : Nat}

/-- A sequence settles if its items do where it starts. An item is run there only
if what comes before it may read nothing, and else further on. -/
theorem Settles.sequence_of_left (formed : ∀ item ∈ items, item.IsWellFormed rules)
    (ownRules : rules.AreFunctionFree) (within : start ≤ input.utf8ByteSize)
    (later : SettleLater rules input start)
    (each : ∀ item ∈ items, LeftSettle rules input item start → Settles rules input item start)
    (left : LeftSettle rules input (.sequence items) start) :
    Settles rules input (.sequence items) start := by
  induction items with
  | nil => exact .inl ⟨_, _, .sequence_nil⟩
  | cons item items ih =>
    obtain ⟨formedFirst, formedRest⟩ := List.forall_mem_cons.1 formed
    obtain ⟨first, rest⟩ := List.forall_mem_cons.1 each
    have head := first fun name target refers => left name target (.sequence_head refers)
    refine head.sequence_cons fun result calls run => ?_
    obtain ⟨le, stop⟩ := run.le_stop formedFirst.isFunctionFree ownRules within
    refine ⟨le, ?_⟩
    obtain forward | stays := Nat.lt_or_eq_of_le le
    · exact later _ _ (.sequence formedRest) forward stop
    · have empty : ¬ item.IsConsuming := fun consuming =>
        Nat.ne_of_lt (run.forward formedFirst.isFunctionFree ownRules within consuming rfl) stays
      rw [← stays]
      exact ih formedRest rest fun name target refers =>
        left name target (.sequence_tail empty refers)

/-- A parser settles if the rules do that it refers to at once, and if everything
does further on. -/
theorem Settles.of_left (formed : parser.IsWellFormed rules) (ownRules : rules.AreFunctionFree)
    (within : start ≤ input.utf8ByteSize) (later : SettleLater rules input start)
    (left : LeftSettle rules input parser start) : Settles rules input parser start := by
  induction formed with
  | literal => exact of_runAt (Parser.runAt_literal _) nofun
  | pattern => exact of_runAt (Parser.runAt_pattern _) nofun
  | finish => exact of_runAt Parser.runAt_finish nofun
  | pure => exact .inl ⟨_, _, .pure⟩
  | sequence inner ih => exact sequence_of_left inner ownRules within later ih left
  | alternate inner ih =>
    refine alternate_of_forall fun item member => ih item member ?_
    exact fun name target refers => left name target (.alternate member refers)
  | many inner consuming ih =>
    have first := ih fun name target refers => left name target (.many refers)
    -- A round reads, so what comes after it comes further on.
    refine first.many fun head calls run => ?_
    have forward := run.forward inner.isFunctionFree ownRules within consuming rfl
    obtain ⟨-, stop⟩ := run.le_stop inner.isFunctionFree ownRules within
    exact ⟨forward, later _ _ (.many inner consuming) forward stop⟩
  | capture inner ih =>
    have item := ih fun name target refers => left name target (.capture refers)
    refine item.capture fun result calls run => ?_
    exact (run.le_stop inner.isFunctionFree ownRules within).2
  | map inner total ih =>
    have item := ih fun name target refers => left name target (.map refers)
    exact item.map total
  | rule found => exact (left _ _ .rule found).rule found

/-- Well-formed parsers settle wherever they start. Further on there is less of the
input left, and at one place a rule refers to rules before it. -/
theorem Settles.of_isWellFormed (formed : parser.IsWellFormed rules)
    (formedRules : rules.IsWellFormed) (within : start ≤ input.utf8ByteSize) :
    Settles rules input parser start := by
  -- The induction is on what is left of the input. A rule may refer to others at the
  -- place where it starts, which is the second induction, on the order of the rules.
  induction left : input.utf8ByteSize - start using Nat.strong_induction_on
    generalizing parser start with
  | h remaining ih =>
    have later : SettleLater rules input start := fun other stop formed forward within =>
      ih (input.utf8ByteSize - stop) (by omega) formed within rfl
    refine of_left formed formedRules.areFunctionFree within later fun name target _ found => ?_
    refine formedRules.induction (motive := fun target => Settles rules input target start) ?_ found
    intro target formed refers
    exact of_left formed formedRules.areFunctionFree within later refers

/-- **Termination.** The runs of a well-formed grammar succeed or fail, from every
place within the input. None of them breaks down, and none goes on for ever. -/
theorem runAt_settles (formed : parser.IsWellFormed rules) (formedRules : rules.IsWellFormed)
    (within : start ≤ input.utf8ByteSize) :
    (∃ result calls, parser.runAt rules input start = some ⟨.success result, calls⟩) ∨
      ∃ reason calls, parser.runAt rules input start = some ⟨.failure reason, calls⟩ := by
  obtain ⟨result, calls, run⟩ | ⟨reason, calls, run⟩ :=
    Settles.of_isWellFormed formed formedRules within
  · exact .inl ⟨result, calls, run.runAt_eq⟩
  · exact .inr ⟨reason, calls, run.runAt_eq⟩

end Left

/-- Sums of `x`, with parentheses. -/
def sumRules : Rules :=
  [("sum", .seqAll [.rule "item", .many (.seqAll [.literal "+", .rule "item"])]),
    ("item", .capture (.altAll [.literal "x",
      .sequence [.literal "(", .rule "sum", .literal ")"]]))]

/-- The grammar of sums leads back to itself past a parenthesis alone, so sums settle. -/
theorem runAt_settles_sum :
    (Parser.rule "sum").IsWellFormed sumRules ∧ sumRules.IsWellFormed ∧
      ((∃ result calls, (Parser.rule "sum").runAt sumRules "(x+x)+é" 0 =
          some ⟨.success result, calls⟩) ∨
        ∃ reason calls, (Parser.rule "sum").runAt sumRules "(x+x)+é" 0 =
          some ⟨.failure reason, calls⟩) := by
  have sum : (Parser.rule "sum").IsWellFormed sumRules := by
    obtain ⟨target, found⟩ : ∃ target, sumRules.parser? "sum" = some target := ⟨_, rfl⟩
    exact .rule found
  have item : (Parser.rule "item").IsWellFormed sumRules := by
    obtain ⟨target, found⟩ : ∃ target, sumRules.parser? "item" = some target := ⟨_, rfl⟩
    exact .rule found
  have more : (Parser.many (.seqAll [.literal "+", .rule "item"])).IsWellFormed sumRules := by
    refine .many (.seqAll (by simp [item, Parser.IsWellFormed.literal])) ?_
    exact Parser.isConsuming_seqAll_iff.2 ⟨.literal "+", by simp, .literal (by decide)⟩
  have group : (Parser.sequence [.literal "(", .rule "sum", .literal ")"]).IsWellFormed sumRules :=
    .sequence (by simp [sum, Parser.IsWellFormed.literal])
  have sumParser := Parser.IsWellFormed.seqAll
    (List.forall_mem_cons.2 ⟨item, List.forall_mem_singleton.2 more⟩)
  have letter : (Parser.literal "x").IsWellFormed sumRules := .literal
  have itemParser := Parser.IsWellFormed.altAll
    (List.forall_mem_cons.2 ⟨letter, List.forall_mem_singleton.2 group⟩)
  have formed : sumRules.IsWellFormed := by
    refine .of_rank (fun name => if name = "sum" then 1 else 0) ?_ ?_
    · exact List.forall_mem_cons.2 ⟨sumParser, List.forall_mem_singleton.2 itemParser.capture⟩
    · simp [sumRules, Parser.leftRefers_seqAll_iff, Parser.leftRefers_altAll_iff,
        Parser.isConsuming_literal_iff]
  exact ⟨sum, formed, runAt_settles sum formed (by decide)⟩

end Peg
