import Peg.Pattern
import Peg.Value

/-!
# Parsers

A parser is a tree of primitive parsers and combinators. Parsers may refer to
rules by name, so that grammars can be recursive.

## Main definitions

* `Function`: what a user may take for a parser.
* `Parser`.
* `Parser.name`: how diagnostics call a parser.
* `Parser.seqAll`, `Parser.altAll`: sequences and choices of any number of
  parsers, built from pairs.
* `Rules`: parsers under names.

## Main results

* `Parser.halved_induction`: what holds of single parsers and is kept by pairs
  holds of a tree of pairs.
* `Parser.seqAll_of_forall`, `Parser.altAll_of_forall`: what two parsers keep when
  they are combined is kept by any number of them.
-/

namespace Peg

/-- A function from an input and a position to an outcome. It makes its successes like all
other parsers, so that their ranges are in order. Nothing else is asked of it. -/
structure Function where
  run : String → Nat → Outcome Value
  ordered (input : String) (position : Nat) : (run input position).IsOrdered

instance : CoeFun Function fun _ => String → Nat → Outcome Value :=
  ⟨Function.run⟩

/-- A parser whose values are of the one type `Value`. -/
inductive Parser where
  /-- Matches a text exactly. -/
  | literal (text : String)
  /-- Matches a regular expression where the parser stands. -/
  | pattern (regex : Pattern)
  /-- Succeeds without reading. -/
  | pure
  /-- Succeeds at the end of the input alone. -/
  | finish
  /-- Applies a parser as often as it succeeds. -/
  | many (item : Parser)
  /-- Applies parsers one after another. -/
  | sequence (items : List Parser)
  /-- Takes the first success of several parsers. -/
  | alternate (items : List Parser)
  /-- Adds the span that was read to the value. -/
  | capture (item : Parser)
  /-- Changes the value. -/
  | map (item : Parser) (change : Value → Except Fault Value)
  /-- Stands for a rule, which is looked up when it runs. -/
  | rule (name : String)
  /-- Is a function under a name. -/
  | function (name : String) (run : Function)

/-- The parsers that a grammar refers to by name. -/
abbrev Rules :=
  List (String × Parser)

/-- The parser of a rule. -/
def Rules.parser? (rules : Rules) (name : String) : Option Parser :=
  (rules.find? (·.1 == name)).map (·.2)

/-- A rule that is found stands in the table. -/
theorem Rules.mem_of_parser?_eq_some {rules : Rules} {name : String} {parser : Parser}
    (h : rules.parser? name = some parser) : (name, parser) ∈ rules := by
  obtain ⟨row, first, rfl⟩ := Option.map_eq_some_iff.1 h
  have same := List.find?_some first
  obtain rfl := beq_iff_eq.1 same
  exact List.mem_of_find?_eq_some first

namespace Parser

mutual

/-- The name of a parser. A parser that only changes or marks a value keeps the
name of the parser it is built from. -/
def name : Parser → String
  | .literal text => text
  | .pattern regex => regex.expr
  | .pure => "successful"
  | .finish => "$(End)"
  | .many item => item.name ++ "*"
  | .sequence items => "→".intercalate (names items)
  | .alternate items => "|".intercalate (names items)
  | .capture item => item.name
  | .map item _ => item.name
  | .rule _ => "Lazy"
  | .function name _ => name

/-- The names of several parsers. -/
def names : List Parser → List String
  | [] => []
  | item :: items => item.name :: names items

end

theorem names_eq_map (items : List Parser) : names items = items.map name := by
  induction items with
  | nil => rfl
  | cons item items ih => simp [names, ih]

theorem name_sequence (items : List Parser) :
    (Parser.sequence items).name = "→".intercalate (items.map name) := by
  rw [name, names_eq_map]

theorem name_alternate (items : List Parser) :
    (Parser.alternate items).name = "|".intercalate (items.map name) := by
  rw [name, names_eq_map]

/-- A parser after another, with the pair of their values. -/
def seq (first second : Parser) : Parser :=
  .sequence [first, second]

/-- A parser, or another where it fails. -/
def or (first second : Parser) : Parser :=
  .alternate [first, second]

section Halved

variable {α β : Type}

/-- Things combined two at a time: the first half with the second, each half
put together in the same way. -/
def halved (combine : α → α → α) (none : α) (items : List α) : α :=
  match items with
  | [] => none
  | [item] => item
  | first :: second :: rest =>
    let all := first :: second :: rest
    combine (halved combine none (all.take (all.length / 2)))
      (halved combine none (all.drop (all.length / 2)))
  termination_by items.length
  decreasing_by all_goals simp only [List.length_take, List.length_drop, List.length_cons]; omega

variable {combine : α → α → α} {none : α} {items : List α}

/-- What holds of a single thing, and of two halves together if it holds of each,
holds of every tree of pairs over one or more. -/
theorem halved_induction {motive : List α → α → Prop} (one : ∀ item, motive [item] item)
    (pair : ∀ {before after : List α} {first second : α}, before ≠ [] → after ≠ [] →
      before.length = (before ++ after).length / 2 → motive before first →
        motive after second → motive (before ++ after) (combine first second))
    (nonempty : items ≠ []) : motive items (halved combine none items) := by
  induction items using halved.induct with
  | case1 => exact absurd rfl nonempty
  | case2 item =>
    rw [halved]
    exact one item
  | case3 first second rest all ihTake ihDrop =>
    have two : 2 ≤ all.length := by simp [all]
    have takes : (all.take (all.length / 2)).length = all.length / 2 := by
      rw [List.length_take]
      omega
    have drops : (all.drop (all.length / 2)).length = all.length - all.length / 2 :=
      List.length_drop
    have left : all.take (all.length / 2) ≠ [] := List.ne_nil_of_length_pos (by omega)
    have right : all.drop (all.length / 2) ≠ [] := List.ne_nil_of_length_pos (by omega)
    have whole := pair left right (by rw [List.take_append_drop, takes]) (ihTake left)
      (ihDrop right)
    rw [List.take_append_drop] at whole
    rwa [halved]

/-- What turns one way to combine two into another turns a tree of pairs into another. -/
theorem map_halved {combine' : β → β → β} {none' : β} (f : α → β) (unit : f none = none')
    (pair : ∀ first second, f (combine first second) = combine' (f first) (f second)) :
    f (halved combine none items) = halved combine' none' (items.map f) := by
  induction items using halved.induct with
  | case1 => rw [List.map_nil, halved, halved, unit]
  | case2 item => rw [List.map_singleton, halved, halved]
  | case3 first second rest all ihTake ihDrop =>
    have again := halved.eq_3 combine' none' (f first) (f second) (rest.map f)
    simp only [← List.map_cons, ← List.map_take, ← List.map_drop, List.length_map] at again
    rw [halved, pair, ihTake, ihDrop, again]

end Halved

/-- The values in a tree of pairs over `count` leaves that was built by halving. -/
def leaves (count : Nat) (value : Value) : List Value :=
  if count < 2 then [value]
  else
    match value with
    | .list [first, second] => leaves (count / 2) first ++ leaves (count - count / 2) second
    | other => [other]
  termination_by count

/-- A sequence of any number of parsers, with their values in one list. It is a
tree of pairs, so a single parser keeps the start that it reports. Without
parsers it succeeds without a value. -/
def seqAll (items : List Parser) : Parser :=
  if items.isEmpty then .pure
  else .map (halved seq .pure items) fun value => .ok (.list (leaves items.length value))

/-- A choice among any number of parsers, as a tree of pairs. A single parser is
that parser itself; without parsers the choice always fails. -/
def altAll (items : List Parser) : Parser :=
  halved or (.alternate []) items

/-! ### What sequences and choices of any number of parsers keep -/

section Closure

variable {keeps : Parser → Prop} {items : List Parser}

/-- What two parsers keep when they are combined is kept by any number of them. -/
theorem halved_of_forall {combine : Parser → Parser → Parser} {none : Parser}
    (unit : keeps none)
    (pair : ∀ {first second}, keeps first → keeps second → keeps (combine first second))
    (h : ∀ item ∈ items, keeps item) : keeps (halved combine none items) := by
  by_cases empty : items = []
  · subst empty
    rwa [halved]
  · refine halved_induction (motive := fun items tree => (∀ item ∈ items, keeps item) → keeps tree)
      ?_ ?_ empty h
    · intro item only
      exact only item List.mem_cons_self
    · intro before after first second _ _ _ left right each
      obtain ⟨each, each'⟩ := List.forall_mem_append.1 each
      exact pair (left each) (right each')

theorem seqAll_of_forall (unit : keeps .pure)
    (pair : ∀ {first second}, keeps first → keeps second → keeps (seq first second))
    (flatten : ∀ {item} count, keeps item →
      keeps (.map item fun value => .ok (.list (leaves count value))))
    (h : ∀ item ∈ items, keeps item) : keeps (seqAll items) := by
  unfold seqAll
  split
  · exact unit
  · exact flatten _ (halved_of_forall unit pair h)

theorem altAll_of_forall (unit : keeps (.alternate []))
    (pair : ∀ {first second : Parser}, keeps first → keeps second → keeps (first.or second))
    (h : ∀ item ∈ items, keeps item) : keeps (altAll items) :=
  halved_of_forall unit pair h

end Closure

end Parser

end Peg
