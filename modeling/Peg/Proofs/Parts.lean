import Peg.Parser.Basic

/-!
# Parsers that are made of the library's own

What a parser may do beyond the library is in its parts: functions that are
used as parsers, and functions that are mapped over values. A restriction on
these is passed on by every combinator, and by sequences and choices of any
number of parsers.

## Main definitions

* `Parser.Every`: a property of all primitive parts and of all mapped functions.
* `Parser.IsFunctionFree`, `Rules.AreFunctionFree`: no functions as parsers.
* `Parser.IsBuiltIn`, `Rules.AreBuiltIn`: no functions as parsers, and only
  mapped functions that have a value for every value.
* `Parser.IsPlain`, `Rules.ArePlain`: no functions as parsers, and no mapped
  functions but those that sequences of any number of parsers bring along.

## Main results

* `Parser.every_seqAll`, `Parser.every_altAll`: sequences and choices of any
  number of parsers have the property if their items do.
* `Parser.forall_every_of_seqAll`: and their items have it if they do.
-/

namespace Peg

namespace Parser

variable {good : Parser → Prop}

mutual

/-- A property holds of every primitive part of a parser and wherever a function
is mapped. -/
def Every (good : Parser → Prop) : Parser → Prop
  | .many item | .capture item => item.Every good
  | .sequence items | .alternate items => EveryOf good items
  | .map item change => good (.map item change) ∧ item.Every good
  | other => good other

/-- A property holds of the parts of several parsers. -/
def EveryOf (good : Parser → Prop) : List Parser → Prop
  | [] => True
  | item :: items => item.Every good ∧ EveryOf good items

end

theorem everyOf_iff {items : List Parser} :
    EveryOf good items ↔ ∀ item ∈ items, item.Every good := by
  induction items with
  | nil => simp [EveryOf]
  | cons item items ih => simp [EveryOf, ih]

mutual

/-- A property passes to another one that it implies. -/
theorem every_imp {better : Parser → Prop} (weaken : ∀ parser, good parser → better parser)
    (parser : Parser) (h : parser.Every good) : parser.Every better := by
  match parser with
  | .literal _ | .pattern _ | .pure | .finish | .rule _ | .function _ _ => exact weaken _ h
  | .many item | .capture item => exact every_imp weaken item h
  | .sequence items | .alternate items => exact everyOf_imp weaken items h
  | .map item _ => exact ⟨weaken _ h.1, every_imp weaken item h.2⟩

/-- The same for the parts of several parsers. -/
theorem everyOf_imp {better : Parser → Prop} (weaken : ∀ parser, good parser → better parser)
    (items : List Parser) (h : EveryOf good items) : EveryOf better items := by
  match items with
  | [] => trivial
  | item :: items => exact ⟨every_imp weaken item h.1, everyOf_imp weaken items h.2⟩

end

theorem every_seq {first second : Parser} (h : first.Every good) (h' : second.Every good) :
    (seq first second).Every good :=
  ⟨h, h', trivial⟩

theorem every_or {first second : Parser} (h : first.Every good) (h' : second.Every good) :
    (first.or second).Every good :=
  ⟨h, h', trivial⟩

theorem every_seqAll {items : List Parser} (unit : good .pure)
    (flatten : ∀ item : Parser, ∀ count : Nat,
      good (.map item fun value => .ok (.list (leaves count value))))
    (h : ∀ item ∈ items, item.Every good) : (seqAll items).Every good := by
  have empty : Parser.pure.Every good := unit
  exact seqAll_of_forall empty every_seq (fun _ each => ⟨flatten _ _, each⟩) h

theorem every_altAll {items : List Parser} (h : ∀ item ∈ items, item.Every good) :
    (altAll items).Every good := by
  have empty : (Parser.alternate []).Every good := trivial
  exact altAll_of_forall empty every_or h

/-- What holds in a sequence of any number of parsers holds in each of them. -/
theorem forall_every_of_seqAll {items : List Parser} (h : (seqAll items).Every good) :
    ∀ item ∈ items, item.Every good := by
  by_cases empty : items = []
  · simp [empty]
  · rw [seqAll, if_neg (by simpa using empty)] at h
    obtain ⟨-, tree⟩ := h
    refine halved_induction (motive := fun items tree =>
      tree.Every good → ∀ item ∈ items, item.Every good) ?_ ?_ empty tree
    · intro item here
      exact List.forall_mem_singleton.2 here
    · intro before after first second _ _ _ left right pair
      obtain ⟨holds, holds', -⟩ := pair
      exact List.forall_mem_append.2 ⟨left holds, right holds'⟩

/-- A primitive parser of the library, or any mapped function. -/
def IsFunctionFreePart : Parser → Prop
  | .function _ _ => False
  | _ => True

/-- A parser without functions of a user as parsers. Any function may be mapped. -/
def IsFunctionFree (parser : Parser) : Prop :=
  parser.Every IsFunctionFreePart

theorem isFunctionFree_seqAll {items : List Parser} (h : ∀ item ∈ items, item.IsFunctionFree) :
    (seqAll items).IsFunctionFree :=
  every_seqAll trivial (fun _ _ => trivial) h

theorem isFunctionFree_altAll {items : List Parser} (h : ∀ item ∈ items, item.IsFunctionFree) :
    (altAll items).IsFunctionFree :=
  every_altAll h

/-- A primitive parser of the library, or a mapped function that has a value for
every value. -/
def IsOwnPart : Parser → Prop
  | .function _ _ => False
  | .map _ change => ∀ value, ∃ changed, change value = .ok changed
  | _ => True

/-- A parser without functions of a user but for changes that always have a value. -/
def IsBuiltIn (parser : Parser) : Prop :=
  parser.Every IsOwnPart

theorem IsBuiltIn.isFunctionFree {parser : Parser} (h : parser.IsBuiltIn) :
    parser.IsFunctionFree := by
  refine every_imp (fun part own => ?_) parser h
  cases part with
  | function => exact absurd own id
  | _ => trivial

theorem isBuiltIn_seqAll {items : List Parser} (h : ∀ item ∈ items, item.IsBuiltIn) :
    (seqAll items).IsBuiltIn :=
  every_seqAll trivial (fun _ _ _ => ⟨_, rfl⟩) h

theorem isBuiltIn_altAll {items : List Parser} (h : ∀ item ∈ items, item.IsBuiltIn) :
    (altAll items).IsBuiltIn :=
  every_altAll h

/-- A primitive parser of the library, or the function that puts the values of a
tree of pairs in a row. -/
def IsPlainPart : Parser → Prop
  | .function _ _ => False
  | .map _ change => ∃ count, change = fun value => .ok (.list (leaves count value))
  | _ => True

/-- A parser without functions of a user, be it as parsers or on values. -/
def IsPlain (parser : Parser) : Prop :=
  parser.Every IsPlainPart

theorem isPlain_seqAll {items : List Parser} (h : ∀ item ∈ items, item.IsPlain) :
    (seqAll items).IsPlain :=
  every_seqAll trivial (fun _ count => ⟨count, rfl⟩) h

theorem isPlain_altAll {items : List Parser} (h : ∀ item ∈ items, item.IsPlain) :
    (altAll items).IsPlain :=
  every_altAll h

end Parser

/-- The parser of every rule is free of functions as parsers. -/
def Rules.AreFunctionFree (rules : Rules) : Prop :=
  ∀ name parser, rules.parser? name = some parser → parser.IsFunctionFree

/-- The parser of every rule is built in. -/
def Rules.AreBuiltIn (rules : Rules) : Prop :=
  ∀ name parser, rules.parser? name = some parser → parser.IsBuiltIn

theorem Rules.AreBuiltIn.areFunctionFree {rules : Rules} (h : rules.AreBuiltIn) :
    rules.AreFunctionFree :=
  fun name parser found => (h name parser found).isFunctionFree

/-- It is enough to look at the rows of the table. -/
theorem Rules.areBuiltIn_of_mem {rules : Rules} (h : ∀ row ∈ rules, row.2.IsBuiltIn) :
    rules.AreBuiltIn :=
  fun _ _ found => h _ (Rules.mem_of_parser?_eq_some found)

/-- The parser of every rule is plain. -/
def Rules.ArePlain (rules : Rules) : Prop :=
  ∀ name parser, rules.parser? name = some parser → parser.IsPlain

end Peg
