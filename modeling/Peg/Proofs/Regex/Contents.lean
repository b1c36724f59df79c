import Peg.Proofs.Regex.NormalForm
import Peg.Regex.Meaning

/-!
# What expressions contain

Whether an expression names places, and how often its repetitions may happen, is
not changed by the normal form: it contains nothing that was not written.

## Main definitions

* `Allowed`: whether places may be named, and the bounds that repetitions may have.
* `Allowed.placeless`, `Allowed.ordered`: no places, and no bounds in the wrong order.
* `Syntax.Within`, `Expr.Within`: expressions that contain only what is allowed.

## Main results

* `Switches.within_expr?`: the normal form contains what was written alone.
-/

namespace Peg.Regex

/-- What an expression may contain: conditions on places or none, and repetitions
by their bounds. -/
structure Allowed where
  places : Prop
  counts : Nat → Option Nat → Prop

/-- Everything but places. -/
def Allowed.placeless : Allowed :=
  ⟨False, fun _ _ => True⟩

/-- Everything, as long as the least number of times is not above the greatest. -/
def Allowed.ordered : Allowed :=
  ⟨True, fun min max => ∀ most, max = some most → min ≤ most⟩

/-- Bounds that are allowed stay so if nothing happens more than once. -/
def Allowed.AtMostOnce (allowed : Allowed) : Prop :=
  ∀ min max, allowed.counts min max → allowed.counts (min.min 1) (some ((max.getD 1).min 1))

theorem Allowed.atMostOnce_placeless : Allowed.placeless.AtMostOnce :=
  fun _ _ _ => trivial

theorem Allowed.atMostOnce_ordered : Allowed.ordered.AtMostOnce := by
  intro min max counts most same
  obtain rfl := Option.some.inj same
  cases max with
  | none => exact Nat.min_le_right min 1
  | some most =>
    have least : min ≤ most := counts most rfl
    exact Nat.le_min.2 ⟨Nat.le_trans (Nat.min_le_left min 1) least, Nat.min_le_right min 1⟩

namespace Syntax

mutual

/-- An expression that contains only what is allowed. -/
def Within (allowed : Allowed) : Syntax → Prop
  | .anchor _ => allowed.places
  | .repetition min max _ body => allowed.counts min max ∧ body.Within allowed
  | .group _ body => body.Within allowed
  | .concat items | .alternation items => AllWithin allowed items
  | .empty | .flags _ | .literal _ | .dot | .short _ _ | .property _ _ | .bracketed _ _ => True

/-- Expressions that contain only what is allowed. -/
def AllWithin (allowed : Allowed) : List Syntax → Prop
  | [] => True
  | item :: items => item.Within allowed ∧ AllWithin allowed items

end

theorem allWithin_iff {allowed : Allowed} {items : List Syntax} :
    AllWithin allowed items ↔ ∀ item ∈ items, item.Within allowed := by
  induction items with
  | nil => simp [AllWithin]
  | cons item items ih => simp [AllWithin, ih]

end Syntax

namespace Expr

mutual

/-- An expression in normal form that contains only what is allowed. -/
def Within (allowed : Allowed) : Expr → Prop
  | .look _ => allowed.places
  | .repetition min max _ body => allowed.counts min max ∧ body.Within allowed
  | .capture _ body => body.Within allowed
  | .concat items | .alternation items => AllWithin allowed items
  | .empty | .literal _ | .set _ _ => True

/-- Expressions in normal form that contain only what is allowed. -/
def AllWithin (allowed : Allowed) : List Expr → Prop
  | [] => True
  | item :: items => item.Within allowed ∧ AllWithin allowed items

end

variable {allowed : Allowed}

theorem allWithin_iff {items : List Expr} :
    AllWithin allowed items ↔ ∀ item ∈ items, item.Within allowed := by
  induction items with
  | nil => simp [AllWithin]
  | cons item items ih => simp [AllWithin, ih]

/-! ### Putting expressions together -/

theorem within_ofSet (kind : SetKind) (chars : CharSet) :
    (ofSet kind chars).Within allowed :=
  ofSet_cases (fun _ => trivial) (fun _ _ => trivial) kind chars

theorem within_ofRepetition {body : Expr} (within : body.Within allowed)
    (steady : allowed.AtMostOnce) {min : Nat} {max : Option Nat} (counts : allowed.counts min max)
    (greedy : Bool) : (ofRepetition min max greedy body).Within allowed :=
  ofRepetition_cases (motive := fun min max result => allowed.counts min max →
    result.Within allowed) greedy (fun _ => trivial) (fun _ => within)
    (fun _ _ counts => ⟨counts, within⟩)
    (fun min max _ _ clamped counts => clamped (steady min max counts)) min max counts

theorem forall_within_parts {item : Expr} (within : item.Within allowed) :
    ∀ part ∈ item.parts, part.Within allowed := by
  unfold parts
  split
  · exact allWithin_iff.1 within
  · exact List.forall_mem_nil _
  · exact List.forall_mem_singleton.2 within

theorem forall_within_consLiteral {item : Expr} {rest : List Expr} (within : item.Within allowed)
    (others : ∀ other ∈ rest, other.Within allowed) :
    ∀ part ∈ consLiteral item rest, part.Within allowed := by
  unfold consLiteral
  split
  · obtain ⟨-, others⟩ := List.forall_mem_cons.1 others
    exact List.forall_mem_cons.2 ⟨trivial, others⟩
  · exact List.forall_mem_cons.2 ⟨within, others⟩

theorem within_ofConcat {items : List Expr} (within : ∀ item ∈ items, item.Within allowed) :
    (ofConcat items).Within allowed := by
  have inside : ∀ part ∈ items.flatMap parts, part.Within allowed := by
    intro part member
    obtain ⟨item, member, inside⟩ := List.mem_flatMap.1 member
    exact forall_within_parts (within item member) part inside
  have joined : ∀ part ∈ (items.flatMap parts).foldr consLiteral [], part.Within allowed := by
    generalize items.flatMap parts = row at inside
    induction row with
    | nil => exact List.forall_mem_nil _
    | cons part row ih =>
      obtain ⟨first, rest⟩ := List.forall_mem_cons.1 inside
      exact forall_within_consLiteral first (ih rest)
  exact ofConcat_cases
    (motive := fun row result => (∀ part ∈ row, part.Within allowed) → result.Within allowed)
    (fun _ => trivial) (fun _ => List.forall_mem_singleton.1) (fun _ => allWithin_iff.2)
    items joined

theorem forall_within_branches {item : Expr} (within : item.Within allowed) :
    ∀ branch ∈ item.branches, branch.Within allowed := by
  unfold branches
  split
  · exact allWithin_iff.1 within
  · exact List.forall_mem_singleton.2 within

theorem within_ofAlternation {items : List Expr} (within : ∀ item ∈ items, item.Within allowed)
    (rounds : Nat) : (ofAlternation rounds items).Within allowed := by
  have inside {items : List Expr} (within : ∀ item ∈ items, item.Within allowed) :
      ∀ branch ∈ items.flatMap branches, branch.Within allowed := by
    intro branch member
    obtain ⟨item, member, inside⟩ := List.mem_flatMap.1 member
    exact forall_within_branches (within item member) branch inside
  refine ofAlternation_induction
    (motive := fun items result => (∀ item ∈ items, item.Within allowed) → result.Within allowed)
    ?_ ?_ ?_ ?_ ?_ rounds items (inside within)
  · exact fun _ => trivial
  · exact fun branch => List.forall_mem_singleton.1
  · exact fun _ sets _ _ => within_ofSet _ _
  · exact fun _ => allWithin_iff.2
  · intro shared tails rest some ih within
    have parts : ∀ tail ∈ tails, ∀ item ∈ shared ++ tail, item.Within allowed := fun tail member =>
      allWithin_iff.1 (within (.concat (shared ++ tail)) (List.mem_map_of_mem member))
    obtain ⟨tail, member⟩ := List.exists_mem_of_ne_nil tails some
    obtain ⟨beginning, -⟩ := List.forall_mem_append.1 (parts tail member)
    have left : ∀ item ∈ tails.map ofConcat, item.Within allowed := by
      refine List.forall_mem_map.2 fun tail member => within_ofConcat ?_
      exact (List.forall_mem_append.1 (parts tail member)).2
    refine within_ofConcat (List.forall_mem_append.2 ⟨beginning, ?_⟩)
    exact List.forall_mem_singleton.2 (ih (inside left))

end Expr

namespace Switches

section Induction

variable {motive : Syntax → Expr → Prop}

/-- What is said of a set has to hold of whatever is written for it. -/
structure Hereditary (motive : Syntax → Expr → Prop) : Prop where
  empty : motive .empty .empty
  flags (change : FlagChange) : motive (.flags change) .empty
  set (tree : Syntax) (kind : SetKind) (chars : CharSet) : motive tree (.ofSet kind chars)
  look (switches : Switches) (kind : Anchor) : motive (.anchor kind) (.look (switches.look kind))
  repetition {tree : Syntax} {body : Expr} (min : Nat) (max : Option Nat)
    (greedy greedy' : Bool) : motive tree body →
      motive (.repetition min max greedy tree) (.ofRepetition min max greedy' body)
  capture {tree : Syntax} {body : Expr} (index : Nat) : motive tree body →
    motive (.group (.capturing index) tree) (.capture index body)
  plain {tree : Syntax} {body : Expr} (change : FlagChange) : motive tree body →
    motive (.group (.plain change) tree) body
  concat {trees : List Syntax} {items : List Expr} : List.Forall₂ motive trees items →
    motive (.concat trees) (.ofConcat items)
  alternation {trees : List Syntax} {items : List Expr} : List.Forall₂ motive trees items →
    motive (.alternation trees) (.ofAlternation (Expr.weightAll items) items)

mutual

/-- What is handed on from parts to what is put together of them holds of every normal
form, and of what it is the normal form of. -/
theorem Hereditary.expr? (hereditary : Hereditary motive) {switches after : Switches}
    {tree : Syntax} {expr : Expr} (h : switches.expr? tree = some (expr, after)) :
    motive tree expr := by
  match tree with
  | .empty =>
    cases h
    exact hereditary.empty
  | .flags change =>
    cases h
    exact hereditary.flags change
  | .literal char =>
    obtain ⟨result, read, same⟩ := Option.bind_eq_some_iff.1 h
    cases same
    unfold literal? at read
    split at read
    · cases read
    · cases read
      exact hereditary.set _ _ _
  | .dot | .short _ _ | .property _ _ =>
    obtain ⟨chars, -, same⟩ := Option.bind_eq_some_iff.1 h
    cases same
    exact hereditary.set _ _ chars
  | .bracketed negated set =>
    obtain ⟨set, -, next⟩ := Option.bind_eq_some_iff.1 h
    obtain ⟨chars, -, same⟩ := Option.bind_eq_some_iff.1 next
    cases same
    exact hereditary.set _ _ chars
  | .anchor kind =>
    cases h
    exact hereditary.look switches kind
  | .repetition min max greedy body =>
    obtain ⟨⟨inner, later⟩, made, same⟩ := Option.bind_eq_some_iff.1 h
    cases same
    exact hereditary.repetition min max greedy _ (hereditary.expr? made)
  | .group (.capturing index) body =>
    obtain ⟨⟨inner, later⟩, made, same⟩ := Option.bind_eq_some_iff.1 h
    cases same
    exact hereditary.capture index (hereditary.expr? made)
  | .group (.plain change) body =>
    obtain ⟨⟨inner, later⟩, made, same⟩ := Option.bind_eq_some_iff.1 h
    have inside := hereditary.expr? made
    cases same
    exact hereditary.plain change inside
  | .concat items =>
    obtain ⟨⟨inner, later⟩, made, same⟩ := Option.bind_eq_some_iff.1 h
    cases same
    exact hereditary.concat (hereditary.exprs? made)
  | .alternation items =>
    obtain ⟨⟨inner, later⟩, made, same⟩ := Option.bind_eq_some_iff.1 h
    cases same
    exact hereditary.alternation (hereditary.exprs? made)

/-- The same for several expressions. -/
theorem Hereditary.exprs? (hereditary : Hereditary motive) {switches after : Switches}
    {trees : List Syntax} {exprs : List Expr}
    (h : switches.exprs? trees = some (exprs, after)) : List.Forall₂ motive trees exprs := by
  match trees with
  | [] =>
    cases h
    exact .nil
  | tree :: trees =>
    obtain ⟨⟨expr, middle⟩, first, next⟩ := Option.bind_eq_some_iff.1 h
    obtain ⟨⟨rest, last⟩, later, same⟩ := Option.bind_eq_some_iff.1 next
    cases same
    exact .cons (hereditary.expr? first) (hereditary.exprs? later)

end

end Induction

variable {allowed : Allowed}

theorem forall_within_of_forall₂ {trees : List Syntax} {items : List Expr}
    (each : List.Forall₂ (fun tree expr => tree.Within allowed → expr.Within allowed) trees items)
    (within : Syntax.AllWithin allowed trees) : ∀ item ∈ items, item.Within allowed := by
  induction each with
  | nil => exact List.forall_mem_nil _
  | cons first _ ih => exact List.forall_mem_cons.2 ⟨first within.1, ih within.2⟩

/-- The normal form of an expression contains nothing that the expression does not. -/
theorem within_expr? (steady : allowed.AtMostOnce) {switches after : Switches}
    {tree : Syntax} {expr : Expr} (within : tree.Within allowed)
    (h : switches.expr? tree = some (expr, after)) :
    expr.Within allowed := by
  have hereditary : Hereditary fun tree expr => tree.Within allowed → expr.Within allowed :=
    { empty := id
      flags := fun _ => id
      set := fun _ kind chars _ => Expr.within_ofSet kind chars
      look := fun _ _ => id
      repetition := fun _ _ _ _ inner within =>
        Expr.within_ofRepetition (inner within.2) steady within.1 _
      capture := fun _ => id
      plain := fun _ => id
      concat := fun each within => Expr.within_ofConcat (forall_within_of_forall₂ each within)
      alternation := fun each within =>
        Expr.within_ofAlternation (forall_within_of_forall₂ each within) _ }
  exact hereditary.expr? h within

end Switches

end Peg.Regex
