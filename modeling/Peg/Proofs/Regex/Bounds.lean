import Mathlib.Data.Option.Basic
import Peg.Proofs.Regex.Contents
import Peg.Regex.Tree

/-!
# Bounds of repetitions

Where a repetition is read, its bounds are in order. No token, and no part of the
tree that is made of the tokens, has a least number of times above the greatest.

## Main definitions

* `Syntax.IsAtom`: an expression that is read in one go.
* `Scan.Reads`: what a token can be, and what is remembered after it.
* `Token.IsOrdered`, `Level.IsOrdered`, `Stack.IsOrdered`: what is read and what is
  being put together have their bounds in order.

## Main results

* `Scan.reads_of_token?`: a token is read in one of a few ways.
* `isOrdered_of_tokens?`: the tokens of an expression have their bounds in order.
* `Syntax.within_ordered_of_parse?`: so has the tree that is made of them.
-/

namespace Peg.Regex

/-- An expression without parts that are expressions. -/
def Syntax.IsAtom : Syntax → Prop
  | .literal _ | .dot | .anchor _ | .short _ _ | .property _ _ | .bracketed _ _ => True
  | _ => False

theorem Syntax.IsAtom.within_ordered {part : Syntax} (h : part.IsAtom) : part.Within .ordered := by
  cases part with
  | literal | dot | anchor | short | property | bracketed => trivial
  | empty | flags | repetition | group | concat | alternation => exact h.elim

/-- A token that adds an atom, or no repetition with its bounds in the wrong order. -/
def Token.IsOrdered : Token → Prop
  | .atom part => part.IsAtom
  | .repeats min max _ => Allowed.ordered.counts min max
  | .flags _ | .opening _ | .closing | .bar => True

/-! ### Tokens -/

section Atoms

variable {verbose : Bool} {cs rest : List Char} {part : Syntax}

theorem isAtom_of_readHex {digits : Nat}
    (h : readHex verbose digits cs = some (part, rest)) : part.IsAtom := by
  unfold readHex at h
  split at h
  · obtain ⟨after, -, next⟩ := Option.bind_eq_some_iff.1 h
    obtain ⟨char, -, same⟩ := Option.bind_eq_some_iff.1 next
    cases same
    trivial
  · obtain ⟨-, -, next⟩ := Option.bind_eq_some_iff.1 h
    obtain ⟨char, -, same⟩ := Option.bind_eq_some_iff.1 next
    cases same
    trivial

theorem isAtom_propertyOf (body : List Char) (negated : Bool) :
    (propertyOf body negated).IsAtom := by
  unfold propertyOf
  split
  · trivial
  · split <;> trivial

theorem isAtom_of_readProperty {negated : Bool}
    (h : readProperty verbose negated cs = some (part, rest)) : part.IsAtom := by
  unfold readProperty at h
  split at h
  · obtain ⟨after, -, same⟩ := Option.bind_eq_some_iff.1 h
    cases same
    exact isAtom_propertyOf _ negated
  · split at h
    · cases h
    · cases h
      trivial
  · cases h

theorem isAtom_of_readBoundary
    (h : readBoundary verbose cs = some (part, rest)) : part.IsAtom := by
  unfold readBoundary at h
  simp only at h
  split at h
  · split at h
    · cases h
    · split at h
      · obtain ⟨-, -, next⟩ := Option.bind_eq_some_iff.1 h
        obtain ⟨place, -, same⟩ := Option.bind_eq_some_iff.1 next
        cases same
        trivial
      · cases h
        trivial
  · cases h
    trivial

theorem isAtom_of_readEscape (h : readEscape verbose cs = some (part, rest)) :
    part.IsAtom := by
  unfold readEscape at h
  split at h
  · cases h
  · split at h
    · cases h
      trivial
    · split at h
      · exact isAtom_of_readHex h
      · exact isAtom_of_readHex h
      · exact isAtom_of_readHex h
      · exact isAtom_of_readProperty h
      · exact isAtom_of_readProperty h
      case h_20 => exact isAtom_of_readBoundary h
      all_goals
        cases h
        try trivial

theorem isAtom_of_readBrackets
    (h : readBrackets verbose cs = some (part, rest)) : part.IsAtom := by
  obtain ⟨⟨negated, first, inside⟩, -, next⟩ := Option.bind_eq_some_iff.1 h
  obtain ⟨⟨set, after⟩, -, same⟩ := Option.bind_eq_some_iff.1 next
  cases same
  trivial

end Atoms

namespace Scan

/-- What a token can be, and what the reader remembers after it. -/
inductive Reads (scan : Scan) : Token → Scan → Prop
  | atom {part : Syntax} (atomic : part.IsAtom) : Reads scan (.atom part) scan
  | repeats {min : Nat} {max : Option Nat} {greedy : Bool}
    (inOrder : Allowed.ordered.counts min max) : Reads scan (.repeats min max greedy) scan
  | flags (change : FlagChange) :
    Reads scan (.flags change)
      { scan with verbose := (change.find? .verbose).getD scan.verbose }
  | plain (change : FlagChange) : Reads scan (.opening (.plain change)) (scan.enter change)
  | capturing (names : List (List Char)) :
    Reads scan (.opening (.capturing (scan.groups + 1)))
      { scan.enter [] with names, groups := scan.groups + 1 }
  | closing : Reads scan .closing scan.leave
  | bar : Reads scan .bar scan

variable {scan after : Scan} {cs rest : List Char} {token : Token}

theorem exists_repeats_of_readBounds {verbose : Bool}
    (h : readBounds verbose cs = some (token, rest)) :
    ∃ min max greedy, token = .repeats min max greedy ∧ Allowed.ordered.counts min max := by
  obtain ⟨⟨min, after⟩, -, next⟩ := Option.bind_eq_some_iff.1 h
  clear h
  -- However the greatest number is given, it is compared with the least one.
  have closed (max : Option Nat) (greedy : Bool) (last : List Char)
      (h : (do guard (max.all (min ≤ ·)); return (Token.repeats min max greedy, last)) =
        some (token, rest)) :
      ∃ min max greedy, token = .repeats min max greedy ∧ Allowed.ordered.counts min max := by
    obtain ⟨_, inOrder, same⟩ := Option.bind_eq_some_iff.1 h
    cases same
    refine ⟨min, max, greedy, rfl, ?_⟩
    rintro most rfl
    exact of_decide_eq_true ((Option.guard_eq_some' _).1 inOrder)
  simp only [Option.bind_eq_bind, Option.bind_some] at next
  split at next
  · split at next
    · exact closed _ _ _ next
    · obtain ⟨⟨max, after⟩, -, next⟩ := Option.bind_eq_some_iff.1 next
      simp only at next
      split at next
      · exact closed _ _ _ next
      · cases next
  · split at next
    · exact closed _ _ _ next
    · cases next

theorem reads_of_namedCapture (h : scan.namedCapture cs = some (token, after, rest)) :
    scan.Reads token after := by
  obtain ⟨behind, -, h⟩ := Option.bind_eq_some_iff.1 h
  obtain ⟨head, -, h⟩ := Option.bind_eq_some_iff.1 h
  obtain ⟨-, -, h⟩ := Option.bind_eq_some_iff.1 h
  obtain ⟨-, -, h⟩ := Option.bind_eq_some_iff.1 h
  obtain ⟨-, -, h⟩ := Option.bind_eq_some_iff.1 h
  cases h
  exact .capturing _

theorem reads_of_readOpening (h : scan.readOpening cs = some (token, after, rest)) :
    scan.Reads token after := by
  unfold readOpening at h
  split at h
  · cases h
  · cases h
  · cases h
  · cases h
  · exact reads_of_namedCapture h
  · exact reads_of_namedCapture h
  · obtain ⟨⟨change, last, behind⟩, -, next⟩ := Option.bind_eq_some_iff.1 h
    simp only at next
    split at next
    · obtain ⟨-, -, same⟩ := Option.bind_eq_some_iff.1 next
      cases same
      exact .flags change
    · cases next
      exact .plain change
  · cases h
    exact .capturing scan.names

/-- A part that is read as it is makes a token of its own. -/
theorem reads_of_atom {read : Option (Syntax × List Char)}
    {make : Syntax × List Char → Token × Scan × List Char}
    (atom : ∀ part rest, make (part, rest) = (.atom part, scan, rest))
    (atomic : ∀ part rest, read = some (part, rest) → part.IsAtom)
    (h : read.map make = some (token, after, rest)) : scan.Reads token after := by
  obtain ⟨⟨part, behind⟩, reads, same⟩ := Option.map_eq_some_iff.1 h
  rw [atom] at same
  cases same
  exact .atom (atomic _ _ reads)

/-- A token is read in one of these ways. -/
theorem reads_of_token? (h : scan.token? cs = some (token, after, rest)) :
    scan.Reads token after := by
  unfold token? at h
  split at h
  · cases h
  · next c cs =>
    simp only at h
    split at h
    · exact reads_of_readOpening h
    · cases h
      exact .closing
    · cases h
      exact .bar
    · exact reads_of_atom (fun _ _ => rfl) (fun _ _ => isAtom_of_readBrackets) h
    · cases h
      refine .repeats ?_
      rintro most ⟨⟩
      exact Nat.zero_le 1
    · cases h
      exact .repeats nofun
    · cases h
      exact .repeats nofun
    · obtain ⟨⟨bounds, behind⟩, reads, same⟩ := Option.map_eq_some_iff.1 h
      cases same
      obtain ⟨min, max, greedy, rfl, inOrder⟩ := exists_repeats_of_readBounds reads
      exact .repeats inOrder
    · exact reads_of_atom (fun _ _ => rfl) (fun _ _ => isAtom_of_readEscape) h
    all_goals
      cases h
      exact .atom trivial

theorem Reads.isOrdered (h : scan.Reads token after) : token.IsOrdered := by
  cases h with
  | atom atomic => exact atomic
  | repeats inOrder => exact inOrder
  | flags | plain | capturing | closing | bar => trivial

/-- No token has its bounds in the wrong order. -/
theorem isOrdered_of_tokens? {rounds : Nat} {tokens : List Token}
    (h : scan.tokens? rounds cs = some tokens) : ∀ token ∈ tokens, token.IsOrdered := by
  induction tokens generalizing scan rounds cs with
  | nil => exact List.forall_mem_nil _
  | cons token tokens ih =>
    rcases tokens?_eq_some h with ⟨-, nothing⟩ | ⟨fewer, _, later, rest, _, read, others, same⟩
    · cases nothing
    · cases same
      exact List.forall_mem_cons.2 ⟨(reads_of_token? read).isOrdered, ih others⟩

end Scan

theorem isOrdered_of_tokens? {cs : List Char} {tokens : List Token}
    (h : tokens? cs = some tokens) : ∀ token ∈ tokens, token.IsOrdered :=
  Scan.isOrdered_of_tokens? h

/-! ### Trees -/

theorem Syntax.within_ofItems {items : List Syntax} (h : ∀ item ∈ items, item.Within .ordered) :
    (ofItems items).Within .ordered := by
  match items with
  | [] => trivial
  | [item] => exact List.forall_mem_singleton.1 h
  | _ :: _ :: _ => exact allWithin_iff.2 h

/-- A level whose parts have their bounds in order. -/
def Level.IsOrdered (level : Level) : Prop :=
  (∀ branch ∈ level.branches, branch.Within .ordered) ∧ ∀ item ∈ level.items, item.Within .ordered

namespace Level.IsOrdered

variable {level : Level}

theorem empty : Level.empty.IsOrdered :=
  ⟨List.forall_mem_nil _, List.forall_mem_nil _⟩

theorem add (h : level.IsOrdered) {item : Syntax} (inside : item.Within .ordered) :
    (level.add item).IsOrdered :=
  ⟨h.1, List.forall_mem_cons.2 ⟨inside, h.2⟩⟩

theorem endBranch (h : level.IsOrdered) : level.endBranch.IsOrdered := by
  have branch : (Syntax.ofItems level.items.reverse).Within .ordered :=
    Syntax.within_ofItems (by simpa using h.2)
  exact ⟨List.forall_mem_cons.2 ⟨branch, h.1⟩, List.forall_mem_nil _⟩

theorem body (h : level.IsOrdered) : level.body.Within .ordered := by
  unfold Level.body
  split
  · exact Syntax.within_ofItems (by simpa using h.2)
  · refine Syntax.allWithin_iff.2 ?_
    simpa using h.endBranch.1

theorem repeat? (h : level.IsOrdered) {min : Nat} {max : Option Nat} {greedy : Bool}
    (inOrder : Allowed.ordered.counts min max) {later : Level}
    (repeats : level.repeat? min max greedy = some later) : later.IsOrdered := by
  unfold Level.repeat? at repeats
  split at repeats
  · cases repeats
  · cases repeats
  · cases repeats
  · next item items same =>
    cases repeats
    obtain ⟨first, rest⟩ := List.forall_mem_cons.1 (same ▸ h.2)
    exact ⟨h.1, List.forall_mem_cons.2 ⟨⟨inOrder, first⟩, rest⟩⟩

end Level.IsOrdered

namespace Stack

/-- A stack whose levels have their bounds in order. -/
def IsOrdered (stack : Stack) : Prop :=
  stack.top.IsOrdered ∧ ∀ entry ∈ stack.outer, entry.2.IsOrdered

variable {stack later : Stack}

theorem isOrdered_of_push? (h : stack.IsOrdered) {token : Token} (inOrder : token.IsOrdered)
    (push : stack.push? token = some later) : later.IsOrdered := by
  obtain ⟨top, outer⟩ := h
  cases token with
  | atom part =>
    cases push
    have inOrder : part.IsAtom := inOrder
    exact ⟨top.add inOrder.within_ordered, outer⟩
  | flags change =>
    cases push
    exact ⟨top.add trivial, outer⟩
  | repeats min max greedy =>
    obtain ⟨level, repeats, same⟩ := Option.bind_eq_some_iff.1 push
    cases same
    exact ⟨top.repeat? inOrder repeats, outer⟩
  | bar =>
    cases push
    exact ⟨top.endBranch, outer⟩
  | opening kind =>
    cases push
    exact ⟨.empty, List.forall_mem_cons.2 ⟨top, outer⟩⟩
  | closing =>
    simp only [push?] at push
    split at push
    · cases push
    · next kind level rest same =>
      cases push
      obtain ⟨first, others⟩ := List.forall_mem_cons.1 (same ▸ outer)
      exact ⟨first.add top.body, others⟩

theorem isOrdered_of_foldlM {tokens : List Token} (h : stack.IsOrdered)
    (inOrder : ∀ token ∈ tokens, token.IsOrdered)
    (pushed : tokens.foldlM push? stack = some later) : later.IsOrdered := by
  induction tokens generalizing stack with
  | nil =>
    cases pushed
    exact h
  | cons token tokens ih =>
    obtain ⟨first, rest⟩ := List.forall_mem_cons.1 inOrder
    obtain ⟨next, push, pushed⟩ := Option.bind_eq_some_iff.1 pushed
    exact ih (isOrdered_of_push? h first push) rest pushed

end Stack

/-- An expression that is read is what its tokens make, and every group is closed. -/
theorem Syntax.exists_stack_of_parse? {text : String} {tree : Syntax}
    (h : Syntax.parse? text = some tree) : ∃ tokens stack, tokens? text.toList = some tokens ∧
      tokens.foldlM Stack.push? Stack.start = some stack ∧ stack.outer = [] ∧
        tree = stack.top.body := by
  obtain ⟨tokens, cut, h⟩ := Option.bind_eq_some_iff.1 h
  obtain ⟨made, built, h⟩ := Option.bind_eq_some_iff.1 h
  obtain ⟨-, -, same⟩ := Option.bind_eq_some_iff.1 h
  cases same
  obtain ⟨stack, pushed, h⟩ := Option.bind_eq_some_iff.1 built
  obtain ⟨_, closed, same⟩ := Option.bind_eq_some_iff.1 h
  cases same
  have empty : stack.outer.isEmpty = true := (Option.guard_eq_some' _).1 closed
  exact ⟨tokens, stack, cut, pushed, List.isEmpty_iff.1 empty, rfl⟩

/-- No expression that is read has the bounds of a repetition in the wrong order. -/
theorem Syntax.within_ordered_of_parse? {text : String} {tree : Syntax}
    (h : Syntax.parse? text = some tree) : tree.Within .ordered := by
  obtain ⟨tokens, stack, cut, pushed, -, rfl⟩ := Syntax.exists_stack_of_parse? h
  have start : Stack.start.IsOrdered := ⟨.empty, List.forall_mem_nil _⟩
  exact (Stack.isOrdered_of_foldlM start (isOrdered_of_tokens? cut) pushed).1.body

end Peg.Regex
