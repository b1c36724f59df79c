import Peg.Proofs.Positions
import Peg.Proofs.Repetition

/-!
# Repetitions as right-recursive rules

A repetition can be written as a rule: the item and then the rule again, or else
nothing. Both read the same. The rule follows a reference for each of the values and
nests them to the right, where the repetition gathers them in a list.

They part where the item succeeds without moving forward. The repetition finds out and
breaks down. The rule refers to itself at this very place, for ever: a reply
would have followed more references than itself.

## Main definitions

* `Parser.rightRecursive`: the parser of the rule.
* `Value.nested`: values nested to the right.

## Main results

* `Step.Rounds.derives_rightRecursive`: the rule reads rounds up to a failure.
* `not_derives_rightRecursive`: the rule has no outcome where the item stands still.
* `runAt_rightRecursive_refines`: a repetition refines the rule.
-/

namespace Peg

/-- The item and then the rule of that name, or else nothing. -/
def Parser.rightRecursive (item : Parser) (name : String) : Parser :=
  .or (item.seq (.rule name)) .pure

/-- Values in pairs of a value and what comes after it, which is nothing after the last. -/
def Value.nested : List Value → Value
  | [] => .unit
  | value :: values => .list [value, nested values]

variable {rules : Rules} {input name : String} {item first second parser : Parser}
  {start stop calls callsLast : Nat} {outcome : Outcome Value} {head : Success Value}

/-! ### Runs within runs -/

/-- The first of two alternatives is always run. -/
theorem Derives.exists_of_or (h : Derives rules input (first.or second) start outcome calls) :
    ∃ inner callsInner, Derives rules input first start inner callsInner ∧ callsInner ≤ calls := by
  cases h with
  | alternate_first run _ => exact ⟨_, _, run, Nat.le_refl _⟩
  | alternate_next run _ _ => exact ⟨_, _, run, Nat.le_add_right _ _⟩
  | alternate_none run _ => exact ⟨_, _, run, Nat.le_add_right _ _⟩

/-- The second of two parsers in a row is run where the first one stops. -/
theorem Derives.exists_of_seq (h : Derives rules input (first.seq second) start outcome calls)
    (begins : Derives rules input first start (.success head) callsLast) :
    ∃ inner callsInner, Derives rules input second head.stop inner callsInner ∧
      callsInner ≤ calls := by
  cases h with
  | sequence_all row _ | sequence_back row _ =>
    cases row with
    | cons run rest =>
      obtain ⟨same, -⟩ := run.unique begins
      cases same
      cases rest with
      | cons later _ => exact ⟨_, _, later, by omega⟩
  | sequence_cut cut =>
    cases cut with
    | here run stops =>
      obtain ⟨rfl, -⟩ := run.unique begins
      exact absurd (Outcome.isSuccess_success head) stops
    | later run rest =>
      obtain ⟨same, -⟩ := run.unique begins
      cases same
      cases rest with
      | here later _ | later later _ => exact ⟨_, _, later, by omega⟩

/-- What returns from every place within the input, and never goes past the end of it,
settles below the offset behind the end. -/
theorem settlesBelow_of_returns (own : item.IsFunctionFree) (ownRules : rules.AreFunctionFree)
    (returns : ∀ place ≤ input.utf8ByteSize, ∃ reply,
      item.runAt rules input place = some reply ∧ ∀ cause, reply.outcome ≠ .fault cause) :
    Step.SettlesBelow (item.runAt rules input) (input.utf8ByteSize + 1) := by
  intro place below
  have within := Nat.le_of_lt_succ below
  obtain ⟨⟨outcome, calls⟩, run, sound⟩ := returns place within
  cases outcome with
  | success head =>
    obtain ⟨-, stop⟩ := (derives_of_runAt run).le_stop own ownRules within
    exact .inl ⟨head, calls, run, Nat.lt_succ_of_le stop⟩
  | failure reason => exact .inr ⟨reason, calls, run⟩
  | fault cause => exact absurd rfl (sound cause)

/-! ### The rule at one place -/

/-- Where the item fails, nothing is read. -/
theorem Derives.rightRecursive_failure {reason : Failure}
    (last : Derives rules input item start (.failure reason) calls) :
    Derives rules input (item.rightRecursive name) start (.success ⟨.unit, start, start⟩)
      calls := by
  have nothing : Derives rules input (.alternate [.pure]) start
      (.success ⟨.unit, start, start⟩) 0 :=
    .alternate_first .pure (Outcome.not_isFailure_success _)
  refine .alternate_next (.sequence_stop last ?_) nothing ?_
  · exact Outcome.not_isSuccess_failure reason
  · exact Outcome.not_isFailure_success _

section Rule

variable (found : rules.parser? name = some (item.rightRecursive name))

include found

/-- Where the item succeeds, the rule is gone through again from where it stops, as long as
this leads on. -/
theorem Derives.rightRecursive_success {value : Value} {origin callsRest : Nat}
    (first : Derives rules input item start (.success head) calls)
    (rest : Derives rules input (item.rightRecursive name) head.stop
      (.success ⟨value, origin, stop⟩) callsRest) (ordered : start ≤ stop) :
    Derives rules input (item.rightRecursive name) start
      (.success ⟨.list [head.value, value], start, stop⟩) (calls + (1 + callsRest)) := by
  have row := Row.cons first (.cons (.rule found rest) .nil)
  exact .alternate_first (.sequence_all row ordered) (Outcome.not_isFailure_success _)

/-- If the rule has an outcome where the item succeeds, it has one where the item stops, for
which fewer references are followed. -/
theorem Derives.exists_rightRecursive_later
    (h : Derives rules input (item.rightRecursive name) start outcome calls)
    (first : Derives rules input item start (.success head) callsLast) :
    ∃ inner callsInner, Derives rules input (item.rightRecursive name) head.stop inner callsInner ∧
      callsInner < calls := by
  obtain ⟨_, callsPair, pair, lePair⟩ := h.exists_of_or
  obtain ⟨_, callsRule, rule, leRule⟩ := pair.exists_of_seq first
  cases rule with
  | rule found' inner =>
    cases found.symm.trans found'
    exact ⟨_, _, inner, by omega⟩

/-- The rule has no outcome where the item succeeds and stops right there: more
references would have to be followed for it than there are. -/
theorem not_derives_rightRecursive
    (last : Derives rules input item start (.success head) callsLast) (stays : head.stop = start) :
    ¬ Derives rules input (item.rightRecursive name) start outcome calls := by
  intro h
  obtain ⟨inner, callsInner, again, less⟩ := h.exists_rightRecursive_later found last
  rw [stays] at again
  obtain ⟨-, same⟩ := again.unique h
  exact Nat.ne_of_lt less same

/-! ### The rule along rounds -/

variable {heads : List (Success Value)}

/-- The rule reads rounds up to a failure, by induction on them. -/
theorem Step.Rounds.derives_rightRecursive {reason : Failure}
    (h : Step.Rounds (item.runAt rules input) start heads stop calls)
    (last : item.runAt rules input stop = some ⟨.failure reason, callsLast⟩) :
    Derives rules input (item.rightRecursive name) start
      (.success ⟨Value.nested (heads.map Success.value), start, stop⟩)
      (calls + callsLast + heads.length) := by
  induction h with
  | nil =>
    rw [Nat.zero_add]
    exact .rightRecursive_failure (derives_of_runAt last)
  | @cons start stop callsHead callsTail head heads first forward _ ih =>
    have sum : callsHead + callsTail + callsLast + (head :: heads).length =
        callsHead + (1 + (callsTail + callsLast + heads.length)) := by
      rw [List.length_cons]
      omega
    rw [sum]
    have rest := ih last
    have ordered := Nat.le_trans (Nat.le_of_lt forward) rest.isOrdered
    exact .rightRecursive_success found (derives_of_runAt first) rest ordered

/-- The rule has no outcome before rounds that lead to where it has none. -/
theorem Step.Rounds.not_derives_rightRecursive
    (h : Step.Rounds (item.runAt rules input) start heads stop calls)
    (last : ∀ {outcome calls},
      ¬ Derives rules input (item.rightRecursive name) stop outcome calls) :
    ¬ Derives rules input (item.rightRecursive name) start outcome callsLast := by
  induction h generalizing outcome callsLast with
  | nil => exact last
  | cons first _ _ ih =>
    intro h
    obtain ⟨_, _, later, -⟩ := h.exists_rightRecursive_later found (derives_of_runAt first)
    exact ih last later

/-- **Repetition as right recursion.** In a grammar without functions, let an item return
from every place within the input without breaking down. The rule that takes the item and
then the rule again, or else nothing, returns exactly if the repetition of the item
succeeds. It succeeds over the same range, with the values of the repetition nested to the
right, and follows one reference more for each of them. Where the repetition breaks down,
the rule goes on for ever, at the place where the item succeeds without moving. -/
theorem runAt_rightRecursive_refines (ownRules : rules.AreFunctionFree)
    (returns : ∀ place ≤ input.utf8ByteSize, ∃ reply,
      item.runAt rules input place = some reply ∧ ∀ cause, reply.outcome ≠ .fault cause)
    (within : start ≤ input.utf8ByteSize) :
    ((item.rightRecursive name).runAt rules input start ≠ none ↔
      ∃ result calls,
        (Parser.many item).runAt rules input start = some ⟨.success result, calls⟩) ∧
    (∀ result calls,
      (Parser.many item).runAt rules input start = some ⟨.success result, calls⟩ →
      ∃ values, result = ⟨.list values, start, result.stop⟩ ∧
        (item.rightRecursive name).runAt rules input start =
          some ⟨.success ⟨Value.nested values, start, result.stop⟩, calls + values.length⟩) ∧
    (∀ cause calls,
      (Parser.many item).runAt rules input start = some ⟨.fault cause, calls⟩ →
      ∃ place head callsLast,
        cause = .emptyRepetition item.name (Parser.many item).name place ∧
        item.runAt rules input place = some ⟨.success head, callsLast⟩ ∧ head.stop = place ∧
        (item.rightRecursive name).runAt rules input place = none ∧
        (item.rightRecursive name).runAt rules input start = none) := by
  have own : item.IsFunctionFree := (ownRules name _ found).1.1
  have settles := settlesBelow_of_returns own ownRules returns
  obtain ⟨heads, stop, calls, rounds, halts⟩ := settles.exists_rounds (Nat.lt_succ_of_le within)
  have below := settles.stop_lt rounds (Nat.lt_succ_of_le within)
  obtain ⟨head, callsLast, last, -⟩ | ⟨reason, callsLast, last⟩ := settles stop below
  -- The item stands still: rounds lead there, and the rule does not get away from there.
  · have stuck := halts head callsLast last
    obtain ⟨forth, -⟩ := (derives_of_runAt last).le_stop own ownRules (Nat.le_of_lt_succ below)
    have stays : head.stop = stop := Nat.le_antisymm stuck forth
    have whole := runAt_many_eq_some_iff.2 (.stuck rounds last (Nat.not_lt_of_le stuck))
    have loops : (item.rightRecursive name).runAt rules input stop = none :=
      runAt_eq_none_iff.2 fun _ _ => not_derives_rightRecursive found (derives_of_runAt last) stays
    have never : (item.rightRecursive name).runAt rules input start = none :=
      runAt_eq_none_iff.2 fun _ _ =>
        rounds.not_derives_rightRecursive found (runAt_eq_none_iff.1 loops _ _)
    rw [whole, never]
    refine ⟨by simp, by simp, ?_⟩
    rintro cause _ same
    cases same
    exact ⟨stop, head, callsLast, rfl, last, stays, loops, rfl⟩
  -- The item fails: the repetition drops the failure, and the rule takes nothing instead.
  · have whole := runAt_many_eq_some_iff.2 (.failure rounds last)
    have reads := (rounds.derives_rightRecursive found last).runAt_eq
    rw [whole, reads]
    refine ⟨by simp, ?_, by simp⟩
    rintro result _ same
    cases same
    exact ⟨heads.map Success.value, rfl, by rw [List.length_map]⟩

end Rule

/-- The letter `a`, or the end of the input. -/
def letterOrEnd : Parser :=
  .or (.literal "a") .finish

/-- The letters that a repetition gathers, as a rule. -/
def nestingRules : Rules :=
  [("letters", letterOrEnd.rightRecursive "letters")]

/-- Two letters with more behind them are read by the rule. Where the end is behind a
letter, the end is found over and over again. -/
theorem runAt_rightRecursive_refines_letters :
    (letterOrEnd.rightRecursive "letters").runAt nestingRules "aab" 0 =
      some ⟨.success ⟨.list [.text "a", .list [.text "a", .unit]], 0, 2⟩, 2⟩ ∧
    (letterOrEnd.rightRecursive "letters").runAt nestingRules "a" 0 = none := by
  have found : nestingRules.parser? "letters" = some (letterOrEnd.rightRecursive "letters") := rfl
  have ownRules : nestingRules.AreFunctionFree := by
    refine Rules.AreBuiltIn.areFunctionFree (Rules.areBuiltIn_of_mem fun row member => ?_)
    obtain rfl := List.mem_singleton.1 member
    exact ⟨⟨⟨trivial, trivial, trivial⟩, trivial, trivial⟩, trivial, trivial⟩
  have first : letterOrEnd.runAt nestingRules "aab" 0 =
      some ⟨.success ⟨.text "a", 0, 1⟩, 0⟩ := rfl
  have second : letterOrEnd.runAt nestingRules "aab" 1 =
      some ⟨.success ⟨.text "a", 1, 2⟩, 0⟩ := rfl
  have last : letterOrEnd.runAt nestingRules "aab" 2 =
      some ⟨.failure (.expected letterOrEnd.name 2), 0⟩ := rfl
  have returns : ∀ place ≤ "aab".utf8ByteSize, ∃ reply,
      letterOrEnd.runAt nestingRules "aab" place = some reply ∧
        ∀ cause, reply.outcome ≠ .fault cause := by
    have size : "aab".utf8ByteSize = 3 := rfl
    rintro (_ | _ | _ | _ | place) within
    · exact ⟨_, first, nofun⟩
    · exact ⟨_, second, nofun⟩
    · exact ⟨_, last, nofun⟩
    · exact ⟨_, rfl, nofun⟩
    · omega
  have whole : (Parser.many letterOrEnd).runAt nestingRules "aab" 0 =
      some ⟨.success ⟨.list [.text "a", .text "a"], 0, 2⟩, 0⟩ :=
    runAt_many_eq_some_iff.2
      (.failure (.cons first (by decide) (.cons second (by decide) .nil)) last)
  have only : letterOrEnd.runAt nestingRules "a" 0 =
      some ⟨.success ⟨.text "a", 0, 1⟩, 0⟩ := rfl
  have ended : letterOrEnd.runAt nestingRules "a" 1 =
      some ⟨.success ⟨.unit, 1, 1⟩, 0⟩ := rfl
  have returnsOnly : ∀ place ≤ "a".utf8ByteSize, ∃ reply,
      letterOrEnd.runAt nestingRules "a" place = some reply ∧
        ∀ cause, reply.outcome ≠ .fault cause := by
    have size : "a".utf8ByteSize = 1 := rfl
    rintro (_ | _ | place) within
    · exact ⟨_, only, nofun⟩
    · exact ⟨_, ended, nofun⟩
    · omega
  have stands : (Parser.many letterOrEnd).runAt nestingRules "a" 0 =
      some ⟨.fault (.emptyRepetition letterOrEnd.name (Parser.many letterOrEnd).name 1), 0⟩ :=
    runAt_many_eq_some_iff.2 (.stuck (.cons only (by decide) .nil) ended (by decide))
  obtain ⟨-, reads, -⟩ := runAt_rightRecursive_refines found ownRules returns (Nat.zero_le _)
  obtain ⟨-, -, loops⟩ := runAt_rightRecursive_refines found ownRules returnsOnly (Nat.zero_le _)
  obtain ⟨values, same, run⟩ := reads _ _ whole
  cases same
  obtain ⟨-, -, -, -, -, -, -, never⟩ := loops _ _ stands
  exact ⟨run, never⟩

end Peg
