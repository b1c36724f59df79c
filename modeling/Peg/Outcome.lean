/-!
# Outcomes of a run

A run of a parser succeeds with a value and the range of bytes that it
consumed, fails with a message and the position it concerns, or breaks down
because a rule of use was violated.

That ranges are in order, and that spans lie within their input, are rules of use
which are checked by assertions. What is modelled is the build in which assertions
are checked, with all of them: a violated one breaks the run down.

## Main definitions

* `Success`, `Failure`, `Fault`: the three ways in which a run ends.
* `Outcome`: one of them.
* `Outcome.asserted`: the outcome once the range of a success has been checked.
* `Outcome.map`: a change of the value of a success.
-/

namespace Peg

/-- A value together with the range of bytes it was read from. -/
structure Success (α : Type) where
  value : α
  start : Nat
  stop : Nat
  deriving DecidableEq, Repr

/-- A description of what was expected, and the offset at which it was not found. -/
structure Failure where
  message : String
  position : Nat
  deriving DecidableEq, Repr

/-- A violated rule of use. The first rule holds in every build, and so does the last. The
two others are the assertions on the ranges of successes and of spans, which are checked in
the build that is modelled. -/
inductive Fault where
  /-- The repeated parser `item` succeeded at `position` without moving forward. -/
  | emptyRepetition (item repetition : String) (position : Nat)
  /-- A success was to stop before the place where it starts. -/
  | reversedRange
  /-- A span was to stop before the place where it starts, or past the end of its input. -/
  | spanOutOfRange
  /-- The text of a span was asked for whose range does not fall between characters. -/
  | notASlice
  deriving DecidableEq, Repr

/-- How a run ended. -/
inductive Outcome (α : Type) where
  | success (result : Success α)
  | failure (reason : Failure)
  | fault (cause : Fault)
  deriving DecidableEq, Repr

/-- The words of a fault, where it has any. -/
def Fault.message? : Fault → Option String
  | .emptyRepetition item repetition position =>
    some s!"`{item}` matched empty input at {position} inside `{repetition}`"
  | .reversedRange | .spanOutOfRange | .notASlice => none

namespace Failure

/-- The failure that names what was expected. -/
def expected (what : String) (position : Nat) : Failure :=
  ⟨"Expected: " ++ what, position⟩

/-- A failure in one line. -/
def display (reason : Failure) : String :=
  reason.message ++ " at position " ++ toString reason.position

end Failure

namespace Outcome

variable {α β : Type}

/-- The offset at which reading stopped, or which the failure concerns. -/
def position? : Outcome α → Option Nat
  | .success result => some result.stop
  | .failure reason => some reason.position
  | .fault _ => none

/-- The value of a success. -/
def value? : Outcome α → Option α
  | .success result => some result.value
  | .failure _ | .fault _ => none

/-- The range of a success does not stop before it starts. -/
def IsOrdered : Outcome α → Prop
  | .success result => result.start ≤ result.stop
  | .failure _ | .fault _ => True

/-- The outcome once it has been asserted of a success that its range is in order. -/
def asserted : Outcome α → Outcome α
  | .success result => if result.start ≤ result.stop then .success result else .fault .reversedRange
  | .failure reason => .failure reason
  | .fault cause => .fault cause

theorem asserted_of_le {value : α} {start stop : Nat} (h : start ≤ stop) :
    (success ⟨value, start, stop⟩).asserted = success ⟨value, start, stop⟩ :=
  if_pos h

theorem asserted_of_lt {value : α} {start stop : Nat} (h : stop < start) :
    (success ⟨value, start, stop⟩).asserted = fault .reversedRange :=
  if_neg (Nat.not_le_of_lt h)

theorem asserted_of_isOrdered {outcome : Outcome α} (h : outcome.IsOrdered) :
    outcome.asserted = outcome := by
  cases outcome with
  | success result => exact asserted_of_le h
  | failure reason => rfl
  | fault cause => rfl

theorem isOrdered_asserted (outcome : Outcome α) : outcome.asserted.IsOrdered := by
  cases outcome with
  | success result =>
    rw [asserted]
    split
    · next ordered => exact ordered
    · trivial
  | failure reason => trivial
  | fault cause => trivial

/-- The outcome with the value of a success changed. The range is kept, and so
are failures and faults. A change that has no value breaks the run down. What is
asserted of a success has been so when it was made, and is not spoiled by the change. -/
def map (change : α → Except Fault β) : Outcome α → Outcome β
  | .success ⟨value, start, stop⟩ =>
    match change value with
    | .ok value => .success ⟨value, start, stop⟩
    | .error cause => .fault cause
  | .failure reason => .failure reason
  | .fault cause => .fault cause

@[simp]
theorem map_failure (change : α → Except Fault β) (reason : Failure) :
    (Outcome.failure reason : Outcome α).map change = .failure reason :=
  rfl

@[simp]
theorem map_fault (change : α → Except Fault β) (cause : Fault) :
    (Outcome.fault cause : Outcome α).map change = .fault cause :=
  rfl

/-- Changing a value by the identity changes nothing. -/
@[simp]
theorem map_ok (outcome : Outcome α) : outcome.map Except.ok = outcome := by
  cases outcome <;> rfl

end Outcome

end Peg
