import Peg.Outcome

/-!
# Steps

What a parser does on one input is a function from a position to a reply: the
outcome of the run, together with the number of references that were followed
to reach it. There is no reply when the run does not end. The combinators are
operations on such functions.

## Main definitions

* `Reply`, `Step`.
* `Step.row`: one step after another, each from where the last one stopped.
* `Step.inOrder`: a row that is asserted not to stop before it starts.
* `Step.firstOf`: the first success of several steps from one position.
* `Step.iterate`: one step as often as it succeeds.

## Main results

* `Step.row_cons_success`, `Step.firstOf_cons_success`, `Step.iterate_success`
  and their siblings give one equation for each way in which the first step can end.
* `Step.inOrder_extends`, `Step.firstOf_extends`, `Step.iterate_extends`: steps
  that reply at more positions make the combinators reply at more positions.
-/

namespace Peg

/-- An outcome, and how many references were followed on the way to it. -/
structure Reply (α : Type) where
  outcome : Outcome α
  calls : Nat
  deriving DecidableEq, Repr

namespace Reply

variable {α β : Type}

/-- The reply after `calls` references that were followed earlier. -/
def after (calls : Nat) (reply : Reply α) : Reply α :=
  { reply with calls := calls + reply.calls }

/-- The reply with the value of a success changed. -/
def map (change : α → Except Fault β) (reply : Reply α) : Reply β :=
  ⟨reply.outcome.map change, reply.calls⟩

/-- The reply once it has been asserted of a success that its range is in order. -/
def asserted (reply : Reply α) : Reply α :=
  { reply with outcome := reply.outcome.asserted }

/-- A success is continued from; a failure or a fault is the answer as it is. -/
def andThen (reply : Reply α) (next : Success α → Option (Reply β)) : Option (Reply β) :=
  match reply.outcome with
  | .success result => (next result).map (after reply.calls)
  | .failure reason => some ⟨.failure reason, reply.calls⟩
  | .fault cause => some ⟨.fault cause, reply.calls⟩

theorem asserted_of_le {value : α} {start stop calls : Nat} (h : start ≤ stop) :
    (⟨.success ⟨value, start, stop⟩, calls⟩ : Reply α).asserted =
      ⟨.success ⟨value, start, stop⟩, calls⟩ :=
  congrArg (Reply.mk · calls) (Outcome.asserted_of_le h)

theorem asserted_of_lt {value : α} {start stop calls : Nat} (h : stop < start) :
    (⟨.success ⟨value, start, stop⟩, calls⟩ : Reply α).asserted = ⟨.fault .reversedRange, calls⟩ :=
  congrArg (Reply.mk · calls) (Outcome.asserted_of_lt h)

@[simp]
theorem outcome_after (calls : Nat) (reply : Reply α) :
    (reply.after calls).outcome = reply.outcome :=
  rfl

@[simp]
theorem calls_after (calls : Nat) (reply : Reply α) :
    (reply.after calls).calls = calls + reply.calls :=
  rfl

end Reply

/-- The reply of a parser at each position of one input. -/
abbrev Step (α : Type) :=
  Nat → Option (Reply α)

namespace Step

variable {α β : Type}

/-- The step that gives one outcome at once. -/
def done (outcome : Outcome α) : Option (Reply α) :=
  some ⟨outcome, 0⟩

/-- The list with `value` before the values of a success, which now starts at `start`. -/
def prepend (value : α) (start : Nat) : Outcome (List α) → Outcome (List α)
  | .success ⟨values, _, stop⟩ => .success ⟨value :: values, start, stop⟩
  | other => other

@[simp]
theorem prepend_success (value : α) (values : List α) (start origin stop : Nat) :
    prepend value start (.success ⟨values, origin, stop⟩) =
      .success ⟨value :: values, start, stop⟩ :=
  rfl

@[simp]
theorem prepend_failure (value : α) (start : Nat) (reason : Failure) :
    prepend value start (.failure reason) = .failure reason :=
  rfl

@[simp]
theorem prepend_fault (value : α) (start : Nat) (cause : Fault) :
    prepend value start (.fault cause) = .fault cause :=
  rfl

/-- One step after another. Each starts where the one before it stopped, and
the first failure or fault is the answer. The range starts at the position
itself, whatever starts the steps report, and may stop before it. -/
def row : List (Step α) → Step (List α)
  | [], start => done (.success ⟨[], start, start⟩)
  | step :: steps, start =>
    (step start).bind fun reply =>
      reply.andThen fun head =>
        (row steps head.stop).map fun tail =>
          { tail with outcome := prepend head.value start tail.outcome }

/-- One step after another. Only once the last one has succeeded, the range of them
all is asserted to be in order: a step may go back to before its own start, as long as
the row does not end before the start of the first. -/
def inOrder (steps : List (Step α)) : Step (List α) := fun start =>
  (row steps start).map Reply.asserted

/-- The first success of several steps, all tried at one position. A fault ends
the search. When every step fails, the failure names what was expected. -/
def firstOf (name : String) : List (Step α) → Step α
  | [], start => done (.failure (.expected name start))
  | step :: steps, start =>
    (step start).bind fun reply =>
      match reply.outcome with
      | .failure _ => (firstOf name steps start).map (Reply.after reply.calls)
      | .success _ | .fault _ => some reply

/-- One step as often as it succeeds, each time from where it stopped last. The
failure that ends the repetition is dropped. A success that does not move
forward breaks the run down. There is no reply when the rounds never end. -/
def iterate (item repetition : String) (step : Step α) (start : Nat) :
    Option (Reply (List α)) := do
  let reply ← step start
  match reply.outcome with
  | .failure _ => some ⟨.success ⟨[], start, start⟩, reply.calls⟩
  | .fault cause => some ⟨.fault cause, reply.calls⟩
  | .success head =>
    -- Within an input, moving forward is what makes the rounds end.
    if start < head.stop then do
      let tail ← step |>.iterate item repetition head.stop
      return ⟨prepend head.value start tail.outcome, reply.calls + tail.calls⟩
    else some ⟨.fault (.emptyRepetition item repetition start), reply.calls⟩
partial_fixpoint

section Equations

variable {step : Step α} {steps : List (Step α)} {start calls : Nat}

theorem row_cons_success {head : Success α}
    (h : step start = some ⟨.success head, calls⟩) :
    row (step :: steps) start =
      (row steps head.stop).map fun tail =>
        ⟨prepend head.value start tail.outcome, calls + tail.calls⟩ := by
  simp only [row, h, Option.bind_some, Reply.andThen, Option.map_map]
  rfl

theorem row_cons_failure {reason : Failure}
    (h : step start = some ⟨.failure reason, calls⟩) :
    row (step :: steps) start = some ⟨.failure reason, calls⟩ := by
  simp [row, h, Reply.andThen]

theorem row_cons_fault {cause : Fault}
    (h : step start = some ⟨.fault cause, calls⟩) :
    row (step :: steps) start = some ⟨.fault cause, calls⟩ := by
  simp [row, h, Reply.andThen]

theorem firstOf_cons_success {name : String} {head : Success α}
    (h : step start = some ⟨.success head, calls⟩) :
    firstOf name (step :: steps) start = some ⟨.success head, calls⟩ := by
  simp [firstOf, h]

theorem firstOf_cons_failure {name : String} {reason : Failure}
    (h : step start = some ⟨.failure reason, calls⟩) :
    firstOf name (step :: steps) start =
      (firstOf name steps start).map (Reply.after calls) := by
  simp [firstOf, h]

theorem firstOf_cons_fault {name : String} {cause : Fault}
    (h : step start = some ⟨.fault cause, calls⟩) :
    firstOf name (step :: steps) start = some ⟨.fault cause, calls⟩ := by
  simp [firstOf, h]

variable {item repetition : String}

theorem iterate_success {head : Success α}
    (h : step start = some ⟨.success head, calls⟩) (forward : start < head.stop) :
    iterate item repetition step start =
      (iterate item repetition step head.stop).map fun tail =>
        ⟨prepend head.value start tail.outcome, calls + tail.calls⟩ := by
  rw [iterate, h]
  simp only [Option.bind_eq_bind, Option.bind_some, if_pos forward]
  cases iterate item repetition step head.stop <;> rfl

theorem iterate_stuck {head : Success α}
    (h : step start = some ⟨.success head, calls⟩) (stuck : ¬ start < head.stop) :
    iterate item repetition step start =
      some ⟨.fault (.emptyRepetition item repetition start), calls⟩ := by
  rw [iterate, h]
  simp only [Option.bind_eq_bind, Option.bind_some, if_neg stuck]

theorem iterate_failure {reason : Failure}
    (h : step start = some ⟨.failure reason, calls⟩) :
    iterate item repetition step start = some ⟨.success ⟨[], start, start⟩, calls⟩ := by
  rw [iterate, h]
  rfl

theorem iterate_fault {cause : Fault}
    (h : step start = some ⟨.fault cause, calls⟩) :
    iterate item repetition step start = some ⟨.fault cause, calls⟩ := by
  rw [iterate, h]
  rfl

/-- What holds of every way in which a repetition ends, and of one round before
a repetition of which it holds, holds of every repetition that ends. -/
theorem iterate_induction {motive : Nat → Reply (List α) → Prop}
    (failure : ∀ {start calls reason}, step start = some ⟨.failure reason, calls⟩ →
      motive start ⟨.success ⟨[], start, start⟩, calls⟩)
    (fault : ∀ {start calls cause}, step start = some ⟨.fault cause, calls⟩ →
      motive start ⟨.fault cause, calls⟩)
    (stuck : ∀ {start calls head}, step start = some ⟨.success head, calls⟩ →
      ¬ start < head.stop →
        motive start ⟨.fault (.emptyRepetition item repetition start), calls⟩)
    (success : ∀ {start calls head tail}, step start = some ⟨.success head, calls⟩ →
      start < head.stop → motive head.stop tail →
        motive start ⟨prepend head.value start tail.outcome, calls + tail.calls⟩)
    (start : Nat) (reply : Reply (List α))
    (h : iterate item repetition step start = some reply) : motive start reply := by
  refine iterate.partial_correctness item repetition step motive ?_ start reply h
  intro rounds ih start reply replied
  obtain ⟨⟨outcome, calls⟩, head, next⟩ := Option.bind_eq_some_iff.1 replied
  cases outcome with
  | success result =>
    by_cases forward : start < result.stop
    · obtain ⟨tail, later, rest⟩ :=
        Option.bind_eq_some_iff.1 ((if_pos forward).symm.trans next)
      obtain rfl := Option.some.inj rest
      exact success head forward (ih _ _ later)
    · obtain rfl := Option.some.inj ((if_neg forward).symm.trans next)
      exact stuck head forward
  | failure reason =>
    obtain rfl := Option.some.inj next
    exact failure head
  | fault cause =>
    obtain rfl := Option.some.inj next
    exact fault head

end Equations

/-- A step extends another that it agrees with wherever the other replies. -/
def Extends (larger smaller : Step α) : Prop :=
  ∀ start reply, smaller start = some reply → larger start = some reply

section Extends

variable {ι : Type} {larger smaller : ι → Step α} {items : List ι}

theorem row_extends (h : ∀ item ∈ items, Extends (larger item) (smaller item)) :
    Extends (row (items.map larger)) (row (items.map smaller)) := by
  induction items with
  | nil => exact fun _ _ replied => replied
  | cons item items ih =>
    obtain ⟨first, rest⟩ := List.forall_mem_cons.1 h
    intro start reply replied
    simp only [List.map_cons, row, Option.bind_eq_some_iff] at replied ⊢
    obtain ⟨⟨outcome, calls⟩, head, next⟩ := replied
    refine ⟨_, first _ _ head, ?_⟩
    cases outcome with
    | success result =>
      simp only [Reply.andThen, Option.map_eq_some_iff] at next ⊢
      obtain ⟨_, ⟨tail, later, rfl⟩, rfl⟩ := next
      exact ⟨_, ⟨tail, ih rest _ _ later, rfl⟩, rfl⟩
    | failure reason => exact next
    | fault cause => exact next

theorem inOrder_extends (h : ∀ item ∈ items, Extends (larger item) (smaller item)) :
    Extends (inOrder (items.map larger)) (inOrder (items.map smaller)) := by
  intro start reply replied
  obtain ⟨all, run, rfl⟩ := Option.map_eq_some_iff.1 replied
  exact Option.map_eq_some_iff.2 ⟨all, row_extends h _ _ run, rfl⟩

theorem firstOf_extends {name : String}
    (h : ∀ item ∈ items, Extends (larger item) (smaller item)) :
    Extends (firstOf name (items.map larger)) (firstOf name (items.map smaller)) := by
  induction items with
  | nil => exact fun _ _ replied => replied
  | cons item items ih =>
    obtain ⟨first, rest⟩ := List.forall_mem_cons.1 h
    intro start reply replied
    simp only [List.map_cons, firstOf, Option.bind_eq_some_iff] at replied ⊢
    obtain ⟨⟨outcome, calls⟩, head, next⟩ := replied
    refine ⟨_, first _ _ head, ?_⟩
    cases outcome with
    | success result => exact next
    | failure reason =>
      simp only [Option.map_eq_some_iff] at next ⊢
      obtain ⟨tail, later, rfl⟩ := next
      exact ⟨tail, ih rest _ _ later, rfl⟩
    | fault cause => exact next

theorem iterate_extends {item repetition : String} {larger smaller : Step α}
    (h : Extends larger smaller) :
    Extends (iterate item repetition larger) (iterate item repetition smaller) :=
  iterate_induction
    (fun head => iterate_failure (h _ _ head))
    (fun head => iterate_fault (h _ _ head))
    (fun head stuck => iterate_stuck (h _ _ head) stuck)
    (fun head forward later => by rw [iterate_success (h _ _ head) forward, later]; rfl)

end Extends

end Step

end Peg
