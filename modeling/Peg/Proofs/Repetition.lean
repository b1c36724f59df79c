import Mathlib.Logic.Basic
import Peg.Proofs.Derivation

/-!
# Rounds of a repetition

A repetition runs its item in rounds, each from where the last one stopped, for as
long as they move forward. The rounds are set by the item alone: they go on to the
first place where it does not succeed further on, and what it does there decides
between the values of the rounds and a breakdown.

Nothing here asks where an item starts its successes, nor that it stays within the
input. Rounds are few enough because offsets are bounded.

## Main definitions

* `Step.Rounds`: successes that move forward one after another.
* `Step.Halts`: no further round begins at a place.
* `Step.SettlesBelow`: a step succeeds or fails at every offset below a limit.
* `Step.counted`: a step whose runs are counted.
* `InRounds`: what a repetition makes of its rounds.

## Main results

* `Step.Rounds.unique`: there is one way to go in rounds to where they halt.
* `Step.SettlesBelow.exists_rounds`: rounds below a limit come to a halt.
* `runAt_many_eq_some_iff`: a repetition runs its item in rounds.
* `runAt_many_exactly`: what exactly a repetition does with an item that succeeds or
  fails wherever it is run.
-/

namespace Peg

namespace Step

variable {α : Type}

/-- Rounds of a step from `start` to `stop`, with their successes and that many
references followed. Each begins where the one before it stopped, and moves forward. -/
inductive Rounds (step : Step α) : Nat → List (Success α) → Nat → Nat → Prop
  | nil {start : Nat} : Rounds step start [] start 0
  | cons {start stop callsHead callsTail : Nat} {head : Success α} {heads : List (Success α)}
      (first : step start = some ⟨.success head, callsHead⟩) (forward : start < head.stop)
      (rest : Rounds step head.stop heads stop callsTail) :
      Rounds step start (head :: heads) stop (callsHead + callsTail)

/-- No round begins at `place`: a success there does not move forward. -/
def Halts (step : Step α) (place : Nat) : Prop :=
  ∀ head calls, step place = some ⟨.success head, calls⟩ → head.stop ≤ place

/-- At every offset below the limit, the step fails, or succeeds and stops below the
limit again. -/
def SettlesBelow (step : Step α) (limit : Nat) : Prop :=
  ∀ place < limit,
    (∃ head calls, step place = some ⟨.success head, calls⟩ ∧ head.stop < limit) ∨
      ∃ reason calls, step place = some ⟨.failure reason, calls⟩

/-- The step with each of its runs counted, as following a reference is. -/
def counted (step : Step α) : Step α :=
  fun place => (step place).map (Reply.after 1)

variable {step : Step α} {start stop stop' place calls calls' callsLast : Nat}
  {heads heads' : List (Success α)} {reason : Failure}

theorem halts_of_failure (h : step place = some ⟨.failure reason, calls⟩) : step.Halts place := by
  intro head calls success
  rw [h] at success
  cases success

theorem halts_of_success {head : Success α} (h : step place = some ⟨.success head, calls⟩)
    (stuck : head.stop ≤ place) : step.Halts place := by
  intro head' calls' success
  rw [h] at success
  cases success
  exact stuck

theorem counted_eq_some {outcome : Outcome α} (h : step place = some ⟨outcome, calls⟩) :
    step.counted place = some ⟨outcome, 1 + calls⟩ := by
  rw [counted, h]
  rfl

namespace Rounds

/-- Every round moves forward by one at least. -/
theorem add_length_le (h : Rounds step start heads stop calls) : start + heads.length ≤ stop := by
  induction h with
  | nil => exact Nat.le_refl _
  | cons _ forward _ ih =>
    rw [List.length_cons]
    omega

/-- **Uniqueness of rounds.** Rounds from one place that lead to where no further round
begins are the same. -/
theorem unique (h : Rounds step start heads stop calls) (halts : step.Halts stop)
    (h' : Rounds step start heads' stop' calls') (halts' : step.Halts stop') :
    heads = heads' ∧ stop = stop' ∧ calls = calls' := by
  induction h generalizing heads' calls' with
  | nil =>
    cases h' with
    | nil => exact ⟨rfl, rfl, rfl⟩
    | cons first forward _ => exact absurd forward (Nat.not_lt_of_le (halts _ _ first))
  | cons first forward _ ih =>
    cases h' with
    | nil => exact absurd forward (Nat.not_lt_of_le (halts' _ _ first))
    | cons first' _ rest' =>
      -- Both begin with the one success that the step has at this place.
      cases first.symm.trans first'
      obtain ⟨rfl, rfl, rfl⟩ := ih halts rest'
      exact ⟨rfl, rfl, rfl⟩

variable {item repetition : String}

/-- Rounds up to a failure are gathered. -/
theorem iterate_failure (h : Rounds step start heads stop calls)
    (last : step stop = some ⟨.failure reason, callsLast⟩) :
    iterate item repetition step start =
      some ⟨.success ⟨heads.map Success.value, start, stop⟩, calls + callsLast⟩ := by
  induction h with
  | nil => rw [Step.iterate_failure last, Nat.zero_add]; rfl
  | cons first forward _ ih =>
    rw [Step.iterate_success first forward, ih last, Nat.add_assoc]
    rfl

/-- What breaks a repetition down does so behind any rounds. -/
theorem iterate_fault {cause : Fault} (h : Rounds step start heads stop calls)
    (later : iterate item repetition step stop = some ⟨.fault cause, callsLast⟩) :
    iterate item repetition step start = some ⟨.fault cause, calls + callsLast⟩ := by
  induction h with
  | nil => rw [later, Nat.zero_add]
  | cons first forward _ ih =>
    rw [Step.iterate_success first forward, ih later, Nat.add_assoc]
    rfl

/-- A repetition runs its step once for each round, and once more where the rounds halt. -/
theorem iterate_counted (h : Rounds step start heads stop calls) (halts : step.Halts stop) :
    iterate item repetition step.counted start =
      (iterate item repetition step start).map (Reply.after (heads.length + 1)) := by
  induction h with
  | @nil start =>
    -- One run is left. It decides the repetition, whether it has an outcome or not.
    cases last : step start with
    | none =>
      rw [iterate, iterate, Step.counted, last]
      rfl
    | some reply =>
      obtain ⟨outcome, callsLast⟩ := reply
      have again := counted_eq_some last
      cases outcome with
      | success head =>
        have stuck := Nat.not_lt_of_le (halts head callsLast last)
        rw [iterate_stuck again stuck, iterate_stuck last stuck]
        rfl
      | failure reason =>
        rw [Step.iterate_failure again, Step.iterate_failure last]
        rfl
      | fault cause =>
        rw [Step.iterate_fault again, Step.iterate_fault last]
        rfl
  | @cons start stop callsHead callsTail head heads first forward _ ih =>
    rw [iterate_success (counted_eq_some first) forward, iterate_success first forward, ih halts,
      Option.map_map, Option.map_map]
    congr 1
    funext tail
    simp only [Function.comp_apply, Reply.after, List.length_cons, Reply.mk.injEq, true_and]
    omega

end Rounds

namespace SettlesBelow

variable {limit : Nat}

/-- Rounds from below the limit stay below it. -/
theorem stop_lt (settles : step.SettlesBelow limit) (h : Rounds step start heads stop calls)
    (within : start < limit) : stop < limit := by
  induction h with
  | nil => exact within
  | @cons start stop _ _ head _ first _ _ ih =>
    obtain ⟨head', calls', success, bounded⟩ | ⟨reason, calls', failure⟩ := settles start within
    · cases first.symm.trans success
      exact ih bounded
    · cases first.symm.trans failure

/-- Rounds below a limit come to a halt, by induction on how far the limit is. -/
theorem exists_rounds (settles : step.SettlesBelow limit) (within : start < limit) :
    ∃ heads stop calls, Rounds step start heads stop calls ∧ step.Halts stop := by
  induction left : limit - start using Nat.strongRecOn generalizing start with
  | ind remaining ih =>
    obtain ⟨head, callsHead, first, bounded⟩ | ⟨reason, callsHead, first⟩ := settles start within
    · by_cases forward : start < head.stop
      -- The limit is less far from where this round stops.
      · obtain ⟨heads, stop, calls, rest, halts⟩ :=
          ih (limit - head.stop) (by omega) bounded rfl
        exact ⟨_, stop, _, .cons first forward rest, halts⟩
      · exact ⟨[], start, 0, .nil, halts_of_success first (Nat.le_of_not_lt forward)⟩
    · exact ⟨[], start, 0, .nil, halts_of_failure first⟩

end SettlesBelow

end Step

/-- What a repetition makes of its rounds: the values of the successes in a row if the
item fails at the end of them. If it succeeds there without moving forward, or breaks
down, so does the repetition. -/
inductive InRounds (rules : Rules) (input : String) (item : Parser) (start : Nat) :
    Outcome Value → Nat → Prop
  | failure {heads : List (Success Value)} {stop calls callsLast : Nat} {reason : Failure}
      (rounds : Step.Rounds (item.runAt rules input) start heads stop calls)
      (last : item.runAt rules input stop = some ⟨.failure reason, callsLast⟩) :
      InRounds rules input item start
        (.success ⟨.list (heads.map Success.value), start, stop⟩) (calls + callsLast)
  | stuck {heads : List (Success Value)} {head : Success Value} {stop calls callsLast : Nat}
      (rounds : Step.Rounds (item.runAt rules input) start heads stop calls)
      (last : item.runAt rules input stop = some ⟨.success head, callsLast⟩)
      (stuck : ¬ stop < head.stop) :
      InRounds rules input item start
        (.fault (.emptyRepetition item.name (Parser.many item).name stop)) (calls + callsLast)
  | fault {heads : List (Success Value)} {stop calls callsLast : Nat} {cause : Fault}
      (rounds : Step.Rounds (item.runAt rules input) start heads stop calls)
      (last : item.runAt rules input stop = some ⟨.fault cause, callsLast⟩) :
      InRounds rules input item start (.fault cause) (calls + callsLast)

variable {rules : Rules} {input : String} {item : Parser} {start stop calls callsLast : Nat}
  {outcome : Outcome Value}

/-- A repetition that is derived goes in rounds, by induction on its derivation. -/
theorem InRounds.of_derives (h : Derives rules input (.many item) start outcome calls) :
    InRounds rules input item start outcome calls := by
  generalize whole : Parser.many item = parser at h
  induction h with
  | many_done first =>
    cases whole
    have here := InRounds.failure .nil first.runAt_eq
    rwa [Nat.zero_add] at here
  | many_stuck first stuck =>
    cases whole
    have here := InRounds.stuck .nil first.runAt_eq stuck
    rwa [Nat.zero_add] at here
  | many_fault first =>
    cases whole
    have here := InRounds.fault .nil first.runAt_eq
    rwa [Nat.zero_add] at here
  -- The rounds after the first one end as the whole repetition does.
  | many_next first forward _ _ ih =>
    cases whole
    obtain ⟨rounds, last⟩ := ih rfl
    rw [← Nat.add_assoc]
    exact .failure (.cons first.runAt_eq forward rounds) last
  | many_later first forward _ _ ih =>
    cases whole
    obtain _ | ⟨rounds, last, stuck⟩ | ⟨rounds, last⟩ := ih rfl
    · rw [← Nat.add_assoc]
      exact .stuck (.cons first.runAt_eq forward rounds) last stuck
    · rw [← Nat.add_assoc]
      exact .fault (.cons first.runAt_eq forward rounds) last
  | _ => cases whole

/-- A repetition runs its item in rounds. -/
theorem runAt_many_eq_some_iff :
    (Parser.many item).runAt rules input start = some ⟨outcome, calls⟩ ↔
      InRounds rules input item start outcome calls := by
  constructor
  · exact fun h => .of_derives (derives_of_runAt h)
  · rintro (⟨rounds, last⟩ | ⟨rounds, last, stuck⟩ | ⟨rounds, last⟩)
    · rw [Parser.runAt_many, rounds.iterate_failure last]
      rfl
    · rw [Parser.runAt_many, rounds.iterate_fault (Step.iterate_stuck last stuck)]
      rfl
    · rw [Parser.runAt_many, rounds.iterate_fault (Step.iterate_fault last)]
      rfl

/-- The words of a repetition that breaks down. -/
theorem message?_emptyRepetition (item : Parser) (place : Nat) :
    (Fault.emptyRepetition item.name (Parser.many item).name place).message? =
      some s!"`{item.name}` matched empty input at {place} inside `{item.name}*`" := by
  simp [Fault.message?, Parser.name, String.append_assoc, toString]

/-- **Exact repetition.** Take an item that succeeds or fails at every offset below a limit,
such as the number of offsets of 64 bits, and stops its successes below the limit as well. It
may report any start, jump past the end of the input or move backward. From below the
limit, there is a single way to go forward in rounds to where no further round begins.
Either the item fails there, and the repetition succeeds with the values of the rounds, or
it succeeds without moving forward, and the repetition breaks down and tells so. The item
is run once for each round and once more, as is seen when all of its runs are counted. -/
theorem runAt_many_exactly {limit : Nat}
    (settles : Step.SettlesBelow (item.runAt rules input) limit) (within : start < limit) :
    ∃ heads stop calls, Step.Rounds (item.runAt rules input) start heads stop calls ∧
      Xor
        (∃ reason callsLast, item.runAt rules input stop = some ⟨.failure reason, callsLast⟩ ∧
          (Parser.many item).runAt rules input start =
            some ⟨.success ⟨.list (heads.map Success.value), start, stop⟩, calls + callsLast⟩)
        (∃ head callsLast cause,
          item.runAt rules input stop = some ⟨.success head, callsLast⟩ ∧ head.stop ≤ stop ∧
          (Parser.many item).runAt rules input start = some ⟨.fault cause, calls + callsLast⟩ ∧
          cause.message? =
            some s!"`{item.name}` matched empty input at {stop} inside `{item.name}*`") ∧
      (∀ heads' stop' calls', Step.Rounds (item.runAt rules input) start heads' stop' calls' →
        Step.Halts (item.runAt rules input) stop' → heads' = heads ∧ stop' = stop) ∧
      heads.length ≤ stop - start ∧
      (Step.iterate item.name (Parser.many item).name (Step.counted (item.runAt rules input))
          start).map Reply.listed =
        ((Parser.many item).runAt rules input start).map (Reply.after (heads.length + 1)) := by
  obtain ⟨heads, stop, calls, rounds, halts⟩ := settles.exists_rounds within
  have unique : ∀ heads' stop' calls',
      Step.Rounds (item.runAt rules input) start heads' stop' calls' →
        Step.Halts (item.runAt rules input) stop' → heads' = heads ∧ stop' = stop := by
    intro heads' stop' calls' rounds' halts'
    obtain ⟨sameHeads, sameStop, -⟩ := rounds'.unique halts' rounds halts
    exact ⟨sameHeads, sameStop⟩
  have few : heads.length ≤ stop - start := by
    have far := rounds.add_length_le
    omega
  have counted : (Step.iterate item.name (Parser.many item).name
      (Step.counted (item.runAt rules input)) start).map Reply.listed =
        ((Parser.many item).runAt rules input start).map (Reply.after (heads.length + 1)) := by
    rw [Parser.runAt_many, rounds.iterate_counted halts, Option.map_map, Option.map_map]
    rfl
  refine ⟨heads, stop, calls, rounds, ?_, unique, few, counted⟩
  have below := settles.stop_lt rounds within
  -- Behind the last round the item settles once more, and this decides between the two.
  obtain ⟨head, callsLast, last, -⟩ | ⟨reason, callsLast, last⟩ := settles stop below
  · have stuck := halts head callsLast last
    have whole := runAt_many_eq_some_iff.2 (.stuck rounds last (Nat.not_lt_of_le stuck))
    have message := message?_emptyRepetition item stop
    refine .inr ⟨⟨head, callsLast, _, last, stuck, whole, message⟩, ?_⟩
    rintro ⟨_, _, fails, -⟩
    cases last.symm.trans fails
  · have whole := runAt_many_eq_some_iff.2 (.failure rounds last)
    refine .inl ⟨⟨reason, callsLast, last, whole⟩, ?_⟩
    rintro ⟨_, _, _, succeeds, -⟩
    cases last.symm.trans succeeds

/-- A function that leaps to offset 9, past the end of short inputs, and from there back
to the beginning, where it claims to have started. -/
def leap : Parser :=
  .function "leap" ⟨fun _ place => .success ⟨.unit, 0, if place < 9 then 9 else 0⟩,
    fun _ _ => Nat.zero_le _⟩

/-- After one round, the leap back breaks the repetition down. The message tells where it
was made from, although there is no such place in the input. -/
theorem runAt_many_exactly_leap :
    Step.SettlesBelow (leap.runAt [] "ab") UInt64.size ∧ ∃ cause calls,
      (Parser.many leap).runAt [] "ab" 1 = some ⟨.fault cause, calls⟩ ∧
      cause.message? = some "`leap` matched empty input at 9 inside `leap*`" := by
  have settles : Step.SettlesBelow (leap.runAt [] "ab") UInt64.size := by
    intro place _
    refine .inl ⟨_, _, rfl, ?_⟩
    dsimp only
    split <;> decide
  have round : Step.Rounds (leap.runAt [] "ab") 1 [⟨.unit, 0, 9⟩] 9 0 :=
    .cons rfl (by decide) .nil
  have back : leap.runAt [] "ab" 9 = some ⟨.success ⟨.unit, 0, 0⟩, 0⟩ := rfl
  obtain ⟨heads, stop, calls, -, decided, unique, -⟩ :=
    runAt_many_exactly settles (by decide : 1 < UInt64.size)
  obtain ⟨rfl, rfl⟩ := unique _ _ _ round (Step.halts_of_success back (by decide))
  refine ⟨settles, ?_⟩
  obtain ⟨⟨reason, _, fails, -⟩, -⟩ | ⟨⟨_, _, cause, -, -, whole, message⟩, -⟩ := decided
  · cases back.symm.trans fails
  · exact ⟨cause, _, whole, message⟩

end Peg
