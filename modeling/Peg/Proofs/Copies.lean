import Mathlib.Data.Nat.SuccPred
import Mathlib.Order.Interval.Set.Monotone
import Peg.Proofs.Items
import Peg.Proofs.Repetition

/-!
# Copies of a parser

A sequence of copies of one parser runs it a given number of times, and gives up with
the first failure. A repetition runs it as often as it succeeds, and drops the failure.
The number of values of a repetition is the one up to which sequences of copies
succeed, and the failure that it drops is the one that all longer sequences give.

## Main definitions

* `Parser.copies`: a parser several times in a row.

## Main results

* `Step.Rounds.chain`, `Chain.exists_rounds`: rounds are chains of copies that move forward.
* `Chain.runAt_last`: what fails behind a chain is the item behind it.
* `runAt_many_longest`: a repetition is the longest sequence of copies.
-/

namespace Peg

/-- A parser several times in a row. -/
def Parser.copies (item : Parser) (count : Nat) : Parser :=
  .sequence (List.replicate count item)

variable {rules : Rules} {input : String} {item : Parser} {items : List Parser}
  {start middle stop calls callsBefore count : Nat} {values : List Value} {reason : Failure}

/-! ### Rounds as chains -/

theorem Step.Rounds.chain {heads : List (Success Value)}
    (h : Step.Rounds (item.runAt rules input) start heads stop calls) :
    Chain rules input (List.replicate heads.length item) start (heads.map Success.value) stop
      calls := by
  induction h with
  | nil => exact .nil
  | cons first _ _ ih => exact .cons first ih

/-- Rounds lead from place to place, each of them further on than the ones before. -/
theorem Step.Rounds.exists_ends {α : Type} {step : Step α} {heads : List (Success α)}
    (h : Step.Rounds step start heads stop calls) :
    ∃ ends : Nat → Nat, StrictMonoOn ends (Set.Iic heads.length) ∧ ends heads.length = stop ∧
      ∀ count ≤ heads.length, ∃ calls,
        Step.Rounds step start (heads.take count) (ends count) calls := by
  suffices ∃ ends : Nat → Nat, ends 0 = start ∧
      (∀ count < heads.length, ends count < ends (count + 1)) ∧ ends heads.length = stop ∧
      ∀ count ≤ heads.length, ∃ calls,
        Step.Rounds step start (heads.take count) (ends count) calls by
    obtain ⟨ends, -, rising, last, before⟩ := this
    exact ⟨ends, strictMonoOn_Iic_of_lt_succ rising, last, before⟩
  induction h with
  | @nil start => exact ⟨fun _ => start, rfl, nofun, rfl, fun _ _ => ⟨0, by simpa using .nil⟩⟩
  | @cons start stop callsHead _ head heads first forward _ ih =>
    obtain ⟨ends, begins, rising, last, before⟩ := ih
    -- The place behind one round more is the place behind the rounds after the first one.
    refine ⟨fun count => Nat.casesOn count start ends, rfl, ?_, last, ?_⟩
    · rintro (_ | count) less
      · exact forward.trans_eq begins.symm
      · exact rising count (Nat.lt_of_succ_lt_succ less)
    · rintro (_ | count) le
      · exact ⟨0, .nil⟩
      · obtain ⟨calls, rounds⟩ := before count (Nat.le_of_succ_le_succ le)
        exact ⟨callsHead + calls, .cons first forward rounds⟩

/-- A chain of copies goes in rounds if each of the copies stops further on. -/
theorem Chain.exists_rounds
    (h : Chain rules input (List.replicate count item) start values stop calls)
    (rising : ∀ fewer < count, ∀ {before after : List Value} {middle later calls calls' : Nat},
      Chain rules input (List.replicate fewer item) start before middle calls →
      Chain rules input (List.replicate (fewer + 1) item) start after later calls' →
        middle < later) :
    ∃ heads, Step.Rounds (item.runAt rules input) start heads stop calls ∧
      heads.map Success.value = values := by
  induction count generalizing start values calls with
  | zero =>
    cases h
    exact ⟨[], .nil, rfl⟩
  | succ count ih =>
    obtain _ | ⟨first, rest⟩ := h
    -- The first copy moves forward because a sequence without copies stops where it starts.
    have forward := rising 0 (Nat.zero_lt_succ _) .nil (.cons first .nil)
    obtain ⟨heads, rounds, same⟩ := ih rest fun fewer less _ _ _ _ _ _ before after =>
      rising (fewer + 1) (Nat.succ_lt_succ less) (.cons first before) (.cons first after)
    exact ⟨_ :: heads, .cons first forward rounds, congrArg (_ :: ·) same⟩

/-- If a chain succeeds and fails with one more item, then it is this item that fails. -/
theorem Chain.runAt_last (h : Chain rules input items start values middle callsBefore)
    (fails : (Parser.sequence (items ++ [item])).runAt rules input start =
      some ⟨.failure reason, calls⟩) :
    ∃ callsLast, item.runAt rules input middle = some ⟨.failure reason, callsLast⟩ ∧
      calls = callsBefore + callsLast := by
  rw [runAt_eq_some_iff_derives] at fails
  cases fails with
  | sequence_cut cut =>
    induction h generalizing calls with
    | nil =>
      cases cut with
      | here last _ => exact ⟨_, last.runAt_eq, (Nat.zero_add _).symm⟩
      | later _ rest => cases rest
    | cons first _ ih =>
      cases cut with
      | here stops _ => cases ((derives_of_runAt first).unique stops).1
      | later again rest =>
        obtain ⟨same, rfl⟩ := (derives_of_runAt first).unique again
        cases same
        obtain ⟨callsLast, last, rfl⟩ := ih rest
        exact ⟨callsLast, last, (Nat.add_assoc _ _ _).symm⟩

/-! ### Sequences of copies -/

/-- A sequence of copies succeeds if they form a chain that leads on. -/
theorem runAt_copies_eq_some_iff {origin : Nat} :
    (item.copies count).runAt rules input start =
        some ⟨.success ⟨.list values, origin, stop⟩, calls⟩ ↔
      Chain rules input (List.replicate count item) start values stop calls ∧
        origin = start ∧ start ≤ stop := by
  rw [Parser.copies, runAt_sequence_eq_some_iff]
  constructor
  · rintro (⟨chain, ordered⟩ | _ | ⟨_, _, _, stops⟩)
    · exact ⟨chain, rfl, ordered⟩
    · exact absurd (Outcome.isSuccess_success _) stops
  · rintro ⟨chain, rfl, ordered⟩
    exact .all chain ordered

/-- A sequence of copies stops where they lead. -/
theorem Chain.stop_of_runAt_copies {result : Success Value}
    (h : Chain rules input (List.replicate count item) start values stop callsBefore)
    (succeeds : (item.copies count).runAt rules input start = some ⟨.success result, calls⟩) :
    result.stop = stop := by
  obtain ⟨values', same, -, -⟩ := (derives_of_runAt succeeds).row_of_sequence
  rw [same] at succeeds
  exact ((runAt_copies_eq_some_iff.1 succeeds).1.unique h).2.1

/-- Where an item fails behind a chain of copies, so do all sequences of more copies. -/
theorem Chain.runAt_copies_of_lt {fewer callsLast : Nat}
    (h : Chain rules input (List.replicate fewer item) start values stop calls)
    (last : item.runAt rules input stop = some ⟨.failure reason, callsLast⟩)
    (less : fewer < count) :
    (item.copies count).runAt rules input start = some ⟨.failure reason, calls + callsLast⟩ := by
  obtain ⟨more, rfl⟩ := Nat.exists_eq_add_of_lt less
  have cut : List.replicate (fewer + more + 1) item =
      List.replicate fewer item ++ item :: List.replicate more item := by
    rw [← List.replicate_succ, List.replicate_append_replicate, Nat.add_assoc]
  rw [Parser.copies, runAt_sequence_eq_some_iff]
  exact .stop cut h last (Outcome.not_isSuccess_failure reason)

/-- **The longest sequence of copies.** If a repetition succeeds, then so do the sequences
of no more copies of the item than it has values. They give the first of these values, and
stop further on with each copy, up to where the repetition stops. All sequences of more
copies fail as the item does there, which is the failure that the repetition has dropped.
Conversely, if the sequences of up to some number of copies succeed, stop further on with
each copy, and fail with one copy more, then the repetition gives the values of the longest
of them. -/
theorem runAt_many_longest :
    (∀ result calls,
      (Parser.many item).runAt rules input start = some ⟨.success result, calls⟩ →
      ∃ values ends reason, result = ⟨.list values, start, ends values.length⟩ ∧
        StrictMonoOn ends (Set.Iic values.length) ∧
        (∀ count ≤ values.length, ∃ calls, (item.copies count).runAt rules input start =
          some ⟨.success ⟨.list (values.take count), start, ends count⟩, calls⟩) ∧
        (∃ calls, item.runAt rules input result.stop = some ⟨.failure reason, calls⟩) ∧
        ∀ count > values.length,
          (item.copies count).runAt rules input start = some ⟨.failure reason, calls⟩) ∧
    (∀ count values origin stop reason calls calls',
      (item.copies count).runAt rules input start =
        some ⟨.success ⟨.list values, origin, stop⟩, calls⟩ →
      (∀ fewer < count, ∃ before after calls calls',
        (item.copies fewer).runAt rules input start = some ⟨.success before, calls⟩ ∧
        (item.copies (fewer + 1)).runAt rules input start = some ⟨.success after, calls'⟩ ∧
          before.stop < after.stop) →
      (item.copies (count + 1)).runAt rules input start = some ⟨.failure reason, calls'⟩ →
        (Parser.many item).runAt rules input start =
          some ⟨.success ⟨.list values, start, stop⟩, calls'⟩) := by
  constructor
  · intro result calls whole
    cases runAt_many_eq_some_iff.1 whole with
    | @failure heads _ callsRounds callsLast reason rounds last =>
      obtain ⟨ends, rising, rfl, before⟩ := rounds.exists_ends
      have same : (heads.map Success.value).length = heads.length := List.length_map Success.value
      rw [← same] at rising before
      refine ⟨heads.map Success.value, ends, reason, by rw [same], rising, ?_, ⟨_, last⟩, ?_⟩
      · intro count le
        obtain ⟨calls, rounds⟩ := before count le
        have chain := rounds.chain
        rw [List.length_take, Nat.min_eq_left (same ▸ le), List.map_take] at chain
        have forward := rounds.add_length_le
        exact ⟨calls, runAt_copies_eq_some_iff.2 ⟨chain, rfl, by omega⟩⟩
      · intro count more
        rw [same] at more
        exact rounds.chain.runAt_copies_of_lt last more
  · intro count values origin stop reason calls calls' succeeds rising fails
    obtain ⟨chain, -⟩ := runAt_copies_eq_some_iff.1 succeeds
    obtain ⟨heads, rounds, rfl⟩ := chain.exists_rounds fun fewer less _ _ _ _ _ _ before after => by
      obtain ⟨result, result', _, _, first, second, forward⟩ := rising fewer less
      rwa [before.stop_of_runAt_copies first, after.stop_of_runAt_copies second] at forward
    -- The last copy is run where the repetition runs its item for the last time.
    rw [Parser.copies, List.replicate_succ'] at fails
    obtain ⟨callsLast, last, rfl⟩ := chain.runAt_last fails
    exact runAt_many_eq_some_iff.2 (.failure rounds last)

/-- Two accented letters are read as two copies, from which it follows that they are read
in two rounds, and from this that more copies fail behind them. -/
theorem runAt_many_longest_accents :
    (Parser.many (.literal "é")).runAt [] "ééa" 0 =
      some ⟨.success ⟨.list [.text "é", .text "é"], 0, 4⟩, 0⟩ ∧
    ∀ count > 2, ((Parser.literal "é").copies count).runAt [] "ééa" 0 =
      some ⟨.failure (.expected "é" 4), 0⟩ := by
  have none : ((Parser.literal "é").copies 0).runAt [] "ééa" 0 =
      some ⟨.success ⟨.list [], 0, 0⟩, 0⟩ := rfl
  have one : ((Parser.literal "é").copies 1).runAt [] "ééa" 0 =
      some ⟨.success ⟨.list [.text "é"], 0, 2⟩, 0⟩ := rfl
  have two : ((Parser.literal "é").copies 2).runAt [] "ééa" 0 =
      some ⟨.success ⟨.list [.text "é", .text "é"], 0, 4⟩, 0⟩ := rfl
  have three : ((Parser.literal "é").copies 3).runAt [] "ééa" 0 =
      some ⟨.failure (.expected "é" 4), 0⟩ := rfl
  have last : (Parser.literal "é").runAt [] "ééa" 4 =
      some ⟨.failure (.expected "é" 4), 0⟩ := rfl
  have whole := runAt_many_longest.2 2 _ _ _ _ _ _ two (by
    rintro (_ | _ | fewer) less
    · exact ⟨_, _, _, _, none, one, by decide⟩
    · exact ⟨_, _, _, _, one, two, by decide⟩
    · omega) three
  obtain ⟨values, ends, reason, same, -, -, ⟨_, dropped⟩, more⟩ := runAt_many_longest.1 _ _ whole
  obtain ⟨rfl, -⟩ : values = [.text "é", .text "é"] ∧ ends values.length = 4 := by
    simpa [eq_comm] using same
  cases last.symm.trans dropped
  exact ⟨whole, more⟩

end Peg
