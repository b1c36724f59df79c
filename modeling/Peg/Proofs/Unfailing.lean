import Peg.Proofs.Balanced
import Peg.Proofs.Repetition
import Peg.Proofs.Termination

/-!
# Repetitions of parsers that cannot fail

A repetition goes on until its item fails. Some parsers can be seen never to fail, a
repetition itself among them. With such an item there are only two ways on: further, or
nowhere. The input ends, so that some round reads nothing in the end, on every input. This
round breaks the repetition down.

## Main definitions

* `Parser.IsUnfailing`: parsers that never fail, as far as their trees show.

## Main results

* `Parser.IsUnfailing.not_fails`: they never do.
* `exists_standstill`: what succeeds everywhere comes to a place where it reads nothing.
* `runAt_many_unfailing`: the repetition of an unfailing parser breaks down there.
-/

namespace Peg

namespace Parser

/-- A parser that never fails, as far as its tree shows. References are not looked into. -/
inductive IsUnfailing : Parser → Prop
  | pure : IsUnfailing .pure
  | many (item : Parser) : IsUnfailing (.many item)
  | map {item : Parser} {change : Value → Except Fault Value} (inner : IsUnfailing item) :
      IsUnfailing (.map item change)
  | capture {item : Parser} (inner : IsUnfailing item) : IsUnfailing (.capture item)
  | sequence {items : List Parser} (inner : ∀ item ∈ items, IsUnfailing item) :
      IsUnfailing (.sequence items)
  | alternate {items : List Parser} {item : Parser} (member : item ∈ items)
      (inner : IsUnfailing item) : IsUnfailing (.alternate items)

variable {rules : Rules} {input : String} {parser item : Parser} {items : List Parser}
  {start : Nat}

/-- A sequence of any number of parsers is unfailing if all of them are. -/
theorem IsUnfailing.seqAll (h : ∀ item ∈ items, item.IsUnfailing) :
    (Parser.seqAll items).IsUnfailing :=
  seqAll_of_forall .pure (fun first second => .sequence (by simp [first, second]))
    (fun _ each => .map each) h

/-- A choice among any number of parsers is unfailing if one of them is. -/
theorem IsUnfailing.altAll (member : item ∈ items) (h : item.IsUnfailing) :
    (Parser.altAll items).IsUnfailing := by
  refine halved_induction (motive := fun items tree =>
    (∃ item ∈ items, item.IsUnfailing) → tree.IsUnfailing) ?_ ?_ (List.ne_nil_of_mem member)
    ⟨item, member, h⟩
  · rintro item ⟨_, only, h⟩
    exact List.mem_singleton.1 only ▸ h
  · rintro before after first second - - - left right ⟨item, member, h⟩
    obtain early | late := List.mem_append.1 member
    · exact .alternate List.mem_cons_self (left ⟨item, early, h⟩)
    · exact .alternate (List.mem_cons_of_mem _ List.mem_cons_self) (right ⟨item, late, h⟩)

/-- An unfailing parser never fails, by induction on what makes it unfailing. -/
theorem IsUnfailing.not_fails (h : parser.IsUnfailing) : ¬ Fails rules input parser start := by
  induction h generalizing start with
  | pure =>
    rintro ⟨reason, calls, run⟩
    cases run
  | many item =>
    rintro ⟨reason, calls, run⟩
    exact not_derives_many_failure (derives_of_runAt run)
  | map _ ih =>
    rintro ⟨reason, calls, run⟩
    cases derives_of_runAt run with
    | map_stop inner _ => exact ih ⟨reason, calls, inner.runAt_eq⟩
  | capture _ ih =>
    rintro ⟨reason, calls, run⟩
    cases derives_of_runAt run with
    | capture_stop inner _ => exact ih ⟨reason, calls, inner.runAt_eq⟩
  | sequence _ ih =>
    -- The failure of a sequence is that of one of its items.
    rintro ⟨reason, calls, run⟩
    cases runAt_sequence_eq_some_iff.1 run with
    | stop cut _ last _ => exact ih _ (by simp [cut]) ⟨reason, _, last⟩
  | alternate member _ ih =>
    -- A choice fails only if all of its items do.
    rintro ⟨reason, calls, run⟩
    cases runAt_alternate_eq_some_iff.1 run with
    | settles _ _ _ settles => exact settles (Outcome.isFailure_failure reason)
    | none fail => exact ih (exists_allFail_iff.1 ⟨calls, fail⟩ _ member)

/-- So it succeeds if it returns at all. -/
theorem IsUnfailing.succeeds (h : parser.IsUnfailing)
    (returns : Settles rules input parser start) : Succeeds rules input parser start :=
  (settles_iff.1 returns).resolve_right h.not_fails

end Parser

variable {rules : Rules} {input : String} {item : Parser} {start place calls : Nat}
  {result : Success Value} {heads : List (Success Value)}

/-- What succeeds from every place on comes to a place where it reads nothing, in rounds that
move forward. The induction is on what is left of the input. -/
theorem exists_standstill (own : item.IsFunctionFree) (ownRules : rules.AreFunctionFree)
    (within : start ≤ input.utf8ByteSize)
    (succeeds : ∀ place, start ≤ place → place ≤ input.utf8ByteSize →
      Succeeds rules input item place) :
    ∃ heads place calls value callsLast,
      Step.Rounds (item.runAt rules input) start heads place calls ∧
      place ≤ input.utf8ByteSize ∧
      item.runAt rules input place = some ⟨.success ⟨value, place, place⟩, callsLast⟩ := by
  induction left : input.utf8ByteSize - start using Nat.strongRecOn generalizing start with
  | ind remaining ih =>
    obtain ⟨⟨value, origin, stop⟩, callsHead, run⟩ := succeeds start (Nat.le_refl _) within
    obtain ⟨begins, -⟩ := (derives_of_runAt run).lands own ownRules within
    obtain rfl : origin = start := begins
    obtain ⟨le, further⟩ : origin ≤ stop ∧ stop ≤ input.utf8ByteSize :=
      (derives_of_runAt run).le_stop own ownRules within
    -- A round that moves forward leaves less of the input. One that does not is the last.
    obtain forward | stays := Nat.lt_or_eq_of_le le
    · obtain ⟨heads, place, calls, value', callsLast, rounds, before, last⟩ :=
        ih (input.utf8ByteSize - stop) (by omega) further
          (fun place behind => succeeds place (Nat.le_trans le behind)) rfl
      exact ⟨_, place, _, value', callsLast, .cons run forward rounds, before, last⟩
    · obtain rfl : origin = stop := stays
      exact ⟨[], origin, 0, value, callsHead, .nil, within, run⟩

/-- A repetition reads nothing more where it has stopped. -/
theorem runAt_many_again
    (h : (Parser.many item).runAt rules input start = some ⟨.success result, calls⟩) :
    start ≤ result.stop ∧ ∃ callsLast, (Parser.many item).runAt rules input result.stop =
      some ⟨.success ⟨.list [], result.stop, result.stop⟩, callsLast⟩ := by
  cases runAt_many_eq_some_iff.1 h with
  | failure rounds last =>
    exact ⟨Nat.le_of_add_right_le rounds.add_length_le, _,
      runAt_many_eq_some_iff.2 (.failure .nil last)⟩

/-- Rounds of a repetition are one round at most: they halt where it stops at first. -/
theorem Step.Rounds.stop_eq_of_many
    (h : Step.Rounds ((Parser.many item).runAt rules input) start heads place calls)
    (halts : Step.Halts ((Parser.many item).runAt rules input) place) {callsFirst : Nat}
    (first : (Parser.many item).runAt rules input start = some ⟨.success result, callsFirst⟩) :
    result.stop = place := by
  obtain ⟨le, _, again⟩ := runAt_many_again first
  have stands := Step.halts_of_success again (Nat.le_refl _)
  -- The first run is a round, unless it is empty. The rounds to where they halt are unique.
  obtain forward | stays := Nat.lt_or_eq_of_le le
  · obtain ⟨-, same, -⟩ := (Step.Rounds.cons first forward .nil).unique stands h halts
    exact same
  · rw [← stays] at stands ⊢
    obtain ⟨-, same, -⟩ := Step.Rounds.nil.unique stands h halts
    exact same

/-- **Repeating what cannot fail.** In a grammar without functions, let an unfailing parser
return from every place from some place within the input on. The repetition of the parser
then breaks down, and does nothing else. It does so at the first place on the way, in rounds
that move forward, where the parser reads nothing, and tells this place. If the parser is a
repetition itself, this is where it stops at first. -/
theorem runAt_many_unfailing (unfailing : item.IsUnfailing) (own : item.IsFunctionFree)
    (ownRules : rules.AreFunctionFree) (within : start ≤ input.utf8ByteSize)
    (returns : ∀ place, start ≤ place → place ≤ input.utf8ByteSize →
      Settles rules input item place) :
    ∃ heads place calls value callsLast cause,
      (Parser.many item).runAt rules input start = some ⟨.fault cause, calls + callsLast⟩ ∧
      cause.message? =
        some s!"`{item.name}` matched empty input at {place} inside `{item.name}*`" ∧
      start ≤ place ∧ place ≤ input.utf8ByteSize ∧
      Step.Rounds (item.runAt rules input) start heads place calls ∧
      item.runAt rules input place = some ⟨.success ⟨value, place, place⟩, callsLast⟩ ∧
      ∀ inner, item = .many inner → ∃ result calls,
        item.runAt rules input start = some ⟨.success result, calls⟩ ∧ result.stop = place := by
  have succeeds : ∀ place, start ≤ place → place ≤ input.utf8ByteSize →
      Succeeds rules input item place :=
    fun place behind before => unfailing.succeeds (returns place behind before)
  obtain ⟨heads, place, calls, value, callsLast, rounds, before, last⟩ :=
    exists_standstill own ownRules within succeeds
  have whole := runAt_many_eq_some_iff.2 (.stuck rounds last (Nat.lt_irrefl place))
  refine ⟨heads, place, calls, value, callsLast, _, whole, message?_emptyRepetition item place,
    Nat.le_of_add_right_le rounds.add_length_le, before, rounds, last, ?_⟩
  rintro inner rfl
  obtain ⟨result, callsFirst, first⟩ := succeeds start (Nat.le_refl _) within
  exact ⟨result, callsFirst, first,
    rounds.stop_eq_of_many (Step.halts_of_success last (Nat.le_refl place)) first⟩

/-- Accented letters, and then `b` if it is there. -/
def accented : Parser :=
  .seqAll [.many (.literal "é"), .altAll [.literal "b", .pure]]

/-- Its second part does not have to be there, and its first part may be empty. -/
theorem isUnfailing_accented : accented.IsUnfailing := by
  refine .seqAll (List.forall_mem_cons.2 ⟨.many _, List.forall_mem_singleton.2 ?_⟩)
  exact .altAll (List.mem_cons_of_mem _ List.mem_cons_self) .pure

/-- A run takes the letters that are there, and then the second part. -/
theorem runAt_accented {input : String} {start middle stop calls callsLast : Nat}
    {value : Value} {letters : List Value}
    (first : (Parser.many (.literal "é")).runAt [] input start =
      some ⟨.success ⟨.list letters, start, middle⟩, calls⟩)
    (second : (Parser.alternate [.literal "b", .pure]).runAt [] input middle =
      some ⟨.success ⟨value, middle, stop⟩, callsLast⟩) :
    accented.runAt [] input start =
      some ⟨.success ⟨.list [.list letters, value], start, stop⟩, calls + callsLast⟩ := by
  rw [accented, Parser.runAt_seqAll_pair, Parser.altAll_pair]
  have head := derives_of_runAt first
  have last := derives_of_runAt second
  have forth : start ≤ middle := head.isOrdered
  have further : middle ≤ stop := last.isOrdered
  have row := Row.cons head (.cons last .nil)
  exact (Derives.sequence_all row (Nat.le_trans forth further)).runAt_eq

/-- Two rounds read all letters. In the third one there is nothing to read, although the input
has not ended. The letters alone are read in one round, and in the second one there are none. -/
theorem runAt_many_unfailing_accented :
    (∃ cause calls,
      (Parser.many accented).runAt [] "éébb!" 0 = some ⟨.fault cause, calls⟩ ∧
      cause.message? =
        some "`é*→b|successful` matched empty input at 6 inside `é*→b|successful*`") ∧
    ∃ cause calls,
      (Parser.many (.many (.literal "é"))).runAt [] "éébb!" 0 = some ⟨.fault cause, calls⟩ ∧
      cause.message? = some "`é*` matched empty input at 4 inside `é**`" := by
  have formedRules : Rules.IsWellFormed [] := .of_rank (fun _ => 0) nofun nofun
  have ownRules : Rules.AreFunctionFree [] := formedRules.areFunctionFree
  have letters : (Parser.many (.literal "é")).IsWellFormed [] :=
    .many .literal (.literal (by decide))
  have last : (Parser.altAll [.literal "b", .pure]).IsWellFormed [] :=
    .altAll (List.forall_mem_cons.2 ⟨.literal, List.forall_mem_singleton.2 .pure⟩)
  have formed : accented.IsWellFormed [] :=
    .seqAll (List.forall_mem_cons.2 ⟨letters, List.forall_mem_singleton.2 last⟩)
  have first : (Parser.literal "é").runAt [] "éébb!" 0 =
      some ⟨.success ⟨.text "é", 0, 2⟩, 0⟩ := rfl
  have second : (Parser.literal "é").runAt [] "éébb!" 2 =
      some ⟨.success ⟨.text "é", 2, 4⟩, 0⟩ := rfl
  have early : (Parser.many (.literal "é")).runAt [] "éébb!" 0 =
      some ⟨.success ⟨.list [.text "é", .text "é"], 0, 4⟩, 0⟩ :=
    runAt_many_eq_some_iff.2
      (.failure (.cons first (by decide) (.cons second (by decide) .nil)) rfl)
  have none (place : Nat) (last : (Parser.literal "é").runAt [] "éébb!" place =
      some ⟨.failure (.expected "é" place), 0⟩) :
      (Parser.many (.literal "é")).runAt [] "éébb!" place =
        some ⟨.success ⟨.list [], place, place⟩, 0⟩ :=
    runAt_many_eq_some_iff.2 (.failure .nil last)
  have nothing : accented.runAt [] "éébb!" 6 =
      some ⟨.success ⟨.list [.list [], .unit], 6, 6⟩, 0⟩ := runAt_accented (none 6 rfl) rfl
  have way : Step.Rounds (accented.runAt [] "éébb!") 0 _ 6 0 :=
    .cons (runAt_accented early rfl) (by decide)
      (.cons (runAt_accented (none 5 rfl) rfl) (by decide) .nil)
  have named : accented.name = "é*→b|successful" := by
    rw [accented, Parser.name_seqAll (List.cons_ne_nil _ _), Parser.altAll_pair]
    rfl
  constructor
  · obtain ⟨heads, place, calls, value, callsLast, cause, whole, message, -, -, rounds, stuck, -⟩ :=
      runAt_many_unfailing isUnfailing_accented formed.isFunctionFree ownRules (Nat.zero_le _)
        fun place _ before => .of_isWellFormed formed formedRules before
    obtain ⟨-, rfl, -⟩ := rounds.unique (Step.halts_of_success stuck (Nat.le_refl _)) way
      (Step.halts_of_success nothing (Nat.le_refl _))
    rw [named] at message
    exact ⟨cause, _, whole, message⟩
  · obtain ⟨heads, place, calls, value, callsLast, cause, whole, message, -, -, -, -, again⟩ :=
      runAt_many_unfailing (.many (.literal "é")) letters.isFunctionFree ownRules (Nat.zero_le _)
        fun place _ before => .of_isWellFormed letters formedRules before
    obtain ⟨result, _, first, rfl⟩ := again _ rfl
    cases early.symm.trans first
    exact ⟨cause, _, whole, message⟩

end Peg
