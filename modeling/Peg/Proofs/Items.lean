import Peg.Proofs.Derivation

/-!
# Items in turn

A sequence runs its items from place to place until one of them does not
succeed. A choice runs its items at one place until one of them does not fail.
Both are told here by the runs of the items alone.

## Main definitions

* `Succeeds`, `Fails`: how a parser ends at a place.
* `Parser.IsForward`: a parser that does not go back.
* `Chain`: items that succeed one after another, each where the last one stopped.
* `AllFail`: items that fail at one place.
* `InTurn`, `FirstToSettle`: what a sequence and a choice make of these.

## Main results

* `runAt_sequence_eq_some_iff`: a sequence runs its items in turn.
* `runAt_alternate_eq_some_iff`: a choice gives the first outcome that is no failure.
-/

namespace Peg

/-- The run of the parser succeeds. -/
def Succeeds (rules : Rules) (input : String) (parser : Parser) (start : Nat) : Prop :=
  ∃ result calls, parser.runAt rules input start = some ⟨.success result, calls⟩

/-- The run of the parser fails. -/
def Fails (rules : Rules) (input : String) (parser : Parser) (start : Nat) : Prop :=
  ∃ reason calls, parser.runAt rules input start = some ⟨.failure reason, calls⟩

/-- No run of the parser stops before the place where it is run. -/
def Parser.IsForward (rules : Rules) (input : String) (parser : Parser) : Prop :=
  ∀ start result calls,
    parser.runAt rules input start = some ⟨.success result, calls⟩ → start ≤ result.stop

/-- The items succeed one after another from `start` to `stop`, each where the one
before it stopped, with these values and that many references followed. -/
abbrev Chain (rules : Rules) (input : String) :
    List Parser → Nat → List Value → Nat → Nat → Prop :=
  Row fun item start outcome calls => item.runAt rules input start = some ⟨outcome, calls⟩

/-- All items fail at `start`, after following that many references. -/
inductive AllFail (rules : Rules) (input : String) (start : Nat) : List Parser → Nat → Prop
  | nil : AllFail rules input start [] 0
  | cons {item : Parser} {items : List Parser} {callsHead callsTail : Nat} {reason : Failure}
      (first : item.runAt rules input start = some ⟨.failure reason, callsHead⟩)
      (rest : AllFail rules input start items callsTail) :
      AllFail rules input start (item :: items) (callsHead + callsTail)

/-- What items give that are run in turn: their values in a row, if the last one does not
stop before the first one starts, or the outcome of the first one that does not succeed. -/
inductive InTurn (rules : Rules) (input : String) (items : List Parser) (start : Nat) :
    Outcome Value → Nat → Prop
  | all {values : List Value} {stop calls : Nat}
      (chain : Chain rules input items start values stop calls) (ordered : start ≤ stop) :
      InTurn rules input items start (.success ⟨.list values, start, stop⟩) calls
  | back {values : List Value} {stop calls : Nat}
      (chain : Chain rules input items start values stop calls) (back : stop < start) :
      InTurn rules input items start (.fault .reversedRange) calls
  | stop {before after : List Parser} {item : Parser} {values : List Value}
      {middle callsBefore calls : Nat} {outcome : Outcome Value}
      (cut : items = before ++ item :: after)
      (chain : Chain rules input before start values middle callsBefore)
      (last : item.runAt rules input middle = some ⟨outcome, calls⟩)
      (stops : ¬ outcome.IsSuccess) : InTurn rules input items start outcome (callsBefore + calls)

/-- What items give of which the first is taken that does not fail: its outcome, or
a failure in the name of all. -/
inductive FirstToSettle (rules : Rules) (input : String) (items : List Parser) (start : Nat) :
    Outcome Value → Nat → Prop
  | settles {before after : List Parser} {item : Parser} {callsBefore calls : Nat}
      {outcome : Outcome Value} (cut : items = before ++ item :: after)
      (fail : AllFail rules input start before callsBefore)
      (first : item.runAt rules input start = some ⟨outcome, calls⟩)
      (settles : ¬ outcome.IsFailure) :
      FirstToSettle rules input items start outcome (callsBefore + calls)
  | none {calls : Nat} (fail : AllFail rules input start items calls) :
      FirstToSettle rules input items start
        (.failure ⟨"Expected: " ++ "|".intercalate (items.map Parser.name), start⟩) calls

variable {rules : Rules} {input : String} {item : Parser} {items : List Parser}
  {start calls : Nat} {outcome : Outcome Value}

/-! ### Sequences -/

/-- Items that never go back lead on. -/
theorem Chain.le_of_forward {values : List Value} {stop : Nat}
    (h : Chain rules input items start values stop calls)
    (forward : ∀ item ∈ items, item.IsForward rules input) : start ≤ stop := by
  induction h with
  | nil => exact Nat.le_refl _
  | cons first _ ih =>
    obtain ⟨head, tail⟩ := List.forall_mem_cons.1 forward
    exact Nat.le_trans (head _ _ _ first) (ih tail)

/-- The same items lead from one place to one other place. -/
theorem Chain.unique {values values' : List Value} {stop stop' calls' : Nat}
    (h : Chain rules input items start values stop calls)
    (h' : Chain rules input items start values' stop' calls') :
    values = values' ∧ stop = stop' ∧ calls = calls' := by
  have same := h.steps_eq.symm.trans h'.steps_eq
  cases same
  exact ⟨rfl, rfl, rfl⟩

/-- The steps of items succeed one after another if the items do. -/
theorem row_runAt_eq_success_iff {result : Success (List Value)} :
    Step.row (items.map fun item => item.runAt rules input) start =
        some ⟨.success result, calls⟩ ↔
      result.start = start ∧ Chain rules input items start result.value result.stop calls := by
  constructor
  · intro h
    obtain ⟨begins, row⟩ := row_of_steps (fun _ _ _ _ => derives_of_runAt) h
    exact ⟨begins, row.imp Derives.runAt_eq⟩
  · obtain ⟨values, origin, stop⟩ := result
    rintro ⟨rfl, chain⟩
    exact chain.steps_eq

/-- A sequence runs its items in turn. -/
theorem runAt_sequence_eq_some_iff :
    (Parser.sequence items).runAt rules input start = some ⟨outcome, calls⟩ ↔
      InTurn rules input items start outcome calls := by
  constructor
  · intro h
    cases derives_of_runAt h with
    | sequence_all row ordered => exact .all (row.imp Derives.runAt_eq) ordered
    | sequence_back row back => exact .back (row.imp Derives.runAt_eq) back
    | sequence_cut cut =>
      obtain ⟨before, item, after, values, middle, callsBefore, callsLast, same, row, last, rfl⟩ :=
        cut.exists_row
      exact .stop same (row.imp Derives.runAt_eq) last.runAt_eq cut.not_isSuccess
  · rintro (⟨chain, ordered⟩ | ⟨chain, back⟩ | ⟨rfl, chain, last, stops⟩)
    · exact (Derives.sequence_all (chain.imp derives_of_runAt) ordered).runAt_eq
    · exact (Derives.sequence_back (chain.imp derives_of_runAt) back).runAt_eq
    · exact (Derives.sequence_cut ((chain.cutShort last stops _).imp derives_of_runAt)).runAt_eq

/-! ### Choices -/

/-- All items fail if each of them does, after however many references. -/
theorem exists_allFail_iff :
    (∃ calls, AllFail rules input start items calls) ↔
      ∀ item ∈ items, Fails rules input item start := by
  constructor
  · rintro ⟨calls, fail⟩
    induction fail with
    | nil => simp
    | cons first _ ih => exact List.forall_mem_cons.2 ⟨⟨_, _, first⟩, ih⟩
  · intro each
    induction items with
    | nil => exact ⟨0, .nil⟩
    | cons item items ih =>
      obtain ⟨⟨reason, calls, first⟩, rest⟩ := List.forall_mem_cons.1 each
      obtain ⟨callsRest, fail⟩ := ih rest
      exact ⟨calls + callsRest, .cons first fail⟩

theorem AllFail.derives (h : AllFail rules input start items calls) :
    Derives rules input (.alternate items) start
      (.failure ⟨"Expected: " ++ "|".intercalate (items.map Parser.name), start⟩) calls := by
  induction h with
  | nil => exact .alternate_nil
  | @cons item items _ _ _ first _ ih =>
    rw [← Parser.names_eq_map]
    exact .alternate_none (derives_of_runAt first) ih

/-- An item that does not fail ends the choice, whatever failed before it. -/
theorem AllFail.derives_settles {before after : List Parser} {callsBefore : Nat}
    (h : AllFail rules input start before callsBefore)
    (first : item.runAt rules input start = some ⟨outcome, calls⟩)
    (settles : ¬ outcome.IsFailure) :
    Derives rules input (.alternate (before ++ item :: after)) start outcome
      (callsBefore + calls) := by
  induction h with
  | nil =>
    rw [Nat.zero_add]
    exact .alternate_first (derives_of_runAt first) settles
  | cons fails _ ih =>
    rw [Nat.add_assoc]
    exact .alternate_next (derives_of_runAt fails) ih settles

theorem FirstToSettle.of_derives
    (h : Derives rules input (.alternate items) start outcome calls) :
    FirstToSettle rules input items start outcome calls := by
  induction items generalizing outcome calls with
  | nil =>
    cases h
    exact .none .nil
  | cons item items ih =>
    cases h with
    | alternate_first first settles =>
      have here :=
        FirstToSettle.settles (List.nil_append (item :: items)).symm .nil first.runAt_eq settles
      rwa [Nat.zero_add] at here
    | alternate_next first rest settles =>
      -- The rest has an outcome that is no failure, so one of its items has given it.
      obtain ⟨cut, fail, winner, _⟩ | _ := ih rest
      · rw [← Nat.add_assoc]
        exact .settles (by rw [cut, List.cons_append]) (.cons first.runAt_eq fail) winner settles
      · exact absurd (Outcome.isFailure_failure _) settles
    | alternate_none first rest =>
      obtain ⟨_, _, _, settles⟩ | fail := ih rest
      · exact absurd (Outcome.isFailure_failure _) settles
      · -- The failure of the rest is lost. The new one names the first item as well.
        rw [Parser.name, Parser.names_eq_map]
        exact .none (.cons first.runAt_eq fail)

/-- A choice gives the outcome of the first item that does not fail. -/
theorem runAt_alternate_eq_some_iff :
    (Parser.alternate items).runAt rules input start = some ⟨outcome, calls⟩ ↔
      FirstToSettle rules input items start outcome calls := by
  constructor
  · exact fun h => .of_derives (derives_of_runAt h)
  · rintro (⟨rfl, fail, first, settles⟩ | fail)
    · exact (fail.derives_settles first settles).runAt_eq
    · exact fail.derives.runAt_eq

end Peg
