import Peg.Parser.Function
import Peg.Proofs.Grouping
import Peg.Proofs.Items

/-!
# Branches with a common beginning

A choice among sequences that begin with the same parsers may be written with these
parsers once, before a choice among what is left of each. Every branch of the first form
runs the common beginning again, from the same place and with the same outcome, so that
nothing is carried over from a branch that was given up. The second form runs it once,
and follows fewer references.

The two forms differ in where they fail. A choice fails where it is run. The second form
fails where the common beginning fails, or behind it. They differ as well where what is left
of a branch goes back: of the branch as a whole it is asserted only that it does not stop
before its own start, but of what is left of it that it does not stop before the common
beginning has.

## Main definitions

* `Parser.spelledOut`, `Parser.factored`: the two forms.
* `Behind`: what a parser gives behind values that were read before.

## Main results

* `Step.behind_firstOf`: choices give what is behind the values if their items do.
* `runAt_factored`: the two forms are the same, unless what is left of a branch goes back,
  and but for where and how they fail.
-/

namespace Peg

/-- A choice among branches, each of them spelled out with the parsers that they share. -/
def Parser.spelledOut (shared : List Parser) (branches : List (List Parser)) : Parser :=
  .alternate (branches.map fun branch => .sequence (shared ++ branch))

/-- The shared parsers once, before a choice among what is left of the branches. -/
def Parser.factored (shared : List Parser) (branches : List (List Parser)) : Parser :=
  .sequence (shared ++ [.alternate (branches.map .sequence)])

/-- The second reply is the first one behind values that were read from `start` to
`middle`, for which that many references at least were followed. There is none if there is
no first one. The first one must not stop before `middle`, and the second one not before
`start`, lest they break down. -/
inductive Behind (values : List Value) (start middle earlier : Nat) :
    Option (Reply Value) → Option (Reply Value) → Prop
  | none : Behind values start middle earlier none none
  | success {more : List Value} {origin stop calls calls' : Nat} (le : earlier + calls ≤ calls')
      (ordered : start ≤ stop) (forth : middle ≤ stop) :
      Behind values start middle earlier (some ⟨.success ⟨.list more, origin, stop⟩, calls⟩)
        (some ⟨.success ⟨.list (values ++ more), start, stop⟩, calls'⟩)
  | inside {more : List Value} {stop calls calls' : Nat} (le : earlier + calls ≤ calls')
      (ordered : start ≤ stop) (back : stop < middle) :
      Behind values start middle earlier (some ⟨.fault .reversedRange, calls⟩)
        (some ⟨.success ⟨.list (values ++ more), start, stop⟩, calls'⟩)
  | outside {more : List Value} {origin stop calls calls' : Nat} (le : earlier + calls ≤ calls')
      (back : stop < start) :
      Behind values start middle earlier (some ⟨.success ⟨.list more, origin, stop⟩, calls⟩)
        (some ⟨.fault .reversedRange, calls'⟩)
  | failure {reason reason' : Failure} {calls calls' : Nat} (le : earlier + calls ≤ calls') :
      Behind values start middle earlier (some ⟨.failure reason, calls⟩)
        (some ⟨.failure reason', calls'⟩)
  | fault {cause : Fault} {calls calls' : Nat} (le : earlier + calls ≤ calls') :
      Behind values start middle earlier (some ⟨.fault cause, calls⟩)
        (some ⟨.fault cause, calls'⟩)

theorem Behind.mono {values : List Value} {start middle earlier fewer : Nat}
    {inner outer : Option (Reply Value)} (h : Behind values start middle earlier inner outer)
    (le : fewer ≤ earlier) : Behind values start middle fewer inner outer := by
  cases h with
  | none => exact .none
  | success more ordered forth => exact .success (by omega) ordered forth
  | inside more ordered back => exact .inside (by omega) ordered back
  | outside more back => exact .outside (by omega) back
  | failure more => exact .failure (by omega)
  | fault more => exact .fault (by omega)

namespace Step

variable {values : List Value} {start middle earlier : Nat} {name name' : String}

/-- A choice goes on in the same way behind the values, by what its first item does. -/
theorem behind_firstOf_cons {inner outer : Step Value} {inners outers : List (Step Value)}
    (first : Behind values start middle earlier (inner middle) (outer start))
    (rest : Behind values start middle 0 (firstOf name inners middle)
      (firstOf name' outers start)) :
    Behind values start middle earlier (firstOf name (inner :: inners) middle)
      (firstOf name' (outer :: outers) start) := by
  generalize replied : inner middle = reply at first
  generalize replied' : outer start = reply' at first
  cases first with
  | none =>
    rw [firstOf_cons_none replied, firstOf_cons_none replied']
    exact .none
  | success le ordered forth =>
    rw [firstOf_cons_success replied, firstOf_cons_success replied']
    exact .success le ordered forth
  | inside le ordered back =>
    rw [firstOf_cons_fault replied, firstOf_cons_success replied']
    exact .inside le ordered back
  | outside le back =>
    rw [firstOf_cons_success replied, firstOf_cons_fault replied']
    exact .outside le back
  | fault le =>
    rw [firstOf_cons_fault replied, firstOf_cons_fault replied']
    exact .fault le
  | @failure _ _ calls calls' le =>
    -- Both failures are dropped, and the references up to them are counted.
    have both {more more' : Nat} (le' : 0 + more ≤ more') :
        earlier + (calls + more) ≤ calls' + more' := by omega
    rw [firstOf_cons_failure replied, firstOf_cons_failure replied']
    generalize firstOf name inners middle = later at rest
    generalize firstOf name' outers start = later' at rest
    cases rest with
    | none => exact .none
    | success le' ordered forth => exact .success (both le') ordered forth
    | inside le' ordered back => exact .inside (both le') ordered back
    | outside le' back => exact .outside (both le') back
    | failure le' => exact .failure (both le')
    | fault le' => exact .fault (both le')

/-- Choices give what is behind the values if each of their items does. -/
theorem behind_firstOf {ι : Type} {items : List ι} {inner outer : ι → Step Value}
    (each : ∀ item, Behind values start middle earlier (inner item middle) (outer item start)) :
    Behind values start middle 0 (firstOf name (items.map inner) middle)
      (firstOf name' (items.map outer) start) := by
  induction items with
  | nil => exact .failure (Nat.le_refl _)
  | cons item items ih =>
    exact behind_firstOf_cons ((each item).mono (Nat.zero_le _)) ih

/-- A choice fails if all of its items do in the same way, and runs all of them. -/
theorem firstOf_of_failure {steps : List (Step Value)} {reason : Failure} {calls : Nat}
    (h : ∀ step ∈ steps, step start = some ⟨.failure reason, calls⟩) :
    firstOf name steps start =
      some ⟨.failure (.expected name start), steps.length * calls⟩ := by
  induction steps with
  | nil => simp [firstOf, done]
  | cons step steps ih =>
    obtain ⟨first, rest⟩ := List.forall_mem_cons.1 h
    rw [firstOf_cons_failure first, ih rest, List.length_cons, Nat.succ_mul, Nat.add_comm]
    rfl

end Step

section Rows

variable {rules : Rules} {input : String} {shared branch items : List Parser}
  {values : List Value} {start origin middle calls : Nat}

/-- A row of parsers is run up to the shared ones, and goes on from there. -/
theorem runAt_sequence_append :
    (Parser.sequence (shared ++ branch)).runAt rules input start =
      (((Step.row (shared.map fun item => item.runAt rules input) start).bind fun reply =>
        reply.andThen fun head =>
          (Step.row (branch.map fun item => item.runAt rules input) head.stop).map fun tail =>
            { tail with outcome := Step.prependAll head.value start tail.outcome }).map
              Reply.asserted).map Reply.listed := by
  rw [Parser.runAt_sequence, Step.inOrder, List.map_append, Step.row_append]

/-- A row has no outcome if its beginning has none. -/
theorem runAt_sequence_append_none
    (h : Step.row (shared.map fun item => item.runAt rules input) start = none) :
    (Parser.sequence (shared ++ branch)).runAt rules input start = none := by
  rw [runAt_sequence_append, h]
  rfl

/-- A row fails as its beginning does. -/
theorem runAt_sequence_append_failure {reason : Failure}
    (h : Step.row (shared.map fun item => item.runAt rules input) start =
      some ⟨.failure reason, calls⟩) :
    (Parser.sequence (shared ++ branch)).runAt rules input start =
      some ⟨.failure reason, calls⟩ := by
  rw [runAt_sequence_append, h]
  rfl

/-- A row breaks down as its beginning does. -/
theorem runAt_sequence_append_fault {cause : Fault}
    (h : Step.row (shared.map fun item => item.runAt rules input) start =
      some ⟨.fault cause, calls⟩) :
    (Parser.sequence (shared ++ branch)).runAt rules input start =
      some ⟨.fault cause, calls⟩ := by
  rw [runAt_sequence_append, h]
  rfl

/-- A branch gives what is behind the values of the shared parsers. -/
theorem behind_runAt_sequence
    (h : Step.row (shared.map fun item => item.runAt rules input) start =
      some ⟨.success ⟨values, start, middle⟩, calls⟩) :
    Behind values start middle calls ((Parser.sequence branch).runAt rules input middle)
      ((Parser.sequence (shared ++ branch)).runAt rules input start) := by
  rw [runAt_sequence_append, h, Parser.runAt_sequence, Step.inOrder]
  simp only [Option.bind_some, Reply.andThen]
  cases last : Step.row (branch.map fun item => item.runAt rules input) middle with
  | none => exact .none
  | some reply =>
    obtain ⟨⟨more, origin, stop⟩ | reason | cause, callsBranch⟩ := reply
    · obtain rfl : middle = origin := (Step.start_of_row last).1.symm
      -- Of the branch it is asserted that it leads on from the shared parsers, and of both
      -- together that they lead on from the first one.
      simp only [Option.map_some, Step.prependAll, Reply.after]
      rcases Nat.lt_or_ge stop start with before | ordered <;>
        rcases Nat.lt_or_ge stop middle with back | forth
      · rw [Reply.asserted_of_lt before, Reply.asserted_of_lt back]
        exact .fault (Nat.le_refl _)
      · rw [Reply.asserted_of_lt before, Reply.asserted_of_le forth]
        exact .outside (Nat.le_refl _) before
      · rw [Reply.asserted_of_le ordered, Reply.asserted_of_lt back]
        exact .inside (Nat.le_refl _) ordered back
      · rw [Reply.asserted_of_le ordered, Reply.asserted_of_le forth]
        exact .success (Nat.le_refl _) ordered forth
    · exact .failure (Nat.le_refl _)
    · exact .fault (Nat.le_refl _)

/-- A single parser behind the shared ones is run where they stop. -/
theorem runAt_sequence_last (item : Parser)
    (h : Step.row (shared.map fun item => item.runAt rules input) start =
      some ⟨.success ⟨values, start, middle⟩, calls⟩) :
    (Parser.sequence (shared ++ [item])).runAt rules input start =
      (item.runAt rules input middle).map fun reply =>
        Reply.listed (Reply.asserted ⟨Step.prependAll values start
          (reply.outcome.map fun value => .ok [value]), calls + reply.calls⟩) := by
  rw [runAt_sequence_append, h, List.map_singleton]
  simp only [Option.bind_some, Reply.andThen]
  cases last : item.runAt rules input middle with
  | none => simp [Step.row, last]
  | some reply =>
    obtain ⟨⟨value, begin', stop⟩ | reason | cause, callsItem⟩ := reply
    · rw [Step.row_cons_success last]; rfl
    · rw [Step.row_cons_failure last]; rfl
    · rw [Step.row_cons_fault last]; rfl

/-- A choice fails where it is run, in its own name. -/
theorem eq_expected_of_runAt_alternate {reason : Failure}
    (h : (Parser.alternate items).runAt rules input start = some ⟨.failure reason, calls⟩) :
    reason = .expected (Parser.alternate items).name start := by
  rw [Parser.name_alternate]
  cases runAt_alternate_eq_some_iff.1 h with
  | settles _ _ _ settles => exact absurd (Outcome.isFailure_failure reason) settles
  | none _ => rfl

/-! ### The two forms -/

variable {branches : List (List Parser)}

theorem runAt_spelledOut :
    (Parser.spelledOut shared branches).runAt rules input start =
      Step.firstOf (Parser.spelledOut shared branches).name
        (branches.map fun branch => (Parser.sequence (shared ++ branch)).runAt rules input)
          start := by
  rw [Parser.spelledOut, Parser.runAt_alternate, List.map_map]
  rfl

theorem runAt_spelledOut_none (nonempty : branches ≠ [])
    (h : Step.row (shared.map fun item => item.runAt rules input) start = none) :
    (Parser.spelledOut shared branches).runAt rules input start = none := by
  obtain ⟨branch, rest, rfl⟩ := List.exists_cons_of_ne_nil nonempty
  rw [runAt_spelledOut]
  exact Step.firstOf_cons_none (runAt_sequence_append_none h)

/-- The first form runs the shared parsers for every branch if they fail. -/
theorem runAt_spelledOut_failure {reason : Failure}
    (h : Step.row (shared.map fun item => item.runAt rules input) start =
      some ⟨.failure reason, calls⟩) :
    (Parser.spelledOut shared branches).runAt rules input start =
      some ⟨.failure (.expected (Parser.spelledOut shared branches).name start),
        branches.length * calls⟩ := by
  have all : ∀ step ∈ branches.map fun branch =>
      (Parser.sequence (shared ++ branch)).runAt rules input,
      step start = some ⟨.failure reason, calls⟩ := by
    simpa using fun branch _ => runAt_sequence_append_failure h
  rw [runAt_spelledOut, Step.firstOf_of_failure all, List.length_map]

theorem runAt_spelledOut_fault {cause : Fault} (nonempty : branches ≠ [])
    (h : Step.row (shared.map fun item => item.runAt rules input) start =
      some ⟨.fault cause, calls⟩) :
    (Parser.spelledOut shared branches).runAt rules input start = some ⟨.fault cause, calls⟩ := by
  obtain ⟨branch, rest, rfl⟩ := List.exists_cons_of_ne_nil nonempty
  rw [runAt_spelledOut]
  exact Step.firstOf_cons_fault (runAt_sequence_append_fault h)

/-- Where the shared parsers succeed, the first form gives what is behind their values. It runs
them once at least. -/
theorem behind_spelledOut (nonempty : branches ≠ [])
    (h : Step.row (shared.map fun item => item.runAt rules input) start =
      some ⟨.success ⟨values, start, middle⟩, calls⟩) :
    Behind values start middle calls
      ((Parser.alternate (branches.map .sequence)).runAt rules input middle)
      ((Parser.spelledOut shared branches).runAt rules input start) := by
  obtain ⟨branch, rest, rfl⟩ := List.exists_cons_of_ne_nil nonempty
  have each (branch : List Parser) :
      Behind values start middle calls ((Parser.sequence branch).runAt rules input middle)
        ((Parser.sequence (shared ++ branch)).runAt rules input start) := behind_runAt_sequence h
  rw [runAt_spelledOut, Parser.runAt_alternate, List.map_map]
  exact Step.behind_firstOf_cons (each branch) (Step.behind_firstOf each)

end Rows

/-- **Left factoring.** Take branches, one at least, that begin with the same parsers. The
choice among the branches that are spelled out, and the shared parsers before a choice among
what is left of the branches, either both have no outcome, both succeed over the same range
with the same values in order, both break down in the same way, or both fail. The second
form follows no more references. There is one exception: where the first form succeeds and
stops before the place to which the shared parsers lead, the second form breaks down, since
what is left of the branch goes back there. When they fail, the first form does so where it
is run. The second form hands on the failure of the shared parsers, or fails at the place to
which these lead. -/
theorem runAt_factored (rules : Rules) (shared : List Parser) {branches : List (List Parser)}
    (nonempty : branches ≠ []) (input : String) (start : Nat) :
    ((Parser.spelledOut shared branches).runAt rules input start = none ∧
      (Parser.factored shared branches).runAt rules input start = none) ∨
    (∃ values more middle stop callsShared calls calls',
      (Parser.spelledOut shared branches).runAt rules input start =
        some ⟨.success ⟨.list (values ++ more), start, stop⟩, calls⟩ ∧
      Chain rules input shared start values middle callsShared ∧
      ((middle ≤ stop ∧ (Parser.factored shared branches).runAt rules input start =
          some ⟨.success ⟨.list (values ++ [.list more]), start, stop⟩, calls'⟩) ∨
        (stop < middle ∧ (Parser.factored shared branches).runAt rules input start =
          some ⟨.fault .reversedRange, calls'⟩)) ∧
      calls' ≤ calls) ∨
    (∃ cause calls calls',
      (Parser.spelledOut shared branches).runAt rules input start = some ⟨.fault cause, calls⟩ ∧
      (Parser.factored shared branches).runAt rules input start = some ⟨.fault cause, calls'⟩ ∧
      calls' ≤ calls) ∨
    ∃ reason reason' calls calls',
      (Parser.spelledOut shared branches).runAt rules input start =
        some ⟨.failure reason, calls⟩ ∧
      (Parser.factored shared branches).runAt rules input start =
        some ⟨.failure reason', calls'⟩ ∧
      calls' ≤ calls ∧ reason.position = start ∧
      ((∃ callsShared, (Parser.sequence shared).runAt rules input start =
          some ⟨.failure reason', callsShared⟩) ∨
        ∃ values callsShared,
          Chain rules input shared start values reason'.position callsShared) := by
  -- Either the shared parsers decide both forms, or both go on with a choice behind them.
  cases begins : Step.row (shared.map fun item => item.runAt rules input) start with
  | none =>
    exact .inl ⟨runAt_spelledOut_none nonempty begins, runAt_sequence_append_none begins⟩
  | some reply =>
    obtain ⟨⟨values, origin, middle⟩ | reason | cause, calls⟩ := reply
    · obtain ⟨begin, chain⟩ := row_runAt_eq_success_iff.1 begins
      obtain rfl : start = origin := begin.symm
      have last := runAt_sequence_last (.alternate (branches.map .sequence)) begins
      have behind := behind_spelledOut nonempty begins
      rw [← Parser.factored] at last
      rw [last]
      generalize spelled : (Parser.spelledOut shared branches).runAt rules input start = outer
        at behind ⊢
      generalize chosen : (Parser.alternate (branches.map .sequence)).runAt rules input middle =
        inner at behind ⊢
      cases behind with
      | none => exact .inl ⟨rfl, rfl⟩
      | success le ordered forth =>
        refine .inr (.inl ⟨values, _, middle, _, _, _, _, rfl, chain, .inl ⟨forth, ?_⟩, le⟩)
        simp [Step.prependAll, Outcome.map, Reply.asserted_of_le ordered]
      | inside le ordered back =>
        exact .inr (.inl ⟨values, _, middle, _, _, _, _, rfl, chain, .inr ⟨back, rfl⟩, le⟩)
      | outside le back =>
        refine .inr (.inr (.inl ⟨_, _, _, rfl, ?_, le⟩))
        simp [Step.prependAll, Outcome.map, Reply.asserted_of_lt back]
      | fault le => exact .inr (.inr (.inl ⟨_, _, _, rfl, rfl, le⟩))
      | failure le =>
        -- Both choices fail where they are run.
        have outside := eq_expected_of_runAt_alternate spelled
        have inside := eq_expected_of_runAt_alternate chosen
        refine .inr (.inr (.inr ⟨_, _, _, _, rfl, rfl, le, ?_, .inr ⟨values, calls, ?_⟩⟩))
        · rw [outside]
          rfl
        · rw [inside]
          exact chain
    · have once : calls ≤ branches.length * calls :=
        Nat.le_mul_of_pos_left calls (List.length_pos_iff.2 nonempty)
      have own : (Parser.sequence shared).runAt rules input start =
          some ⟨.failure reason, calls⟩ := by
        rw [Parser.runAt_sequence, Step.inOrder, begins]
        rfl
      exact .inr (.inr (.inr ⟨_, reason, _, calls, runAt_spelledOut_failure begins,
        runAt_sequence_append_failure begins, once, rfl, .inl ⟨calls, own⟩⟩))
    · exact .inr (.inr (.inl ⟨cause, calls, calls, runAt_spelledOut_fault nonempty begins,
        runAt_sequence_append_fault begins, Nat.le_refl _⟩))

/-- A sign that is looked up, with one of two signs behind it. The first form looks it up
twice, and from what it reads follows what the second form reads. -/
theorem runAt_factored_signs :
    [[Parser.literal "x"], [.literal "b"]] ≠ [] ∧
    (Parser.spelledOut [.rule "sign"] [[.literal "x"], [.literal "b"]]).runAt
      [("sign", .literal "a")] "ab" 0 = some ⟨.success ⟨.list [.text "a", .text "b"], 0, 2⟩, 2⟩ ∧
    ∃ calls ≤ 2, (Parser.factored [.rule "sign"] [[.literal "x"], [.literal "b"]]).runAt
      [("sign", .literal "a")] "ab" 0 =
        some ⟨.success ⟨.list [.text "a", .list [.text "b"]], 0, 2⟩, calls⟩ := by
  have nonempty : [[Parser.literal "x"], [.literal "b"]] ≠ [] := List.cons_ne_nil _ _
  have sign : (Parser.rule "sign").runAt [("sign", .literal "a")] "ab" 0 =
      some ⟨.success ⟨.text "a", 0, 1⟩, 1⟩ := by
    rw [Parser.runAt_rule]
    rfl
  have missing : (Parser.sequence [.rule "sign", .literal "x"]).runAt [("sign", .literal "a")]
      "ab" 0 = some ⟨.failure (.expected "x" 1), 1⟩ := by
    rw [Parser.runAt_sequence, Step.inOrder, List.map_cons, Step.row_cons_success sign]
    rfl
  have found : (Parser.sequence [.rule "sign", .literal "b"]).runAt [("sign", .literal "a")]
      "ab" 0 = some ⟨.success ⟨.list [.text "a", .text "b"], 0, 2⟩, 1⟩ := by
    rw [Parser.runAt_sequence, Step.inOrder, List.map_cons, Step.row_cons_success sign]
    rfl
  have spelled : (Parser.spelledOut [.rule "sign"] [[.literal "x"], [.literal "b"]]).runAt
      [("sign", .literal "a")] "ab" 0 =
        some ⟨.success ⟨.list [.text "a", .text "b"], 0, 2⟩, 2⟩ := by
    rw [runAt_spelledOut]
    exact (Step.firstOf_cons_failure missing).trans
      (congrArg (Option.map _) (Step.firstOf_cons_success found))
  refine ⟨nonempty, spelled, ?_⟩
  obtain ⟨never, -⟩ | ⟨values, more, middle, stop, _, calls, calls', run, chain, forms, le⟩ |
      ⟨_, _, _, broken, -⟩ | ⟨_, _, _, _, fails, -⟩ :=
    runAt_factored [("sign", .literal "a")] [.rule "sign"] nonempty "ab" 0
  · cases spelled.symm.trans never
  · -- The sign that is shared leads to the place behind it, and the branch on from there.
    obtain ⟨rfl, rfl, -⟩ := Chain.unique (.cons sign .nil) chain
    cases spelled.symm.trans run
    obtain ⟨-, factored⟩ | ⟨back, -⟩ := forms
    · exact ⟨calls', le, factored⟩
    · exact absurd back (by decide)
  · cases spelled.symm.trans broken
  · cases spelled.symm.trans fails

/-- What is left of the branch goes back by one byte, into what was shared. Spelled out, the
branch as a whole still leads on. -/
theorem spelledOut_ne_factored_of_rewind :
    (Parser.spelledOut [.literal "ab"] [[.function "back" (Function.rewind 1)]]).runAt [] "ab" 0 =
      some ⟨.success ⟨.list [.text "ab", .unit], 0, 1⟩, 0⟩ ∧
    (Parser.factored [.literal "ab"] [[.function "back" (Function.rewind 1)]]).runAt [] "ab" 0 =
      some ⟨.fault .reversedRange, 0⟩ :=
  ⟨rfl, rfl⟩

end Peg
