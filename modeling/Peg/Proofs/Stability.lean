import Mathlib.Data.List.Induction
import Peg.Proofs.Bytes
import Peg.Proofs.Termination

/-!
# What a choice depends on

A choice gives the success of the first item that succeeds. The items behind it are not
run at all, and the items before it, which fail, leave no trace in the success. So the list
of items may be changed in any way, as long as the same parser is the first to succeed.
Only a choice without a success tells in its failure which items there are.

Among literals, the first text that stands at the place is taken. A text that begins with
an earlier one stands nowhere but where the earlier one stands as well, so it is never
taken and may be left out.

## Main definitions

* `FirstToSucceed`: the item that decides a choice.
* `Text.unshadowed`: the texts that do not begin with an earlier one.

## Main results

* `FirstToSucceed.runAt_alternate`: a choice gives what this item gives.
* `Text.find?_unshadowed`: leaving out texts does not change which one stands first.
* `runAt_alternate_stable`: what a choice depends on.
-/

namespace Peg

/-- Of the items, `winner` is the first one that succeeds at `start`. Those before it fail. -/
def FirstToSucceed (rules : Rules) (input : String) (items : List Parser) (start : Nat)
    (winner : Parser) : Prop :=
  ∃ before after, items = before ++ winner :: after ∧
    (∀ item ∈ before, Fails rules input item start) ∧ Succeeds rules input winner start

/-- The texts of a list that do not begin with an earlier text of it. -/
def Text.unshadowed : List String → List String
  | [] => []
  | text :: texts =>
    text :: (unshadowed texts).filter fun later => ¬ text.toList <+: later.toList

variable {rules : Rules} {input : String} {items : List Parser} {winner : Parser} {start : Nat}

/-! ### The item that decides -/

/-- If every item returns, one of them is the first to succeed or all of them fail. -/
theorem exists_firstToSucceed_or_fails (returns : ∀ item ∈ items, Settles rules input item start) :
    (∃ winner, FirstToSucceed rules input items start winner) ∨
      ∀ item ∈ items, Fails rules input item start := by
  induction items with
  | nil => exact .inr nofun
  | cons item items ih =>
    obtain ⟨first, rest⟩ := List.forall_mem_cons.1 returns
    obtain succeeds | fails := settles_iff.1 first
    · exact .inl ⟨item, [], items, rfl, nofun, succeeds⟩
    · obtain ⟨winner, before, after, rfl, fail, succeeds⟩ | fail := ih rest
      · exact .inl ⟨winner, item :: before, after, rfl, List.forall_mem_cons.2 ⟨fails, fail⟩,
          succeeds⟩
      · exact .inr (List.forall_mem_cons.2 ⟨fails, fail⟩)

/-- A choice gives what the first item to succeed gives. -/
theorem FirstToSucceed.runAt_alternate {result : Success Value} {callsWinner : Nat}
    (h : FirstToSucceed rules input items start winner)
    (run : winner.runAt rules input start = some ⟨.success result, callsWinner⟩) :
    ∃ calls, (Parser.alternate items).runAt rules input start =
      some ⟨.success result, calls⟩ := by
  obtain ⟨before, after, cut, fails, -⟩ := h
  obtain ⟨callsBefore, fail⟩ := exists_allFail_iff.2 fails
  exact ⟨callsBefore + callsWinner, runAt_alternate_eq_some_iff.2
    (.settles cut fail run (Outcome.not_isFailure_success result))⟩

/-- A choice without a success fails in the names of all items. -/
theorem runAt_alternate_of_fails (fails : ∀ item ∈ items, Fails rules input item start) :
    ∃ calls, (Parser.alternate items).runAt rules input start =
      some ⟨.failure ⟨"Expected: " ++ "|".intercalate (items.map Parser.name), start⟩, calls⟩ := by
  obtain ⟨calls, fail⟩ := exists_allFail_iff.2 fails
  exact ⟨calls, runAt_alternate_eq_some_iff.2 (.none fail)⟩

/-! ### Choices among literals -/

section Literals

variable {texts : List String} {text : String}

/-- Texts that do not stand at the place all fail, and follow no reference. -/
theorem allFail_literals (nowhere : ∀ text ∈ texts, ¬ Text.StandsAt text input start) :
    AllFail rules input start (texts.map .literal) 0 := by
  induction texts with
  | nil => exact .nil
  | cons text texts ih =>
    obtain ⟨first, rest⟩ := List.forall_mem_cons.1 nowhere
    exact .cons (runAt_literal_of_not_standsAt first) (ih rest)

/-- A choice among literals takes the first text that stands at the place. -/
theorem runAt_literals_of_find? (h : texts.find? (Text.StandsAt · input start) = some text) :
    (Parser.alternate (texts.map .literal)).runAt rules input start =
      some ⟨.success ⟨.text text, start, start + text.utf8ByteSize⟩, 0⟩ := by
  obtain ⟨stands, before, after, rfl, nowhere⟩ := List.find?_eq_some_iff_append.1 h
  have fail : AllFail rules input start (before.map .literal) 0 :=
    allFail_literals (by simpa using nowhere)
  exact runAt_alternate_eq_some_iff.2 (.settles List.map_append fail
    (runAt_literal_of_standsAt (of_decide_eq_true stands)) (Outcome.not_isFailure_success _))

/-- It fails in the name of all texts where none of them stands. -/
theorem runAt_literals_of_find?_eq_none
    (h : texts.find? (Text.StandsAt · input start) = none) :
    (Parser.alternate (texts.map .literal)).runAt rules input start =
      some ⟨.failure ⟨"Expected: " ++ "|".intercalate texts, start⟩, 0⟩ := by
  have nowhere : ∀ text ∈ texts, ¬ Text.StandsAt text input start := by
    simpa using List.find?_eq_none.1 h
  have names : (texts.map Parser.literal).map Parser.name = texts := by
    simp [Function.comp_def, Parser.name]
  have fail : AllFail rules input start (texts.map .literal) 0 := allFail_literals nowhere
  have whole := runAt_alternate_eq_some_iff.2 (.none fail)
  rwa [names] at whole

/-- A text behind others is left out if one of them begins it. -/
theorem Text.unshadowed_concat (texts : List String) (text : String) :
    unshadowed (texts ++ [text]) =
      if ∃ earlier ∈ texts, earlier.toList <+: text.toList then unshadowed texts
      else unshadowed texts ++ [text] := by
  induction texts with
  | nil => simp [unshadowed]
  | cons first texts ih =>
    rw [List.cons_append, unshadowed, ih, unshadowed]
    by_cases begins : first.toList <+: text.toList
    · by_cases later : ∃ earlier ∈ texts, earlier.toList <+: text.toList <;> simp [begins, later]
    · by_cases later : ∃ earlier ∈ texts, earlier.toList <+: text.toList <;> simp [begins, later]

/-- The first text that stands at a place is not shadowed, by induction from the end of the
list. Where a text stands that is left out, the earlier text stands that begins it. -/
theorem Text.find?_unshadowed (texts : List String) (input : String) (start : Nat) :
    (unshadowed texts).find? (StandsAt · input start) = texts.find? (StandsAt · input start) := by
  induction texts using List.reverseRecOn with
  | nil => rfl
  | append_singleton texts text ih =>
    rw [unshadowed_concat, List.find?_append]
    split
    · next shadowed =>
      obtain ⟨earlier, member, begins⟩ := shadowed
      -- If the last text stands, the search has ended before it. If not, it is not found.
      by_cases stands : StandsAt text input start
      · have found : (texts.find? (StandsAt · input start)).isSome = true :=
          List.find?_isSome.2 ⟨earlier, member, decide_eq_true (stands.of_prefix begins)⟩
        rw [ih, Option.or_of_isSome found]
      · simp [ih, stands]
    · rw [List.find?_append, ih]

end Literals

/-- **What a choice depends on.** If all items return, one of them is the first to succeed or
all of them fail. Two choices for which the same parser is the first to succeed have the same
success, whichever other items are repeated, moved, added or left out. If all items fail, so
does the choice, where it is run and in the names of its items in their order. A choice among
literals takes the first text that stands at the place, however much longer later texts are.
A text that begins with an earlier one may be left out without a change to any success. -/
theorem runAt_alternate_stable (rules : Rules) (input : String) (start : Nat) :
    (∀ items, (∀ item ∈ items, Settles rules input item start) →
      (∃ winner, FirstToSucceed rules input items start winner) ∨
        ∀ item ∈ items, Fails rules input item start) ∧
    (∀ items items' winner, FirstToSucceed rules input items start winner →
      FirstToSucceed rules input items' start winner → ∃ result calls calls',
        (Parser.alternate items).runAt rules input start = some ⟨.success result, calls⟩ ∧
        (Parser.alternate items').runAt rules input start = some ⟨.success result, calls'⟩) ∧
    (∀ items, (∀ item ∈ items, Fails rules input item start) → ∃ calls,
      (Parser.alternate items).runAt rules input start =
        some ⟨.failure ⟨"Expected: " ++ "|".intercalate (items.map Parser.name), start⟩, calls⟩) ∧
    ∀ texts,
      (∀ text, texts.find? (Text.StandsAt · input start) = some text →
        (Parser.alternate (texts.map .literal)).runAt rules input start =
          some ⟨.success ⟨.text text, start, start + text.utf8ByteSize⟩, 0⟩) ∧
      (texts.find? (Text.StandsAt · input start) = none →
        (Parser.alternate (texts.map .literal)).runAt rules input start =
          some ⟨.failure ⟨"Expected: " ++ "|".intercalate texts, start⟩, 0⟩) ∧
      ∀ result calls,
        (Parser.alternate ((Text.unshadowed texts).map .literal)).runAt rules input start =
            some ⟨.success result, calls⟩ ↔
          (Parser.alternate (texts.map .literal)).runAt rules input start =
            some ⟨.success result, calls⟩ := by
  refine ⟨fun items => exists_firstToSucceed_or_fails, ?_, fun items => runAt_alternate_of_fails,
    fun texts => ⟨fun text => runAt_literals_of_find?, runAt_literals_of_find?_eq_none, ?_⟩⟩
  · intro items items' winner first first'
    -- Both choices end with the same run of the winner, after as many references as they like.
    obtain ⟨-, -, -, -, result, callsWinner, run⟩ := id first
    obtain ⟨calls, whole⟩ := first.runAt_alternate run
    obtain ⟨calls', whole'⟩ := first'.runAt_alternate run
    exact ⟨result, calls, calls', whole, whole'⟩
  · intro result calls
    have same := Text.find?_unshadowed texts input start
    -- Without a text that stands both choices fail, if in other words, and nothing is claimed.
    cases found : texts.find? (Text.StandsAt · input start) with
    | some text => rw [runAt_literals_of_find? (same.trans found), runAt_literals_of_find? found]
    | none =>
      rw [runAt_literals_of_find?_eq_none (same.trans found),
        runAt_literals_of_find?_eq_none found]
      simp

/-- A vowel, as a rule. -/
def vowelRules : Rules :=
  [("vowel", .or (.literal "a") (.literal "é"))]

/-- One of the items of a choice is the first to succeed. It is the vowel, in another choice
as well, in which the item behind it would break down if it were run. No vowel is found inside
a character. The longer text is not taken, and need not be there. -/
theorem runAt_alternate_stable_vowels :
    (∃ winner, FirstToSucceed vowelRules "éa" [.literal "b", .rule "vowel", .literal "éa"] 0
      winner) ∧
    (∃ calls calls',
      (Parser.alternate [.literal "b", .rule "vowel", .literal "éa"]).runAt vowelRules "éa" 0 =
        some ⟨.success ⟨.text "é", 0, 2⟩, calls⟩ ∧
      (Parser.alternate [.rule "vowel", .many .pure, .literal "b"]).runAt vowelRules "éa" 0 =
        some ⟨.success ⟨.text "é", 0, 2⟩, calls'⟩) ∧
    (∃ calls, (Parser.alternate [.literal "b", .rule "vowel"]).runAt vowelRules "éa" 1 =
      some ⟨.failure ⟨"Expected: b|Lazy", 1⟩, calls⟩) ∧
    Text.unshadowed ["b", "é", "éa", "b"] = ["b", "é"] ∧
    (Parser.alternate (["b", "é"].map .literal)).runAt vowelRules "éa" 0 =
      some ⟨.success ⟨.text "é", 0, 2⟩, 0⟩ := by
  have found : vowelRules.parser? "vowel" = some (.or (.literal "a") (.literal "é")) := rfl
  have vowel : (Parser.rule "vowel").runAt vowelRules "éa" 0 =
      some ⟨.success ⟨.text "é", 0, 2⟩, 1⟩ := by
    rw [Parser.runAt_rule, found]
    rfl
  have inside : (Parser.rule "vowel").runAt vowelRules "éa" 1 =
      some ⟨.failure ⟨"Expected: a|é", 1⟩, 1⟩ := by
    rw [Parser.runAt_rule, found]
    rfl
  have other : Fails vowelRules "éa" (.literal "b") 0 := ⟨_, _, rfl⟩
  have longer : Succeeds vowelRules "éa" (.literal "éa") 0 := ⟨_, _, rfl⟩
  have returns : ∀ item ∈ [.literal "b", Parser.rule "vowel", .literal "éa"],
      Settles vowelRules "éa" item 0 := by
    simp [settles_iff, other, longer, show Succeeds vowelRules "éa" (.rule "vowel") 0 from
      ⟨_, _, vowel⟩]
  have first : FirstToSucceed vowelRules "éa" [.literal "b", .rule "vowel", .literal "éa"] 0
      (.rule "vowel") := ⟨[.literal "b"], [.literal "éa"], rfl, by simpa, _, _, vowel⟩
  have first' : FirstToSucceed vowelRules "éa" [.rule "vowel", .many .pure, .literal "b"] 0
      (.rule "vowel") := ⟨[], [.many .pure, .literal "b"], rfl, nofun, _, _, vowel⟩
  have fail : ∀ item ∈ [Parser.literal "b", .rule "vowel"], Fails vowelRules "éa" item 1 :=
    List.forall_mem_cons.2 ⟨⟨_, _, rfl⟩, List.forall_mem_singleton.2 ⟨_, _, inside⟩⟩
  have texts : Text.unshadowed ["b", "é", "éa", "b"] = ["b", "é"] := by decide
  obtain ⟨decided, stable, -, literals⟩ := runAt_alternate_stable vowelRules "éa" 0
  obtain ⟨-, -, fails, -⟩ := runAt_alternate_stable vowelRules "éa" 1
  obtain ⟨taken, -, shorter⟩ := literals ["b", "é", "éa", "b"]
  have whole := (shorter _ _).2 (taken "é" (by decide))
  rw [texts] at whole
  refine ⟨(decided _ returns).resolve_right fun none => ?_, ?_, fails _ fail, texts, whole⟩
  · obtain ⟨_, _, succeeds⟩ := longer
    obtain ⟨_, _, refused⟩ := none (.literal "éa") (by simp)
    cases succeeds.symm.trans refused
  · obtain ⟨result, calls, calls', run, run'⟩ := stable _ _ _ first first'
    obtain ⟨_, same⟩ := first.runAt_alternate vowel
    cases same.symm.trans run
    exact ⟨calls, calls', run, run'⟩

end Peg
