import Peg.Proofs.Balanced
import Peg.Proofs.Positions

/-!
# Reading a text piece by piece

What a parser takes is stated with the characters themselves: those before the
place where it is run, those that it takes, and those that it leaves. The rules
for outcomes become rules for such pieces, in which no position is counted.

## Main definitions

* `Takes`: a parser succeeds and takes some of the characters that follow.
* `Refuses`: a parser fails.

## Main results

* `Takes.unique`, `Takes.not_refuses`: what a parser takes is determined.
-/

namespace Peg

variable {rules : Rules} {parser item : Parser} {items : List Parser}
  {before found after u v : List Char} {value : Value} {values : List Value} {reason : Failure}

/-- The parser takes `found` where `before` comes before it and `after` is left. -/
def Takes (rules : Rules) (parser : Parser) (before found after : List Char) (value : Value) :
    Prop :=
  ∀ input : String, input.toList = before ++ found ++ after →
    ∃ calls, Derives rules input parser (Text.size before)
      (.success ⟨value, Text.size before, Text.size before + Text.size found⟩) calls

/-- The parser fails between two parts of a text. -/
def Refuses (rules : Rules) (parser : Parser) (before after : List Char) (reason : Failure) :
    Prop :=
  ∀ input : String, input.toList = before ++ after →
    ∃ calls, Derives rules input parser (Text.size before) (.failure reason) calls

/-- What a parser takes from a place, and the value of it, are determined. -/
theorem Takes.unique {found' after' : List Char} {value' : Value}
    (h : Takes rules parser before found after value)
    (h' : Takes rules parser before found' after' value')
    (same : found ++ after = found' ++ after') :
    found = found' ∧ after = after' ∧ value = value' := by
  obtain ⟨_, run⟩ := h (String.ofList (before ++ found ++ after)) String.toList_ofList
  obtain ⟨_, run'⟩ := h' (String.ofList (before ++ found ++ after)) (by
    rw [String.toList_ofList, List.append_assoc, same, List.append_assoc])
  obtain ⟨outcomes, -⟩ := run.unique run'
  injection outcomes with results
  injection results with values _ stops
  -- The positions agree, and a text is cut in one way at a position.
  obtain ⟨rfl, rfl⟩ := Text.append_inj_of_size same (Nat.add_left_cancel stops)
  exact ⟨rfl, rfl, values⟩

/-- A parser that takes something does not fail. -/
theorem Takes.not_refuses (h : Takes rules parser before found after value)
    (h' : Refuses rules parser before (found ++ after) reason) : False := by
  obtain ⟨_, run⟩ := h (String.ofList (before ++ found ++ after)) String.toList_ofList
  obtain ⟨_, run'⟩ := h' (String.ofList (before ++ found ++ after)) (by
    rw [String.toList_ofList, List.append_assoc])
  obtain ⟨outcomes, -⟩ := run.unique run'
  cases outcomes

/-! ### Primitive parsers -/

theorem Takes.literal (text : String) :
    Takes rules (.literal text) before text.toList after (.text text) := by
  intro input cut
  rw [Text.size_toList]
  exact ⟨0, .literal_match cut rfl⟩

/-- A text is not matched between two parts of the input, the second of which does not begin
with it. -/
theorem Derives.literal_refused {input text : String} (cut : input.toList = before ++ after)
    (h : ¬ text.toList <+: after) :
    Derives rules input (.literal text) (Text.size before)
      (.failure (.expected text (Text.size before))) 0 := by
  refine .literal_mismatch fun before' after' cut' bytes => h ?_
  rw [cut, List.append_assoc] at cut'
  obtain ⟨-, rfl⟩ := Text.append_inj_of_size cut' bytes.symm
  exact List.prefix_append _ _

theorem Refuses.literal {text : String} (h : ¬ text.toList <+: after) :
    Refuses rules (.literal text) before after (.expected text (Text.size before)) :=
  fun _ cut => ⟨0, .literal_refused cut h⟩

theorem Takes.pattern {regex : Pattern}
    (h : regex.program.matchEnd? before (found ++ after) (Text.size before) =
      some (Text.size before + Text.size found)) :
    Takes rules (.pattern regex) before found after (.text (String.ofList found)) :=
  fun _ cut => ⟨0, .pattern_match cut rfl h⟩

theorem Refuses.pattern {regex : Pattern}
    (h : regex.program.matchEnd? before after (Text.size before) = none) :
    Refuses rules (.pattern regex) before after
      ⟨"Expected regexp: " ++ regex.expr, Text.size before⟩ := by
  intro input cut
  refine ⟨0, .pattern_mismatch fun before' after' cut' bytes => ?_⟩
  rw [cut] at cut'
  obtain ⟨rfl, rfl⟩ := Text.append_inj_of_size cut' bytes.symm
  exact h

theorem Takes.finish : Takes rules .finish before [] [] .unit := by
  intro input cut
  refine ⟨0, .finish_at ?_⟩
  rw [← Text.size_toList, cut]
  simp

theorem Refuses.finish (more : after ≠ []) :
    Refuses rules .finish before after ⟨"Expected end of input", Text.size before⟩ := by
  intro input cut
  refine ⟨0, .finish_before fun last => ?_⟩
  rw [← Text.size_toList, cut, Text.size_append] at last
  have size := Text.size_pos more
  omega

/-! ### Sequences -/

theorem Takes.sequence_nil : Takes rules (.sequence []) before [] after (.list []) :=
  fun _ _ => ⟨0, .sequence_nil⟩

theorem Takes.sequence_cons (first : Takes rules item before u (v ++ after) value)
    (rest : Takes rules (.sequence items) (before ++ u) v after (.list values)) :
    Takes rules (.sequence (item :: items)) before (u ++ v) after (.list (value :: values)) := by
  intro input cut
  obtain ⟨_, first⟩ := first input (by simpa using cut)
  obtain ⟨_, rest⟩ := rest input (by simpa using cut)
  rw [Text.size_append] at rest
  rw [Text.size_append, ← Nat.add_assoc]
  exact ⟨_, .sequence_next first (Nat.le_add_right _ _) rest⟩

theorem Takes.sequence_last (last : Takes rules item before found after value) :
    Takes rules (.sequence [item]) before found after (.list [value]) := by
  have whole : Takes rules (.sequence [item]) before (found ++ []) after (.list [value]) :=
    .sequence_cons last .sequence_nil
  rwa [List.append_nil] at whole

theorem Refuses.sequence_first (first : Refuses rules item before after reason) :
    Refuses rules (.sequence (item :: items)) before after reason := by
  intro input cut
  obtain ⟨_, first⟩ := first input cut
  exact ⟨_, .sequence_stop first (Outcome.not_isSuccess_failure _)⟩

theorem Refuses.sequence_later (first : Takes rules item before u after value)
    (rest : Refuses rules (.sequence items) (before ++ u) after reason) :
    Refuses rules (.sequence (item :: items)) before (u ++ after) reason := by
  intro input cut
  obtain ⟨_, first⟩ := first input (by simpa using cut)
  obtain ⟨_, rest⟩ := rest input (by simpa using cut)
  rw [Text.size_append] at rest
  exact ⟨_, .sequence_later first rest⟩

/-- The rules derive for a sequence of two or more parsers without functions what they
derive for the flat sequence. -/
theorem Derives.seqAll {input : String} {start calls : Nat} {outcome : Outcome Value}
    (h : Derives rules input (.sequence items) start outcome calls) (two : 2 ≤ items.length)
    (own : ∀ item ∈ items, item.IsFunctionFree) (ownRules : rules.AreFunctionFree) :
    Derives rules input (.seqAll items) start outcome calls := by
  have forward : ∀ item ∈ items, item.IsForward rules input := fun item here =>
    isForward_of_isFunctionFree (own item here) ownRules
  exact derives_of_runAt ((Parser.runAt_seqAll_of_forward two forward).trans h.runAt_eq)

theorem Takes.seqAll (h : Takes rules (.sequence items) before found after value)
    (two : 2 ≤ items.length) (own : ∀ item ∈ items, item.IsFunctionFree)
    (ownRules : rules.AreFunctionFree) : Takes rules (.seqAll items) before found after value := by
  intro input cut
  obtain ⟨calls, run⟩ := h input cut
  exact ⟨calls, run.seqAll two own ownRules⟩

theorem Refuses.seqAll (h : Refuses rules (.sequence items) before after reason)
    (two : 2 ≤ items.length) (own : ∀ item ∈ items, item.IsFunctionFree)
    (ownRules : rules.AreFunctionFree) : Refuses rules (.seqAll items) before after reason := by
  intro input cut
  obtain ⟨calls, run⟩ := h input cut
  exact ⟨calls, run.seqAll two own ownRules⟩

/-! ### Choices -/

theorem Takes.alternate_first (first : Takes rules item before found after value) :
    Takes rules (.alternate (item :: items)) before found after value := by
  intro input cut
  obtain ⟨_, first⟩ := first input cut
  exact ⟨_, .alternate_first first (Outcome.not_isFailure_success _)⟩

theorem Takes.alternate_next (first : Refuses rules item before (found ++ after) reason)
    (rest : Takes rules (.alternate items) before found after value) :
    Takes rules (.alternate (item :: items)) before found after value := by
  intro input cut
  obtain ⟨_, first⟩ := first input (by simpa using cut)
  obtain ⟨_, rest⟩ := rest input cut
  exact ⟨_, .alternate_next first rest (Outcome.not_isFailure_success _)⟩

theorem Refuses.alternate_nil :
    Refuses rules (.alternate []) before after ⟨"Expected: ", Text.size before⟩ :=
  fun _ _ => ⟨0, .alternate_nil⟩

theorem Refuses.alternate_cons {reason' : Failure} (first : Refuses rules item before after reason)
    (rest : Refuses rules (.alternate items) before after reason') :
    Refuses rules (.alternate (item :: items)) before after
      (.expected (Parser.alternate (item :: items)).name (Text.size before)) := by
  intro input cut
  obtain ⟨_, first⟩ := first input cut
  obtain ⟨_, rest⟩ := rest input cut
  exact ⟨_, .alternate_none first rest⟩

/-! ### Repetitions, changes of values, and references -/

theorem Takes.many_done (first : Refuses rules item before after reason) :
    Takes rules (.many item) before [] after (.list []) := by
  intro input cut
  obtain ⟨_, first⟩ := first input (by simpa using cut)
  exact ⟨_, .many_done first⟩

theorem Takes.many_next (first : Takes rules item before u (v ++ after) value)
    (forward : u ≠ [])
    (rest : Takes rules (.many item) (before ++ u) v after (.list values)) :
    Takes rules (.many item) before (u ++ v) after (.list (value :: values)) := by
  intro input cut
  obtain ⟨_, first⟩ := first input (by simpa using cut)
  obtain ⟨_, rest⟩ := rest input (by simpa using cut)
  rw [Text.size_append] at rest
  rw [Text.size_append, ← Nat.add_assoc]
  exact ⟨_, .many_next first (Nat.lt_add_of_pos_right (Text.size_pos forward)) rest⟩

theorem Takes.map {change : Value → Except Fault Value} {value' : Value}
    (inner : Takes rules item before found after value) (changed : change value = .ok value') :
    Takes rules (.map item change) before found after value' := by
  intro input cut
  obtain ⟨_, inner⟩ := inner input cut
  exact ⟨_, .map_value inner changed⟩

theorem Refuses.map {change : Value → Except Fault Value}
    (inner : Refuses rules item before after reason) :
    Refuses rules (.map item change) before after reason := by
  intro input cut
  obtain ⟨_, inner⟩ := inner input cut
  exact ⟨_, .map_stop inner (Outcome.not_isSuccess_failure _)⟩

theorem Takes.rule {name : String} (known : rules.parser? name = some parser)
    (inner : Takes rules parser before found after value) :
    Takes rules (.rule name) before found after value := by
  intro input cut
  obtain ⟨_, inner⟩ := inner input cut
  exact ⟨_, .rule known inner⟩

theorem Refuses.rule {name : String} (known : rules.parser? name = some parser)
    (inner : Refuses rules parser before after reason) :
    Refuses rules (.rule name) before after reason := by
  intro input cut
  obtain ⟨_, inner⟩ := inner input cut
  exact ⟨_, .rule known inner⟩

end Peg
