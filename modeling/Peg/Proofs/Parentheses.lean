import Peg.Proofs.Takes

/-!
# Nested parentheses

The grammar of a pair of parentheses around the same again, or else nothing, with the
number of pairs as its value. It takes all of the opening parentheses with as many closing
ones behind them, or nothing at all: where one closing parenthesis is missing, the pairs
inside are matched all the same, but every pair around them is given up in turn, the
innermost one of these first.

## Main definitions

* `Parentheses.grammar`, `Parentheses.rules`: the grammar.
* `Parentheses.opened`, `Parentheses.closed`: the parentheses that stand at a place.
* `Parentheses.pairs`: the number of pairs that the grammar takes.

## Main results

* `Parentheses.derives_grammar`: what the grammar takes, by the number of opening
  parentheses.
* `Parentheses.runAt_grammar`: what the grammar takes everywhere, and which texts it takes as
  a whole.
-/

namespace Peg.Parentheses

/-- One more than the number between two parentheses. Every other value is left as it is. -/
def deeper : Value → Except Fault Value
  | .list [_, .number depth, _] => .ok (.number (depth + 1))
  | value => .ok value

/-- The grammar between two parentheses. -/
def pair : List Parser :=
  [.literal "(", .rule "parens", .literal ")"]

/-- A pair of parentheses around the same again, or else nothing. -/
def grammar : Parser :=
  .or (.map (.sequence pair) deeper) (.map .pure fun _ => .ok (.number 0))

/-- The rule by which the grammar refers to itself. -/
def rules : Rules :=
  [("parens", grammar)]

/-- The number of opening parentheses in a row from a position on. There are none inside of
a character. -/
def opened (input : String) (position : Nat) : Nat :=
  match Text.dropBytes? input.toList position with
  | some rest => (rest.takeWhile (· == '(')).length
  | none => 0

/-- The number of closing parentheses in a row behind the opening ones. -/
def closed (input : String) (position : Nat) : Nat :=
  match Text.dropBytes? input.toList position with
  | some rest => ((rest.dropWhile (· == '(')).takeWhile (· == ')')).length
  | none => 0

/-- The number of pairs among parentheses: all that are opened, if as many are closed. -/
def pairs (opens closes : Nat) : Nat :=
  if opens ≤ closes then opens else 0

theorem pairs_of_le {opens closes : Nat} (enough : opens ≤ closes) : pairs opens closes = opens :=
  if_pos enough

theorem pairs_of_lt {opens closes : Nat} (few : closes < opens) : pairs opens closes = 0 :=
  if_neg (Nat.not_le_of_lt few)

variable {input : String} {start stop calls opens closes : Nat} {before after : List Char}

/-! ### Characters in a row -/

/-- A text begins with a character several times, and goes on with another one. -/
theorem exists_row (c : Char) (cs : List Char) :
    cs = List.replicate (cs.takeWhile (· == c)).length c ++ cs.dropWhile (· == c) ∧
      ¬ [c] <+: cs.dropWhile (· == c) := by
  induction cs with
  | nil => simp
  | cons d cs ih =>
    obtain ⟨whole, other⟩ := ih
    by_cases same : d = c
    · subst same
      simpa [List.replicate_succ] using ⟨whole, other⟩
    · simp [same, Ne.symm same]

theorem size_replicate {c : Char} (single : c.utf8Size = 1) (count : Nat) :
    Text.size (List.replicate count c) = count := by
  induction count with
  | zero => rfl
  | succ count ih => rw [List.replicate_succ, Text.size_cons, single, ih, Nat.add_comm]

theorem size_balanced (before : List Char) (depth : Nat) :
    Text.size (before ++ List.replicate depth '(' ++ List.replicate depth ')') =
      Text.size before + 2 * depth := by
  rw [Text.size_append, Text.size_append, size_replicate rfl, size_replicate rfl]
  omega

/-! ### One level -/

/-- Where a pair fails, nothing is taken. -/
theorem derives_grammar_of_failure {reason : Failure}
    (h : Derives rules input (.sequence pair) start (.failure reason) calls) :
    Derives rules input grammar start (.success ⟨.number 0, start, start⟩) calls := by
  have nothing : Derives rules input (.alternate [.map .pure fun _ => .ok (.number 0)]) start
      (.success ⟨.number 0, start, start⟩) 0 :=
    .alternate_first (.map_value .pure rfl) (Outcome.not_isFailure_success _)
  exact .alternate_next (.map_stop h (Outcome.not_isSuccess_failure _)) nothing
    (Outcome.not_isFailure_success _)

section Levels

variable {levels : UInt64}
  (opening : Derives rules input (.literal "(") start (.success ⟨.text "(", start, start + 1⟩) 0)
  (inner : Derives rules input grammar (start + 1)
    (.success ⟨.number levels, start + 1, stop⟩) calls)

include opening inner

/-- Around a level that is closed, one more is counted. -/
theorem derives_grammar_of_close
    (closing : Derives rules input (.literal ")") stop
      (.success ⟨.text ")", stop, stop + 1⟩) 0) :
    Derives rules input grammar start (.success ⟨.number (levels + 1), start, stop + 1⟩)
      (calls + 1) := by
  have forward : start + 1 ≤ stop := inner.isOrdered
  have row : Derives rules input (.sequence pair) start
      (.success ⟨.list [.text "(", .number levels, .text ")"], start, stop + 1⟩)
      (0 + (1 + calls + (0 + 0))) :=
    .sequence_all (.cons opening (.cons (Derives.rule rfl inner) (.cons closing .nil))) (by omega)
  rw [show calls + 1 = 0 + (1 + calls + (0 + 0)) by omega]
  exact .alternate_first (.map_value row rfl) (Outcome.not_isFailure_success _)

/-- Around a level that is not closed, everything inside is given up. -/
theorem derives_grammar_of_no_close {reason : Failure}
    (closing : Derives rules input (.literal ")") stop (.failure reason) 0) :
    Derives rules input grammar start (.success ⟨.number 0, start, start⟩) (calls + 1) := by
  have last : Derives rules input (.sequence [.literal ")"]) stop (.failure reason) 0 :=
    .sequence_stop closing (Outcome.not_isSuccess_failure reason)
  have row : Derives rules input (.sequence pair) start (.failure reason)
      (0 + (1 + calls + 0)) :=
    .sequence_later opening (.sequence_later (.rule rfl inner) last)
  rw [show calls + 1 = 0 + (1 + calls + 0) by omega]
  exact derives_grammar_of_failure row

end Levels

/-! ### Closing parentheses -/

/-- Behind the pairs inside, a parenthesis is closed if more are closed than opened there. -/
theorem derives_close
    (cut : input.toList =
      before ++ (List.replicate opens '(' ++ (List.replicate closes ')' ++ after)))
    (more : opens < closes) :
    Derives rules input (.literal ")") (Text.size before + 2 * pairs opens closes)
      (.success ⟨.text ")", Text.size before + 2 * pairs opens closes,
        Text.size before + 2 * pairs opens closes + 1⟩) 0 := by
  obtain ⟨left, rfl⟩ := Nat.exists_eq_add_of_lt more
  have inside : List.replicate (opens + left + 1) ')' =
      List.replicate opens ')' ++ (')' :: List.replicate left ')') := by
    rw [← List.replicate_succ, List.replicate_append_replicate, Nat.add_assoc]
  have cut' : input.toList = (before ++ List.replicate opens '(' ++ List.replicate opens ')') ++
      ")".toList ++ (List.replicate left ')' ++ after) := by
    rw [cut, inside]
    simp
  refine .literal_match cut' ?_
  rw [pairs_of_le (by omega), size_balanced]

/-- Otherwise it is not closed: the pairs inside have taken all that are closed, or
none of those that are opened. -/
theorem derives_no_close
    (cut : input.toList =
      before ++ (List.replicate opens '(' ++ (List.replicate closes ')' ++ after)))
    (noClose : ¬ [')'] <+: after) (few : closes ≤ opens) :
    Derives rules input (.literal ")") (Text.size before + 2 * pairs opens closes)
      (.failure (.expected ")" (Text.size before + 2 * pairs opens closes))) 0 := by
  obtain same | fewer := Nat.eq_or_lt_of_le few
  · subst same
    -- What comes behind the last pair is no closing parenthesis.
    rw [pairs_of_le (Nat.le_refl _), ← size_balanced]
    exact .literal_refused (by rw [cut]; simp) noClose
  · obtain ⟨opens, rfl⟩ := Nat.exists_eq_succ_of_ne_zero (Nat.ne_zero_of_lt fewer)
    -- The pairs inside were given up, so that another opening parenthesis stands here.
    rw [pairs_of_lt fewer]
    refine .literal_refused cut ?_
    simp [List.replicate_succ]

/-! ### All levels -/

/-- What the grammar takes, by induction on the number of opening parentheses. -/
theorem derives_grammar
    (cut : input.toList =
      before ++ (List.replicate opens '(' ++ (List.replicate closes ')' ++ after)))
    (noOpen : ¬ ['('] <+: List.replicate closes ')' ++ after) (noClose : ¬ [')'] <+: after) :
    Derives rules input grammar (Text.size before)
      (.success ⟨.number (.ofNat (pairs opens closes)), Text.size before,
        Text.size before + 2 * pairs opens closes⟩) opens := by
  induction opens generalizing before with
  | zero =>
    have refused : Derives rules input (.literal "(") (Text.size before)
        (.failure (.expected "(" (Text.size before))) 0 := .literal_refused cut noOpen
    have here := derives_grammar_of_failure
      (.sequence_stop refused (Outcome.not_isSuccess_failure _))
    simpa [pairs] using here
  | succ opens ih =>
    have cut' : input.toList = (before ++ ['(']) ++
        (List.replicate opens '(' ++ (List.replicate closes ')' ++ after)) := by
      rw [cut]
      simp [List.replicate_succ]
    have size : Text.size (before ++ ['(']) = Text.size before + 1 := Text.size_append _ _
    have opening : Derives rules input (.literal "(") (Text.size before)
        (.success ⟨.text "(", Text.size before, Text.size before + 1⟩) 0 :=
      .literal_match cut' rfl
    have inner := ih cut'
    rw [size] at inner
    -- The pairs inside have left a parenthesis to close this one, or they have not.
    by_cases more : opens < closes
    · have closing := derives_close cut' more
      rw [pairs_of_le (Nat.le_of_lt more)] at inner closing
      rw [size] at closing
      have here := derives_grammar_of_close opening inner closing
      rw [pairs_of_le (show opens + 1 ≤ closes from more), UInt64.ofNat_add]
      rwa [show Text.size before + 1 + 2 * opens + 1 = Text.size before + 2 * (opens + 1) by
        omega] at here
    · have closing := derives_no_close cut' noClose (Nat.le_of_not_lt more)
      rw [size] at closing
      rw [pairs_of_lt (Nat.lt_succ_of_le (Nat.le_of_not_lt more))]
      exact derives_grammar_of_no_close opening inner closing

/-- What the grammar takes, at any position. -/
theorem derives_grammar_everywhere (input : String) (start : Nat) :
    Derives rules input grammar start
      (.success ⟨.number (.ofNat (pairs (opened input start) (closed input start))), start,
        start + 2 * pairs (opened input start) (closed input start)⟩) (opened input start) := by
  cases place : Text.dropBytes? input.toList start with
  | some rest =>
    obtain ⟨before, whole, rfl⟩ := Text.dropBytes?_eq_some_iff.1 place
    obtain ⟨opening, noOpen⟩ := exists_row '(' rest
    obtain ⟨closing, noClose⟩ := exists_row ')' (rest.dropWhile (· == '('))
    simp only [opened, closed, place]
    rw [closing] at opening noOpen
    rw [opening] at whole
    exact derives_grammar whole noOpen noClose
  | none =>
    have nowhere : ∀ before after, input.toList = before ++ "(".toList ++ after →
        Text.size before ≠ start := by
      intro before after cut bytes
      rw [Text.dropBytes?_eq_some_iff.2 ⟨before, cut.trans (List.append_assoc ..), bytes⟩] at place
      cases place
    have here := derives_grammar_of_failure
      (.sequence_stop (.literal_mismatch nowhere) (Outcome.not_isSuccess_failure _))
    simpa [opened, closed, place, pairs] using here

/-! ### Whole texts -/

/-- The grammar takes pairs around one another. -/
theorem derives_balanced {depth : Nat}
    (balanced : input.toList = List.replicate depth '(' ++ List.replicate depth ')') :
    Derives rules input grammar 0 (.success ⟨.number (.ofNat depth), 0, 2 * depth⟩) depth := by
  have cut : input.toList =
      [] ++ (List.replicate depth '(' ++ (List.replicate depth ')' ++ [])) := by
    rw [balanced, List.nil_append, List.append_nil]
  have noOpen : ¬ ['('] <+: List.replicate depth ')' ++ [] := by
    cases depth <;> simp [List.replicate_succ]
  have taken := derives_grammar cut noOpen (by simp)
  rwa [pairs_of_le (Nat.le_refl _), Text.size_nil, Nat.zero_add] at taken

/-- A text begins with the parentheses that are opened and closed at its beginning. -/
theorem exists_parentheses (input : String) :
    ∃ after, input.toList =
      List.replicate (opened input 0) '(' ++ (List.replicate (closed input 0) ')' ++ after) := by
  have place : Text.dropBytes? input.toList 0 = some input.toList :=
    Text.dropBytes?_eq_some_iff.2 ⟨[], rfl, rfl⟩
  obtain ⟨opening, -⟩ := exists_row '(' input.toList
  obtain ⟨closing, -⟩ := exists_row ')' (input.toList.dropWhile (· == '('))
  refine ⟨(input.toList.dropWhile (· == '(')).dropWhile (· == ')'), ?_⟩
  simp only [opened, closed, place]
  rwa [← closing]

/-- A text that the grammar takes to its end consists of pairs around one another. -/
theorem balanced_of_size
    (whole : 2 * pairs (opened input 0) (closed input 0) = input.utf8ByteSize) :
    input.toList =
      List.replicate (opened input 0) '(' ++ List.replicate (opened input 0) ')' := by
  obtain ⟨after, cut⟩ := exists_parentheses input
  have size : Text.size input.toList =
      opened input 0 + (closed input 0 + Text.size after) := by
    rw [cut, Text.size_append, Text.size_append, size_replicate rfl, size_replicate rfl]
  rw [Text.size_toList, ← whole, pairs] at size
  -- There would be more bytes than the pairs have if something else came after them.
  have same : closed input 0 = opened input 0 := by split at size <;> omega
  have last : after = [] := by
    refine Decidable.byContradiction fun more => ?_
    have positive := Text.size_pos more
    split at size <;> omega
  rw [cut, same, last, List.append_nil]

/-- The grammar takes as many parentheses as are opened if as many are closed behind them, and
nothing otherwise. It refers to itself once for each that is opened. With the end of the text
behind it, it takes the pairs around one another, and stops at the end of what it has taken in
any other text. -/
theorem runAt_grammar :
    (∀ (input : String) (start : Nat), grammar.runAt rules input start =
      some ⟨.success ⟨.number (.ofNat (pairs (opened input start) (closed input start))), start,
        start + 2 * pairs (opened input start) (closed input start)⟩, opened input start⟩) ∧
    (∀ (input : String) (depth : Nat),
      input.toList = List.replicate depth '(' ++ List.replicate depth ')' →
      (Parser.sequence [grammar, .finish]).runAt rules input 0 =
        some ⟨.success ⟨.list [.number (.ofNat depth), .unit], 0, 2 * depth⟩, depth⟩) ∧
    (∀ input : String,
      (∀ depth, input.toList ≠ List.replicate depth '(' ++ List.replicate depth ')') →
      (Parser.sequence [grammar, .finish]).runAt rules input 0 =
        some ⟨.failure ⟨"Expected end of input", 2 * pairs (opened input 0) (closed input 0)⟩,
          opened input 0⟩) := by
  refine ⟨fun input start => (derives_grammar_everywhere input start).runAt_eq,
    fun input depth balanced => ?_, fun input unbalanced => ?_⟩
  · have taken := derives_balanced balanced
    have size := size_balanced [] depth
    rw [List.nil_append, Text.size_nil, Nat.zero_add] at size
    have finished : 2 * depth = input.utf8ByteSize := by
      rw [← Text.size_toList, balanced, size]
    have row := Row.cons taken (.cons (.finish_at finished) .nil)
    exact (Derives.sequence_all row (Nat.zero_le _)).runAt_eq
  · have unfinished : 2 * pairs (opened input 0) (closed input 0) ≠ input.utf8ByteSize :=
      fun whole => unbalanced _ (balanced_of_size whole)
    have taken := derives_grammar_everywhere input 0
    rw [Nat.zero_add] at taken
    exact (Derives.sequence_later taken
      (.sequence_stop (.finish_before unfinished) (Outcome.not_isSuccess_failure _))).runAt_eq

/-- One closing parenthesis is missing, and nothing is taken: the two pairs that match inside
are given up as well. -/
theorem runAt_grammar_three_two :
    grammar.runAt rules "((())" 0 = some ⟨.success ⟨.number 0, 0, 0⟩, 3⟩ ∧
      (Parser.sequence [grammar, .finish]).runAt rules "((())" 0 =
        some ⟨.failure ⟨"Expected end of input", 0⟩, 3⟩ := by
  have unbalanced (depth : Nat) :
      "((())".toList ≠ List.replicate depth '(' ++ List.replicate depth ')' := by
    intro same
    have lengths := congrArg List.length same
    simp only [List.length_append, List.length_replicate] at lengths
    change 5 = depth + depth at lengths
    omega
  exact ⟨runAt_grammar.1 "((())" 0, runAt_grammar.2.2 "((())" unbalanced⟩

end Peg.Parentheses
