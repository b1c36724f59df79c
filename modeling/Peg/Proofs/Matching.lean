import Peg.Proofs.Derivation
import Peg.Proofs.Regex.Bounds
import Peg.Proofs.Regex.Preference
import Peg.Proofs.Regex.Rounds
import Peg.Proofs.Regex.Written

/-!
# What a pattern matches

A pattern reads what its expression matches from the place where it stands, and
nothing further on. Of several matches it takes the end of the first way through
the normal form of the expression, among those that come to no part twice at one
place.

## Main definitions

* `Regex.Place.IsAt`: a place is found at an offset of a text.

## Main results

* `Regex.Expr.matches_iff_exists_directWay`: such a way is there where the expression
  matches.
* `runAt_pattern_first`: when a pattern succeeds, with which end, and how it fails.
-/

namespace Peg

namespace Regex

/-- A place is found at an offset of a text. -/
def Place.IsAt (p : Place) (input : String) (offset : Nat) : Prop :=
  input.toList = p.before ++ p.after ∧ Text.size p.before = offset

theorem Place.IsAt.unique {p q : Place} {input : String} {offset : Nat}
    (h : p.IsAt input offset) (h' : q.IsAt input offset) : p = q := by
  obtain ⟨before, after⟩ := p
  obtain ⟨before', after'⟩ := q
  have cut : Text.splitAt? input.toList offset = some (before, after) :=
    Text.splitAt?_eq_some_iff.2 h
  have cut' : Text.splitAt? input.toList offset = some (before', after') :=
    Text.splitAt?_eq_some_iff.2 h'
  cases cut.symm.trans cut'
  rfl

/-- Where an expression leads from a place of a text is a place of the text, too. -/
theorem Place.IsAt.reads {p q : Place} {input : String} {offset : Nat} {found : List Char}
    (here : p.IsAt input offset) (reads : p.Reads found q) :
    q.IsAt input (offset + Text.size found) := by
  obtain ⟨whole, bytes⟩ := here
  obtain ⟨ahead, behind⟩ := reads
  constructor
  · rw [whole, ahead, behind, List.append_assoc]
  · rw [behind, Text.size_append, bytes]

namespace Expr

/-- An expression matches where it has a direct way. -/
theorem matches_iff_exists_directWay {expr : Expr} (inOrder : expr.Within .ordered)
    {p q : Place} : expr.Matches p q ↔ ∃ turns, expr.DirectWay p turns q := by
  constructor
  · intro matched
    obtain ⟨turns, way⟩ := matched.exists_way (fun _ _ => trivial) inOrder 0
    rw [← run_ofExpr_eq] at way
    obtain ⟨others, run, direct⟩ := way.exists_direct
    rw [run_ofExpr_eq] at run
    exact ⟨others, run, direct⟩
  · rintro ⟨turns, way, -⟩
    exact way.matches inOrder

/-- A search answers with the end of the first direct way through the expression. -/
theorem matchEnd?_answers (expr : Expr) (p : Place) :
    Answers (expr.DirectWay p) none
      ((Program.ofExpr expr).matchEnd? p.before p.after (Text.size p.before)) := by
  have answers := (Program.ofExpr expr).matchEnd?_answers p
  rw [run_ofExpr_eq] at answers
  exact answers

theorem within_ordered_of_parse? {text : String} {normal : Expr}
    (h : parse? text = some normal) : normal.Within .ordered := by
  obtain ⟨tree, after, read, made⟩ := exists_tree_of_parse? h
  exact Switches.within_expr? Allowed.atMostOnce_ordered
    (Syntax.within_ordered_of_parse? read) made

end Expr

end Regex

open Regex

theorem Pattern.compile_eq_ok_iff {expr : String} {regex : Pattern} :
    compile expr = .ok regex ↔
      ∃ normal, Expr.parse? expr = some normal ∧ regex = ⟨expr, .ofExpr normal⟩ := by
  unfold compile
  cases Expr.parse? expr <;> simp [eq_comm]

section Pattern

variable {normal : Expr} {input : String} {start : Nat} {p q : Place}

/-- A pattern takes what stands up to the end of the first way. -/
theorem patternOutcome_of_isFirst (expr : String) (inOrder : normal.Within .ordered)
    (here : p.IsAt input start) (first : IsFirst (normal.DirectWay p) q) : ∃ found,
      Text.slice? input.toList start (Text.size q.before) = some found ∧
        patternOutcome ⟨expr, .ofExpr normal⟩ input start =
          .success ⟨.text (String.ofList found), start, Text.size q.before⟩ := by
  obtain ⟨whole, bytes⟩ := here
  have ⟨turns, way, _⟩ := first
  obtain ⟨found, ahead, behind⟩ := (way.1.matches inOrder).reads
  have cut : input.toList = p.before ++ found ++ q.after := by
    rw [whole, ahead, List.append_assoc]
  have ends : Text.size q.before = start + Text.size found := by
    rw [behind, Text.size_append, bytes]
  refine ⟨found, Text.slice?_eq_some_iff.2 ⟨p.before, q.after, cut, bytes, ends.symm⟩, ?_⟩
  rw [ends]
  refine patternOutcome_of_matchEnd? cut bytes ?_
  -- The search finds the end of a first way, and there is only one.
  rcases normal.matchEnd?_answers p with ⟨r, first', found'⟩ | ⟨none, -⟩
  · rw [← ahead, ← ends, ← bytes, found', first'.unique first]
  · exact absurd way (none turns q)

/-- A pattern fails where its expression matches nothing. -/
theorem patternOutcome_of_not_matches (expr : String) (inOrder : normal.Within .ordered)
    (nothing : ∀ p q, p.IsAt input start → ¬ normal.Matches p q) :
    patternOutcome ⟨expr, .ofExpr normal⟩ input start =
      .failure ⟨"Expected regexp: " ++ expr, start⟩ := by
  refine patternOutcome_of_eq_none fun before after whole bytes => ?_
  have here : Place.IsAt ⟨before, after⟩ input start := ⟨whole, bytes⟩
  rw [← bytes]
  refine (normal.matchEnd?_answers ⟨before, after⟩).eq_best fun turns q way => ?_
  exact nothing ⟨before, after⟩ q here ((Expr.matches_iff_exists_directWay inOrder).2 ⟨turns, way⟩)

/-- Where an expression matches, one of its direct ways is the first. -/
theorem Regex.Expr.Matches.exists_isFirst (inOrder : normal.Within .ordered)
    (h : normal.Matches p q) : ∃ r, IsFirst (normal.DirectWay p) r := by
  obtain ⟨turns, way⟩ := (Expr.matches_iff_exists_directWay inOrder).1 h
  rcases normal.matchEnd?_answers p with ⟨r, first, -⟩ | ⟨none, -⟩
  · exact ⟨r, first⟩
  · exact absurd way (none turns q)

/-- **A pattern succeeds where its expression, as it is written, matches something from the
position of the run on, and is judged by the whole text. It takes the end of the first
direct way through the normal form; otherwise it fails at the position of the run.** -/
theorem runAt_pattern_first {expr : String} {regex : Pattern}
    (compiled : Pattern.compile expr = .ok regex) (rules : Rules) (input : String)
    (start : Nat) : ∃ written normal outcome,
      Expr.written? expr = some written ∧ Expr.parse? expr = some normal ∧
      (Parser.pattern regex).runAt rules input start = some ⟨outcome, 0⟩ ∧
      (outcome.IsSuccess ↔ ∃ p q : Place, p.IsAt input start ∧ written.Matches p q) ∧
      (∀ result, outcome = .success result → ∃ (p q : Place) (found : List Char),
        p.IsAt input start ∧ written.Matches p q ∧ IsFirst (normal.DirectWay p) q ∧
        (normal.RoundsRead → IsFirst (normal.StoppingWay p) q) ∧
        Text.slice? input.toList start (Text.size q.before) = some found ∧
        result = ⟨.text (String.ofList found), start, Text.size q.before⟩) ∧
      (¬ outcome.IsSuccess →
        outcome = .failure ⟨"Expected regexp: " ++ expr, start⟩) := by
  obtain ⟨normal, parsed, rfl⟩ := Pattern.compile_eq_ok_iff.1 compiled
  obtain ⟨written, spelled, alike⟩ := Expr.exists_written parsed
  have inOrder := Expr.within_ordered_of_parse? parsed
  refine ⟨written, normal, patternOutcome ⟨expr, .ofExpr normal⟩ input start, spelled, parsed,
    Parser.runAt_pattern _, ?_⟩
  -- From here on all is said of the normal form, which matches the same.
  rw [← alike]
  by_cases matched : ∃ p q, p.IsAt input start ∧ normal.Matches p q
  · obtain ⟨p, q, here, matched'⟩ := matched
    obtain ⟨r, first⟩ := matched'.exists_isFirst inOrder
    obtain ⟨found, slice, outcome⟩ := patternOutcome_of_isFirst expr inOrder here first
    rw [outcome]
    refine ⟨⟨fun _ => ⟨p, q, here, matched'⟩, fun _ => trivial⟩, ?_, fun stops => ?_⟩
    · rintro result ⟨rfl⟩
      have ⟨turns, way, _⟩ := first
      refine ⟨p, r, found, here, way.1.matches inOrder, first, fun reads => ?_, slice, rfl⟩
      rw [← Expr.directWay_eq_stoppingWay inOrder reads]
      exact first
    · exact absurd trivial stops
  · have outcome := patternOutcome_of_not_matches expr inOrder
      fun p q here matched' => matched ⟨p, q, here, matched'⟩
    rw [outcome]
    exact ⟨⟨False.elim, fun h => absurd h matched⟩, nofun, fun _ => rfl⟩

end Pattern

/-- A letter `a`, nothing, or a letter `b`, again and again. -/
def emptyRounds : Pattern :=
  ⟨"(?:a||b)+", ⟨#[.fork [1, 3, 4], .read (.singleton 'a'), .fork [6], .fork [6],
    .read (.singleton 'b'), .fork [6], .fork [0, 7]]⟩⟩

/-- After the letter `a` a round that reads nothing is given up, and the letter `b` is
read in a round of its own. -/
theorem runAt_pattern_first_emptyRounds :
    Pattern.compile "(?:a||b)+" = .ok emptyRounds ∧
    (Parser.pattern emptyRounds).runAt [] "ab" 0 =
      some ⟨.success ⟨.text "ab", 0, 2⟩, 0⟩ ∧
    ∃ normal, ∃ q : Place, Expr.parse? "(?:a||b)+" = some normal ∧
      IsFirst (normal.DirectWay ⟨[], ['a', 'b']⟩) q ∧ Text.size q.before = 2 := by
  have compiled : Pattern.compile "(?:a||b)+" = .ok emptyRounds := by decide +kernel
  have reply : (Parser.pattern emptyRounds).runAt [] "ab" 0 =
      some ⟨.success ⟨.text "ab", 0, 2⟩, 0⟩ := rfl
  refine ⟨compiled, reply, ?_⟩
  obtain ⟨written, normal, outcome, -, parsed, run, -, first, -⟩ :=
    runAt_pattern_first compiled [] "ab" 0
  obtain rfl : outcome = .success ⟨.text "ab", 0, 2⟩ :=
    congrArg Reply.outcome (Option.some.inj (run.symm.trans reply))
  obtain ⟨p, q, found, here, -, first, -, -, same⟩ := first _ rfl
  obtain rfl : p = ⟨[], ['a', 'b']⟩ := here.unique ⟨rfl, rfl⟩
  exact ⟨normal, q, parsed, first, (congrArg Success.stop same).symm⟩

/-! ### Where the order is not that of the text -/

section Letters

variable {before after : List Char} {turns : List Turn} {q : Place}

theorem Regex.Ways.read_singleton_andThen_iff {first : Ways} {part : Nat} {c : Char} :
    (Ways.read part (.singleton c)).andThen first ⟨before, after⟩ turns q ↔ ∃ rest later,
      after = c :: later ∧ turns = ⟨part, ⟨before, after⟩, 0⟩ :: rest ∧
        first ⟨before ++ [c], later⟩ rest q := by
  constructor
  · rintro ⟨⟨before', later⟩, _, rest, ⟨rfl, d, same, ahead, behind⟩, others, rfl⟩
    obtain rfl := CharSet.contains_singleton_iff.1 same
    obtain rfl : before' = before ++ [d] := behind
    exact ⟨rest, later, ahead, rfl, others⟩
  · rintro ⟨rest, later, rfl, rfl, others⟩
    have same : (CharSet.singleton c).contains c = true := CharSet.contains_singleton_iff.2 rfl
    exact ⟨_, _, rest, ⟨rfl, c, same, rfl, rfl⟩, others, rfl⟩

/-- A letter `a`, nothing, or a letter `b`. -/
def emptyRound : Expr :=
  .alternation [.literal ['a'], .empty, .literal ['b']]

theorem emptyRound_iff {more : Place → Place → Prop} :
    emptyRound.Way more 0 ⟨before, after⟩ turns q ↔
      (∃ later, after = 'a' :: later ∧ q = ⟨before ++ ['a'], later⟩ ∧
        turns = [⟨0, ⟨before, after⟩, 0⟩, ⟨1, ⟨before, after⟩, 0⟩, ⟨2, q, 0⟩]) ∨
      (q = ⟨before, after⟩ ∧ turns = [⟨0, ⟨before, after⟩, 1⟩, ⟨3, ⟨before, after⟩, 0⟩]) ∨
      ∃ later, after = 'b' :: later ∧ q = ⟨before ++ ['b'], later⟩ ∧
        turns = [⟨0, ⟨before, after⟩, 2⟩, ⟨4, ⟨before, after⟩, 0⟩, ⟨5, q, 0⟩] := by
  simp only [emptyRound, Expr.Way, Expr.BranchWay, Ways.either, Ways.turn_andThen_iff,
    Ways.readAll, Ways.andThen_stay, Ways.stay_andThen, Ways.read_singleton_andThen_iff, Ways.turn]
  constructor
  · rintro (⟨_, rfl, _, later, rfl, rfl, rfl, rfl⟩ | ⟨_, rfl, rfl, rfl⟩ |
      ⟨_, rfl, _, later, rfl, rfl, rfl, rfl⟩ | nothing)
    · exact .inl ⟨later, rfl, rfl, rfl⟩
    · exact .inr (.inl ⟨rfl, rfl⟩)
    · exact .inr (.inr ⟨later, rfl, rfl, rfl⟩)
    · exact nothing.elim
  · rintro (⟨later, rfl, rfl, rfl⟩ | ⟨rfl, rfl⟩ | ⟨later, rfl, rfl, rfl⟩)
    · exact .inl ⟨_, rfl, _, later, rfl, rfl, rfl, rfl⟩
    · exact .inr (.inl ⟨_, rfl, rfl, rfl⟩)
    · exact .inr (.inr (.inl ⟨_, rfl, _, later, rfl, rfl, rfl, rfl⟩))

/-- Where a round that reads nothing is the last one, only the first letter is read. -/
theorem isFirst_emptyRounds :
    IsFirst (Expr.StoppingWay (.repetition 1 none true emptyRound) ⟨[], ['a', 'b']⟩)
      ⟨['a'], ['b']⟩ := by
  have shape : Expr.StoppingWay (.repetition 1 none true emptyRound) =
      .loop (fun p q => p ≠ q) true 6 (emptyRound.Way (fun p q => p ≠ q) 0) :=
    Ways.stay_andThen
  rw [shape]
  refine ⟨[⟨0, ⟨[], ['a', 'b']⟩, 0⟩, ⟨1, ⟨[], ['a', 'b']⟩, 0⟩, ⟨2, ⟨['a'], ['b']⟩, 0⟩,
    ⟨6, ⟨['a'], ['b']⟩, 0⟩, ⟨0, ⟨['a'], ['b']⟩, 1⟩, ⟨3, ⟨['a'], ['b']⟩, 0⟩,
    ⟨6, ⟨['a'], ['b']⟩, 1⟩], ?_, ?_⟩
  · have first : emptyRound.Way (fun p q => p ≠ q) 0 ⟨[], ['a', 'b']⟩ _ ⟨['a'], ['b']⟩ :=
      emptyRound_iff.2 (.inl ⟨['b'], rfl, rfl, rfl⟩)
    have second : emptyRound.Way (fun p q => p ≠ q) 0 ⟨['a'], ['b']⟩ _ ⟨['a'], ['b']⟩ :=
      emptyRound_iff.2 (.inr (.inl ⟨rfl, rfl⟩))
    exact .again first (by decide) (.last second)
  · intro others r way
    cases way with
    | last round =>
      -- One round alone is no preferred way: the repetition would rather go on.
      refine .inr ?_
      rcases emptyRound_iff.1 round with ⟨_, ⟨⟩, rfl, rfl⟩ | ⟨rfl, rfl⟩ | ⟨_, ⟨⟩, -⟩
      · exact ⟨[⟨0, _, 0⟩, ⟨1, _, 0⟩, ⟨2, _, 0⟩], 6, _, 0, 1, _, _, Nat.zero_lt_one, rfl, rfl⟩
      · exact ⟨[], 0, _, 0, 1, _, _, Nat.zero_lt_one, rfl, rfl⟩
    | again round goes rest =>
      rcases emptyRound_iff.1 round with ⟨_, ⟨⟩, rfl, rfl⟩ | ⟨rfl, rfl⟩ | ⟨_, ⟨⟩, -⟩
      · cases rest with
        | last round =>
          rcases emptyRound_iff.1 round with ⟨_, ⟨⟩, -⟩ | ⟨rfl, rfl⟩ | ⟨_, ⟨⟩, rfl, rfl⟩
          · exact .inl ⟨rfl, rfl⟩
          · exact .inr ⟨[⟨0, _, 0⟩, ⟨1, _, 0⟩, ⟨2, _, 0⟩, ⟨6, _, 0⟩], 0, _, 1, 2, _, _,
              Nat.one_lt_two, rfl, rfl⟩
        | again round goes rest =>
          rcases emptyRound_iff.1 round with ⟨_, ⟨⟩, -⟩ | ⟨rfl, rfl⟩ | ⟨_, ⟨⟩, rfl, rfl⟩
          · -- The second round reads nothing, so there is no third one.
            exact absurd rfl goes
          · exact .inr ⟨[⟨0, _, 0⟩, ⟨1, _, 0⟩, ⟨2, _, 0⟩, ⟨6, _, 0⟩], 0, _, 1, 2, _, _,
              Nat.one_lt_two, rfl, rfl⟩
      · exact absurd rfl goes

/-- A letter `a` or none, and then a letter `a`, or else a letter `b`. -/
def twoBeginnings : Expr :=
  .alternation [.concat [.repetition 0 (some 1) true (.literal ['a']), .literal ['a']],
    .concat [.repetition 0 (some 1) true (.literal ['a']), .literal ['b']]]

/-- In the order of the branches the first letter is read alone. -/
theorem isFirst_twoBeginnings :
    IsFirst (twoBeginnings.StoppingWay ⟨[], ['a', 'b']⟩) ⟨['a'], ['b']⟩ := by
  have ways (turns : List Turn) (q : Place) : twoBeginnings.StoppingWay ⟨[], ['a', 'b']⟩ turns q ↔
      (turns = [⟨0, ⟨[], ['a', 'b']⟩, 0⟩, ⟨1, ⟨[], ['a', 'b']⟩, 1⟩, ⟨3, ⟨[], ['a', 'b']⟩, 0⟩,
        ⟨4, ⟨['a'], ['b']⟩, 0⟩] ∧ ⟨['a'], ['b']⟩ = q) ∨
      (turns = [⟨0, ⟨[], ['a', 'b']⟩, 1⟩, ⟨5, ⟨[], ['a', 'b']⟩, 0⟩, ⟨6, ⟨[], ['a', 'b']⟩, 0⟩,
        ⟨7, ⟨['a'], ['b']⟩, 0⟩, ⟨8, ⟨['a', 'b'], []⟩, 0⟩] ∧ ⟨['a', 'b'], []⟩ = q) := by
    simp [twoBeginnings, Expr.StoppingWay, Expr.Way, Expr.BranchWay, Expr.AllWay, Expr.size,
      Expr.sizeAll, Ways.either, Ways.copies, Ways.options, Ways.readAll, Ways.either_andThen,
      Ways.andThen_assoc, Ways.turn_andThen_iff, Ways.read_singleton_andThen_iff, Ways.turn,
      Ways.goOn, Ways.stop]
  refine ⟨_, (ways _ _).2 (.inl ⟨rfl, rfl⟩), fun others r way => ?_⟩
  rcases (ways others r).1 way with ⟨rfl, rfl⟩ | ⟨rfl, rfl⟩
  · exact .inl ⟨rfl, rfl⟩
  · exact .inr ⟨[], 0, _, 0, 1, _, _, Nat.zero_lt_one, rfl, rfl⟩

end Letters

/-- A beginning that two branches share stands before both in the normal form. -/
def sharedBeginning : Pattern :=
  ⟨"a?a|a?b", ⟨#[.fork [1, 2], .read (.singleton 'a'),
    .read ⟨[⟨'a'.toNat, 'b'.toNat⟩]⟩]⟩⟩

/-- **The order of preference is not quite that of the text.** A round that reads nothing does
not end the repetition, but is given up for one that reads on; and of two branches that
begin alike the beginning is chosen first. -/
theorem order_not_as_written :
    (Pattern.compile "(?:a||b)+" = .ok emptyRounds ∧
      Expr.written? "(?:a||b)+" = some (.repetition 1 none true emptyRound) ∧
      IsFirst (Expr.StoppingWay (.repetition 1 none true emptyRound) ⟨[], ['a', 'b']⟩)
        ⟨['a'], ['b']⟩ ∧
      (Parser.pattern emptyRounds).runAt [] "ab" 0 =
        some ⟨.success ⟨.text "ab", 0, 2⟩, 0⟩) ∧
    (Pattern.compile "a?a|a?b" = .ok sharedBeginning ∧
      Expr.written? "a?a|a?b" = some twoBeginnings ∧
      IsFirst (twoBeginnings.StoppingWay ⟨[], ['a', 'b']⟩) ⟨['a'], ['b']⟩ ∧
      (Parser.pattern sharedBeginning).runAt [] "ab" 0 =
        some ⟨.success ⟨.text "ab", 0, 2⟩, 0⟩) :=
  ⟨⟨by decide +kernel, rfl, isFirst_emptyRounds, rfl⟩,
    by decide +kernel, rfl, isFirst_twoBeginnings, rfl⟩

end Peg
