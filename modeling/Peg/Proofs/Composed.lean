import Peg.Proofs.Regex.Grouped
import Peg.Proofs.Regex.Star
import Peg.Proofs.Takes

/-!
# Patterns put together

Two expressions that are put in groups can be made the branches of an alternation, and one
the body of a star. The pattern of the alternation succeeds where one of the two patterns
does. If nothing is put in front of the branches in normal form, it takes the same as a
choice between the two. The pattern of the star takes the same as a repetition of the
pattern, if that never succeeds without reading.

## Main definitions

* `Regex.Expr.alternatives?`: the branches that a text writes at the top, in normal form.

## Main results

* `Regex.Expr.exists_branches_of_parse?`, `Regex.Expr.exists_star_of_parse?`: the normal
  forms of an alternation and of a star.
* `runAt_composed`: patterns that are put together agree with parsers that are.
-/

namespace Peg

namespace Regex.Expr

/-! ### Normal forms -/

variable {first second text : String} {one two expr whole : Expr}

/-- The alternatives that a text writes at the top, in normal form, where those of an
alternative count as alternatives of the text. -/
def alternatives? (text : String) : Option (List Expr) := do
  match ← Syntax.parse? text with
  | .alternation items =>
    let (items, _) ← Switches.default.exprs? items
    return items.flatMap branches
  | tree =>
    let (expr, _) ← Switches.default.expr? tree
    return expr.branches

/-- The normal form of a group that changes no switch is that of what is in it, wherever
the numbers of its captures begin. -/
theorem expr?_group {tree : Syntax} {after : Switches} (shift : Nat)
    (h : Switches.default.expr? tree = some (expr, after)) :
    Switches.default.expr? (.group (.plain []) (tree.renumber shift)) =
      some (expr.renumber shift, Switches.default) := by
  have inside : (Switches.default.change []).expr? (tree.renumber shift) =
      some (expr.renumber shift, after) :=
    Switches.expr?_renumber h
  rw [Switches.expr?, inside]
  rfl

/-- Normal forms are normal, wherever the numbers of their captures begin. -/
theorem isNormal_of_parse? (shift : Nat) (h : parse? text = some expr) :
    (expr.renumber shift).IsNormal := by
  obtain ⟨tree, after, -, made⟩ := exists_tree_of_parse? h
  exact Switches.isNormal_expr? (Switches.expr?_renumber made)

/-- Two expressions in groups are put together to an alternation. -/
theorem exists_branches_of_parse? (left : parse? first = some one)
    (right : parse? second = some two) (keeps : Syntax.NeverSets .verbose first)
    (keeps' : Syntax.NeverSets .verbose second)
    (h : parse? ("(?:" ++ first ++ ")|(?:" ++ second ++ ")") = some whole) :
    ∃ shift shift', whole = ofAlternation
        (weightAll [one.renumber shift, two.renumber shift'])
        [one.renumber shift, two.renumber shift'] ∧
      alternatives? ("(?:" ++ first ++ ")|(?:" ++ second ++ ")") =
        some ([one.renumber shift, two.renumber shift'].flatMap branches) := by
  obtain ⟨left, after, read, made⟩ := exists_tree_of_parse? left
  obtain ⟨right, after', read', made'⟩ := exists_tree_of_parse? right
  obtain ⟨tree, after'', reads, makes⟩ := exists_tree_of_parse? h
  obtain ⟨shift, shift', rfl⟩ := Syntax.eq_of_parse?_alternation read read' keeps keeps' reads
  have items : Switches.default.exprs? [.group (.plain []) (left.renumber shift),
      .group (.plain []) (right.renumber shift')] =
      some ([one.renumber shift, two.renumber shift'], Switches.default) := by
    simp only [Switches.exprs?, expr?_group shift made, expr?_group shift' made',
      Option.bind_eq_bind, Option.bind_some, Option.pure_def]
  refine ⟨shift, shift', ?_, ?_⟩
  · rw [Switches.expr?, items] at makes
    cases makes
    rfl
  · rw [alternatives?, reads]
    simp only [Option.bind_eq_bind, Option.bind_some, items]
    rfl

/-- What is put together to an alternation matches where one of the two expressions does. If
order is kept, it leads on as the first of the two that matches. -/
theorem exists_alternatives_of_parse? (left : parse? first = some one)
    (right : parse? second = some two) (keeps : Syntax.NeverSets .verbose first)
    (keeps' : Syntax.NeverSets .verbose second)
    (h : parse? ("(?:" ++ first ++ ")|(?:" ++ second ++ ")") = some whole) :
    ∃ alternatives,
      alternatives? ("(?:" ++ first ++ ")|(?:" ++ second ++ ")") = some alternatives ∧
      whole.Matches = AnyMatches [one, two] ∧
      ∀ p q, KeepsOrder alternatives p → IsFirst (whole.DirectWay p) q →
        FirstOf [one, two] p q := by
  have order := within_ordered_of_parse? left
  have order' := within_ordered_of_parse? right
  obtain ⟨shift, shift', rfl, alternatives⟩ := exists_branches_of_parse? left right keeps keeps' h
  have normal := isNormal_of_parse? shift left
  have normal' := isNormal_of_parse? shift' right
  refine ⟨_, alternatives, ?_, fun p q keepsOrder first => ?_⟩
  · rw [matches_ofAlternation]
    funext p q
    simp only [AnyMatches, matches_renumber order, matches_renumber order']
  · -- An alternation that is flattened adds branches, and none has less than two.
    have several : 2 ≤ ([one.renumber shift, two.renumber shift'].flatMap branches).length := by
      have some := List.length_pos_of_ne_nil normal.branches_ne_nil
      have some' := List.length_pos_of_ne_nil normal'.branches_ne_nil
      simp only [List.flatMap_cons, List.flatMap_nil, List.length_append, List.length_nil]
      omega
    have inOrder : AllWithin .ordered [one.renumber shift, two.renumber shift'] :=
      ⟨(within_renumber one).2 order, (within_renumber two).2 order', trivial⟩
    have chosen := firstOf_of_isFirst_ofAlternation inOrder
      (List.forall_mem_cons.2 ⟨normal, List.forall_mem_singleton.2 normal'⟩) several
      (weightAll_pos (List.cons_ne_nil _ _)) keepsOrder first
    simpa only [FirstOf, directWay_renumber, matches_renumber order, matches_renumber order']
      using chosen

/-- An expression in a group is put under a star. -/
theorem exists_star_of_parse? (inner : parse? text = some expr)
    (keeps : Syntax.NeverSets .verbose text) (h : parse? ("(?:" ++ text ++ ")*") = some whole) :
    ∃ shift, whole = ofRepetition 0 none true (expr.renumber shift) := by
  obtain ⟨tree, after, read, made⟩ := exists_tree_of_parse? inner
  obtain ⟨tree', after', reads, makes⟩ := exists_tree_of_parse? h
  obtain ⟨shift, rfl⟩ := Syntax.eq_of_parse?_star read keeps reads
  rw [Switches.expr?, expr?_group shift made] at makes
  cases makes
  exact ⟨shift, rfl⟩

end Regex.Expr

open Regex

section Patterns

variable {rules : Rules} {input name : String} {start : Nat} {p q : Place}
  {expr : Expr}

/-! ### Patterns in normal form -/

theorem runAt_pattern_of_isFirst (rules : Rules) (text : String) (inOrder : expr.Within .ordered)
    (here : p.IsAt input start) (first : IsFirst (expr.DirectWay p) q) : ∃ found,
      Text.slice? input.toList start (Text.size q.before) = some found ∧
        (Parser.pattern ⟨text, .ofExpr expr⟩).runAt rules input start =
          some ⟨.success ⟨.text (String.ofList found), start, Text.size q.before⟩, 0⟩ := by
  obtain ⟨found, slice, outcome⟩ := patternOutcome_of_isFirst text inOrder here first
  exact ⟨found, slice, by rw [Parser.runAt_pattern, outcome]⟩

theorem runAt_pattern_of_not_matches (rules : Rules) (text : String)
    (inOrder : expr.Within .ordered) (nothing : ∀ p q, p.IsAt input start → ¬ expr.Matches p q) :
    (Parser.pattern ⟨text, .ofExpr expr⟩).runAt rules input start =
      some ⟨.failure ⟨"Expected regexp: " ++ text, start⟩, 0⟩ := by
  rw [Parser.runAt_pattern, patternOutcome_of_not_matches text inOrder nothing]

/-- The pattern of an expression that matches nothing without reading never succeeds
without reading. -/
theorem runAt_pattern_forward {text : String} (inOrder : expr.Within .ordered)
    (reads : ∀ p, ¬ expr.Matches p p) (position : Nat) (result : Success Value)
    (taken : (Parser.pattern ⟨text, .ofExpr expr⟩).runAt rules input position =
      some ⟨.success result, 0⟩) : result.start ≠ result.stop := by
  by_cases matched : ∃ p q, p.IsAt input position ∧ expr.Matches p q
  · obtain ⟨p, q, here, matched⟩ := matched
    obtain ⟨r, first⟩ := matched.exists_isFirst inOrder
    obtain ⟨found, -, takes⟩ := runAt_pattern_of_isFirst rules text inOrder here first
    cases taken.symm.trans takes
    have matched' := Expr.matches_of_isFirst inOrder first
    obtain ⟨read, onward⟩ := matched'.reads
    have there : Text.size r.before = position + Text.size read := (here.reads onward).2
    by_cases nothing : read = []
    · rw [nothing] at onward
      obtain rfl := Place.reads_nil_iff.1 onward
      exact absurd matched' (reads p)
    · have some := Text.size_pos nothing
      change position ≠ Text.size r.before
      omega
  · have fails := runAt_pattern_of_not_matches rules text inOrder
      fun p q here found => matched ⟨p, q, here, found⟩
    cases taken.symm.trans fails

/-- At a position there is only one place. -/
theorem not_matches_of_isAt (here : p.IsAt input start) (none : ∀ q, ¬ expr.Matches p q) :
    ∀ p q, p.IsAt input start → ¬ expr.Matches p q := by
  intro p' q here' matched
  obtain rfl := here.unique here'
  exact none q matched

/-! ### Choices -/

/-- A choice between patterns takes the first way of the first expression that matches. -/
theorem firstOf_of_firstOf {choices : List (String × Expr)}
    (inOrder : Expr.AllWithin .ordered (choices.map Prod.snd)) (here : p.IsAt input start)
    (first : Expr.FirstOf (choices.map Prod.snd) p q) : ∃ found,
      Text.slice? input.toList start (Text.size q.before) = some found ∧
        Step.firstOf name (choices.map fun (text, normal) =>
            (Parser.pattern ⟨text, .ofExpr normal⟩).runAt rules input) start =
          some ⟨.success ⟨.text (String.ofList found), start, Text.size q.before⟩, 0⟩ := by
  induction choices with
  | nil => exact first.elim
  | cons choice choices ih =>
    obtain ⟨text, normal⟩ := choice
    rcases first with first | ⟨none, others⟩
    · obtain ⟨found, slice, takes⟩ := runAt_pattern_of_isFirst rules text inOrder.1 here first
      exact ⟨found, slice, Step.firstOf_cons_success takes⟩
    · -- A pattern that matches nothing fails where it is run, and the choice goes on.
      obtain ⟨found, slice, rest⟩ := ih inOrder.2 others
      have fails := runAt_pattern_of_not_matches rules text inOrder.1
        (not_matches_of_isAt here none)
      refine ⟨found, slice, ?_⟩
      rw [List.map_cons, Step.firstOf_cons_failure fails, rest]
      rfl

/-- A choice between patterns none of which matches fails where it is run. -/
theorem firstOf_of_not_anyMatches {choices : List (String × Expr)}
    (inOrder : Expr.AllWithin .ordered (choices.map Prod.snd))
    (none : ∀ p q, p.IsAt input start → ¬ Expr.AnyMatches (choices.map Prod.snd) p q) :
    Step.firstOf name (choices.map fun (text, normal) =>
        (Parser.pattern ⟨text, .ofExpr normal⟩).runAt rules input) start =
      some ⟨.failure (.expected name start), 0⟩ := by
  induction choices with
  | nil => rfl
  | cons choice choices ih =>
    obtain ⟨text, normal⟩ := choice
    have fails := runAt_pattern_of_not_matches rules text inOrder.1
      fun p q here matched => none p q here (.inl matched)
    rw [List.map_cons, Step.firstOf_cons_failure fails,
      ih inOrder.2 fun p q here matched => none p q here (.inr matched)]
    rfl

/-! ### Repetitions -/

/-- A pattern that never succeeds without reading can be repeated until it fails. -/
theorem Regex.Expr.exists_firstRounds (inOrder : expr.Within .ordered)
    (forward : ∀ start p q, p.IsAt input start → IsFirst (expr.DirectWay p) q → p ≠ q)
    (here : p.IsAt input start) : ∃ q, expr.FirstRounds p q := by
  -- Every round leaves less to read.
  induction left : p.after.length using Nat.strongRecOn generalizing p start with
  | ind count ih =>
    by_cases matched : ∃ q, expr.Matches p q
    · obtain ⟨q, matched⟩ := matched
      obtain ⟨r, first⟩ := matched.exists_isFirst inOrder
      have apart := forward start p r here first
      obtain ⟨found, reads⟩ := (matches_of_isFirst inOrder first).reads
      have some : 0 < found.length := by
        rw [List.length_pos_iff]
        rintro rfl
        exact apart (Place.reads_nil_iff.1 reads)
      have fewer : r.after.length < count := by
        rw [← left, reads.1, List.length_append]
        omega
      obtain ⟨q, rest⟩ := ih _ fewer (here.reads reads) rfl
      exact ⟨q, .next first apart rest⟩
    · exact ⟨p, .done fun q matched' => matched ⟨q, matched'⟩⟩

/-- A repetition of a pattern leads through the first rounds. -/
theorem runAt_many_of_firstRounds (rules : Rules) (text : String) (inOrder : expr.Within .ordered)
    (rounds : expr.FirstRounds p q) (here : p.IsAt input start) : ∃ texts : List String,
      Text.slice? input.toList start (Text.size q.before) = some (String.join texts).toList ∧
        (Parser.many (.pattern ⟨text, .ofExpr expr⟩)).runAt rules input start =
          some ⟨.success ⟨.list (texts.map .text), start, Text.size q.before⟩, 0⟩ := by
  suffices iterated : ∃ texts : List String,
      Text.slice? input.toList start (Text.size q.before) = some (String.join texts).toList ∧
        Step.iterate (Parser.pattern ⟨text, .ofExpr expr⟩).name
            (Parser.many (.pattern ⟨text, .ofExpr expr⟩)).name
            ((Parser.pattern ⟨text, .ofExpr expr⟩).runAt rules input) start =
          some ⟨.success ⟨texts.map .text, start, Text.size q.before⟩, 0⟩ by
    obtain ⟨texts, slice, rounds⟩ := iterated
    refine ⟨texts, slice, ?_⟩
    rw [Parser.runAt_many, rounds]
    rfl
  induction rounds generalizing start with
  | @done p none =>
    have fails := runAt_pattern_of_not_matches rules text inOrder (not_matches_of_isAt here none)
    have boundary : Text.isBoundary input.toList start = true :=
      Text.isBoundary_iff.2 ⟨p.before, p.after, here⟩
    rw [Step.iterate_failure fails, here.2]
    exact ⟨[], Text.slice?_self boundary, rfl⟩
  | @next p q r first apart rest ih =>
    obtain ⟨found, slice, takes⟩ := runAt_pattern_of_isFirst rules text inOrder here first
    obtain ⟨read, reads⟩ := (Expr.matches_of_isFirst inOrder first).reads
    have there := here.reads reads
    obtain ⟨texts, slice', rounds⟩ := ih there
    -- The round has read something, so the repetition does not break down.
    have forward : start < Text.size r.before := by
      rw [there.2]
      apply Nat.lt_add_of_pos_right
      apply Text.size_pos
      rintro rfl
      exact apart (Place.reads_nil_iff.1 reads)
    rw [← there.2] at slice' rounds
    refine ⟨String.ofList found :: texts, ?_, ?_⟩
    · rw [Text.slice?_append slice slice', String.join_cons, String.toList_append,
        String.toList_ofList]
    · rw [Step.iterate_success takes forward, rounds]
      rfl

/-! ### Expressions put together -/

section Texts

variable {first second text : String} {one two whole : Expr}

/-- The pattern of an alternation succeeds where a choice between the patterns of its
branches does, and takes the same if the normal form keeps their order. -/
theorem runAt_either (left : Expr.parse? first = some one) (right : Expr.parse? second = some two)
    (both : Expr.parse? ("(?:" ++ first ++ ")|(?:" ++ second ++ ")") = some whole)
    (keeps : Syntax.NeverSets .verbose first) (keeps' : Syntax.NeverSets .verbose second)
    (rules : Rules) (input : String) (start : Nat) : ∃ alternatives outcome outcome',
      Expr.alternatives? ("(?:" ++ first ++ ")|(?:" ++ second ++ ")") = some alternatives ∧
      (Parser.pattern ⟨"(?:" ++ first ++ ")|(?:" ++ second ++ ")", .ofExpr whole⟩).runAt rules
        input start = some ⟨outcome, 0⟩ ∧
      (Parser.alternate [.pattern ⟨first, .ofExpr one⟩, .pattern ⟨second, .ofExpr two⟩]).runAt
        rules input start = some ⟨outcome', 0⟩ ∧
      ((∃ result result', outcome = .success result ∧ outcome' = .success result' ∧
          result.start = start ∧ result'.start = start ∧
          ((∀ p, p.IsAt input start → Expr.KeepsOrder alternatives p) → result = result')) ∨
        ∃ reason reason', outcome = .failure reason ∧ outcome' = .failure reason' ∧
          reason.position = start ∧ reason'.position = start) := by
  have ordered := Expr.within_ordered_of_parse? both
  have inOrder : Expr.AllWithin .ordered ([(first, one), (second, two)].map Prod.snd) :=
    ⟨Expr.within_ordered_of_parse? left, Expr.within_ordered_of_parse? right, trivial⟩
  obtain ⟨alternatives, read, matching, keepsFirst⟩ :=
    Expr.exists_alternatives_of_parse? left right keeps keeps' both
  refine ⟨alternatives, ?_⟩
  by_cases matched : ∃ p q, p.IsAt input start ∧ whole.Matches p q
  · obtain ⟨p, q, here, matched⟩ := matched
    obtain ⟨r, leads⟩ := matched.exists_isFirst ordered
    rw [matching] at matched
    obtain ⟨s, chosen⟩ := matched.exists_firstOf inOrder
    obtain ⟨found, slice, takes⟩ := runAt_pattern_of_isFirst rules _ ordered here leads
    obtain ⟨found', slice', takes'⟩ := firstOf_of_firstOf inOrder here chosen
    refine ⟨_, _, read, takes, (Parser.runAt_alternate _).trans takes',
      .inl ⟨_, _, rfl, rfl, rfl, rfl, fun order => ?_⟩⟩
    -- Both lead to the same place, and the text on the way there is the same.
    obtain rfl := (keepsFirst p r (order p here) leads).unique inOrder chosen
    obtain rfl := Option.some.inj (slice.symm.trans slice')
    rfl
  · have nothing : ∀ p q, p.IsAt input start → ¬ whole.Matches p q :=
      fun p q here found => matched ⟨p, q, here, found⟩
    have neither : ∀ p q, p.IsAt input start → ¬ Expr.AnyMatches [one, two] p q := by
      rwa [← matching]
    exact ⟨_, _, read, runAt_pattern_of_not_matches rules _ ordered nothing,
      (Parser.runAt_alternate _).trans (firstOf_of_not_anyMatches inOrder neither),
      .inr ⟨_, _, rfl, rfl, rfl, rfl⟩⟩

/-- The pattern of a star takes the same as a repetition of the pattern of its body, if that
never succeeds without reading. -/
theorem runAt_star (inner : Expr.parse? text = some one)
    (starred : Expr.parse? ("(?:" ++ text ++ ")*") = some whole)
    (keeps : Syntax.NeverSets .verbose text) (rules : Rules) (input : String)
    (forward : ∀ position result, (Parser.pattern ⟨text, .ofExpr one⟩).runAt rules input position =
      some ⟨.success result, 0⟩ → result.start ≠ result.stop)
    (start : Nat) (boundary : Text.isBoundary input.toList start = true) : ∃ texts stop,
      (Parser.many (.pattern ⟨text, .ofExpr one⟩)).runAt rules input start =
        some ⟨.success ⟨.list (texts.map .text), start, stop⟩, 0⟩ ∧
      (Parser.pattern ⟨"(?:" ++ text ++ ")*", .ofExpr whole⟩).runAt rules input start =
        some ⟨.success ⟨.text (String.join texts), start, stop⟩, 0⟩ := by
  have order := Expr.within_ordered_of_parse? inner
  obtain ⟨before, after, here⟩ := Text.isBoundary_iff.1 boundary
  have here : Place.IsAt ⟨before, after⟩ input start := here
  have apart (start : Nat) (p q : Place) (here : p.IsAt input start)
      (first : IsFirst (one.DirectWay p) q) : p ≠ q := by
    rintro rfl
    obtain ⟨found, -, takes⟩ := runAt_pattern_of_isFirst rules text order here first
    exact forward start _ takes here.2.symm
  obtain ⟨q, rounds⟩ := Expr.exists_firstRounds order apart here
  obtain ⟨texts, slice, many⟩ := runAt_many_of_firstRounds rules text order rounds here
  -- The star leads to the same place, so that it takes the same text.
  obtain ⟨shift, rfl⟩ := Expr.exists_star_of_parse? inner keeps starred
  have inside : (one.renumber shift).Within .ordered := (Expr.within_renumber one).2 order
  have leads := (rounds.renumber order shift).isFirst_ofRepetition inside
  obtain ⟨found, slice', takes⟩ :=
    runAt_pattern_of_isFirst rules _ (Expr.within_ordered_of_parse? starred) here leads
  obtain rfl := Option.some.inj (slice'.symm.trans slice)
  rw [String.ofList_toList] at takes
  exact ⟨texts, _, many, takes⟩

end Texts

end Patterns

/-- **Patterns that are put together agree with parsers that are.** The pattern of an
alternation and the choice between the patterns of its branches succeed from the same start
or fail at the same position, and take the same where the normal form of the alternation
keeps the order of its alternatives. The pattern of a star takes what the repetition of the
pattern of its body does, if that never succeeds without reading. -/
theorem runAt_composed {first second repeated : String} {one two either item star : Pattern}
    (left : Pattern.compile first = .ok one) (right : Pattern.compile second = .ok two)
    (both : Pattern.compile ("(?:" ++ first ++ ")|(?:" ++ second ++ ")") = .ok either)
    (inner : Pattern.compile repeated = .ok item)
    (starred : Pattern.compile ("(?:" ++ repeated ++ ")*") = .ok star)
    (keeps : ∀ text ∈ [first, second, repeated], Syntax.NeverSets .verbose text)
    (rules : Rules) (input : String) (start : Nat) :
    (∃ alternatives outcome outcome',
      Expr.alternatives? ("(?:" ++ first ++ ")|(?:" ++ second ++ ")") = some alternatives ∧
      (Parser.pattern either).runAt rules input start = some ⟨outcome, 0⟩ ∧
      (Parser.alternate [.pattern one, .pattern two]).runAt rules input start =
        some ⟨outcome', 0⟩ ∧
      ((∃ result result', outcome = .success result ∧ outcome' = .success result' ∧
          result.start = start ∧ result'.start = start ∧
          ((∀ p, p.IsAt input start → Expr.KeepsOrder alternatives p) → result = result')) ∨
        ∃ reason reason', outcome = .failure reason ∧ outcome' = .failure reason' ∧
          reason.position = start ∧ reason'.position = start)) ∧
    ((∀ position result, (Parser.pattern item).runAt rules input position =
        some ⟨.success result, 0⟩ → result.start ≠ result.stop) →
      Text.isBoundary input.toList start = true →
      ∃ texts stop,
        (Parser.many (.pattern item)).runAt rules input start =
          some ⟨.success ⟨.list (texts.map .text), start, stop⟩, 0⟩ ∧
        (Parser.pattern star).runAt rules input start =
          some ⟨.success ⟨.text (String.join texts), start, stop⟩, 0⟩) := by
  obtain ⟨_, first', rfl⟩ := Pattern.compile_eq_ok_iff.1 left
  obtain ⟨_, second', rfl⟩ := Pattern.compile_eq_ok_iff.1 right
  obtain ⟨_, either', rfl⟩ := Pattern.compile_eq_ok_iff.1 both
  obtain ⟨_, item', rfl⟩ := Pattern.compile_eq_ok_iff.1 inner
  obtain ⟨_, star', rfl⟩ := Pattern.compile_eq_ok_iff.1 starred
  obtain ⟨keepsFirst, others⟩ := List.forall_mem_cons.1 keeps
  obtain ⟨keepsSecond, keepsRepeated⟩ := List.forall_mem_cons.1 others
  constructor
  · exact runAt_either first' second' either' keepsFirst keepsSecond rules input start
  · intro forward boundary
    exact runAt_star item' star' (List.forall_mem_singleton.1 keepsRepeated) rules input forward
      start boundary

/-- A beginning that leads to one place is shared, and keeps the order of the alternatives;
and two letters are read in every round, or one. -/
theorem runAt_composed_letters : ∃ one two either item star,
    Pattern.compile "^ab" = .ok one ∧ Pattern.compile "^ac" = .ok two ∧
    Pattern.compile "(?:^ab)|(?:^ac)" = .ok either ∧
    Pattern.compile "ac?" = .ok item ∧ Pattern.compile "(?:ac?)*" = .ok star ∧
    (Parser.pattern either).runAt [] "acaac" 0 = some ⟨.success ⟨.text "ac", 0, 2⟩, 0⟩ ∧
    (Parser.alternate [.pattern one, .pattern two]).runAt [] "acaac" 0 =
      some ⟨.success ⟨.text "ac", 0, 2⟩, 0⟩ ∧
    (Parser.pattern star).runAt [] "acaac" 0 = some ⟨.success ⟨.text "acaac", 0, 5⟩, 0⟩ ∧
    ∃ texts, String.join texts = "acaac" ∧
      (Parser.many (.pattern item)).runAt [] "acaac" 0 =
        some ⟨.success ⟨.list (texts.map .text), 0, 5⟩, 0⟩ := by
  have left : Pattern.compile "^ab" = .ok ⟨"^ab", .ofExpr (.concat
      [.look .textStart, .literal ['a', 'b']])⟩ := by
    decide +kernel
  have right : Pattern.compile "^ac" = .ok ⟨"^ac", .ofExpr (.concat
      [.look .textStart, .literal ['a', 'c']])⟩ := by
    decide +kernel
  have both : Pattern.compile "(?:^ab)|(?:^ac)" = .ok ⟨"(?:^ab)|(?:^ac)", .ofExpr (.concat
      [.look .textStart, .alternation [.literal ['a', 'b'], .literal ['a', 'c']]])⟩ := by
    decide +kernel
  have inner : Pattern.compile "ac?" = .ok ⟨"ac?", .ofExpr (.concat
      [.literal ['a'], .repetition 0 (some 1) true (.literal ['c'])])⟩ := by
    decide +kernel
  have starred : Pattern.compile "(?:ac?)*" = .ok ⟨"(?:ac?)*", .ofExpr (.repetition 0 none true
      (.concat [.literal ['a'], .repetition 0 (some 1) true (.literal ['c'])]))⟩ := by
    decide +kernel
  obtain ⟨⟨alternatives, outcome, outcome', read, takes, takes', agree⟩, repeats⟩ :=
    runAt_composed left right both inner starred (by decide +kernel) [] "acaac" 0
  refine ⟨_, _, _, _, _, left, right, both, inner, starred, rfl, ?_, rfl, ?_⟩
  · have row : Expr.alternatives? "(?:^ab)|(?:^ac)" = some
        [.concat [.look .textStart, .literal ['a', 'b']],
          .concat [.look .textStart, .literal ['a', 'c']]] := rfl
    obtain rfl := Option.some.inj (read.symm.trans row)
    obtain rfl : outcome = .success ⟨.text "ac", 0, 2⟩ :=
      congrArg Reply.outcome (Option.some.inj takes.symm)
    rcases agree with ⟨result, result', same, rfl, -, -, equal⟩ | ⟨reason, reason', same, -⟩
    · obtain rfl := Outcome.success.inj same
      rw [takes', equal fun p _ => ?_]
      -- The beginning that both share stays where it is.
      have beginning : Expr.sharedBeginning [.concat [.look .textStart, .literal ['a', 'b']],
          .concat [.look .textStart, .literal ['a', 'c']]] = [.look .textStart] := rfl
      apply Expr.keepsOrder_of_unique
      · rw [beginning]
        exact ⟨trivial, trivial⟩
      · rw [beginning]
        rintro r s ⟨_, ⟨-, rfl⟩, rfl⟩ ⟨_, ⟨-, rfl⟩, rfl⟩
        rfl
    · cases same
  · have forward := @runAt_pattern_forward [] "acaac"
      (.concat [.literal ['a'], .repetition 0 (some 1) true (.literal ['c'])]) "ac?"
      ⟨trivial, ⟨fun _ _ => Nat.zero_le _, trivial⟩, trivial⟩ fun p matched => by
        obtain ⟨r, reads, s, others, rfl⟩ := matched
        obtain rfl := Place.UpTo.antisymm ⟨_, reads⟩ others.reads
        exact absurd reads.1 (by simp)
    obtain ⟨texts, stop, many, stars⟩ := repeats forward rfl
    have same : Outcome.success _ = .success ⟨Value.text "acaac", 0, 5⟩ :=
      congrArg Reply.outcome (Option.some.inj stars.symm)
    injection same with result
    injection result with value _ stops
    injection value with joined
    subst stops
    exact ⟨texts, joined, many⟩

/-- **A choice between patterns may take less than the pattern of the alternation.** A beginning
that both branches share is chosen first, and what it leads to may go on with the second
branch where the first one would have matched otherwise. -/
theorem either_not_as_choice : ∃ one two either,
    Pattern.compile "a?a" = .ok one ∧ Pattern.compile "a?b" = .ok two ∧
    Pattern.compile "(?:a?a)|(?:a?b)" = .ok either ∧
    Syntax.NeverSets .verbose "a?a" ∧ Syntax.NeverSets .verbose "a?b" ∧
    (Parser.pattern either).runAt [] "ab" 0 = some ⟨.success ⟨.text "ab", 0, 2⟩, 0⟩ ∧
    (Parser.alternate [.pattern one, .pattern two]).runAt [] "ab" 0 =
      some ⟨.success ⟨.text "a", 0, 1⟩, 0⟩ := by
  have left : Pattern.compile "a?a" = .ok ⟨"a?a", .ofExpr (.concat
      [.repetition 0 (some 1) true (.literal ['a']), .literal ['a']])⟩ := by
    decide +kernel
  have right : Pattern.compile "a?b" = .ok ⟨"a?b", .ofExpr (.concat
      [.repetition 0 (some 1) true (.literal ['a']), .literal ['b']])⟩ := by
    decide +kernel
  have both : Pattern.compile "(?:a?a)|(?:a?b)" = .ok ⟨"(?:a?a)|(?:a?b)", .ofExpr (.concat
      [.repetition 0 (some 1) true (.literal ['a']),
        .set .chars ⟨[⟨'a'.toNat, 'b'.toNat⟩]⟩])⟩ := by
    decide +kernel
  exact ⟨_, _, _, left, right, both, by decide +kernel, by decide +kernel, rfl, rfl⟩

end Peg
