import Peg.Proofs.Items

/-!
# Groups of parsers

Sequences may be items of sequences, and choices items of choices. However the
parsers in a row are put into groups, a nested choice does what all of them do at
once. So does a nested sequence, up to the nesting of its values, unless a group
inside it stops before the place where it is run. The flat sequence may go on from
there, but of a group it is asserted that it does not go back.

## Main definitions

* `Grouping`: parsers in groups, none of which is empty.
* `Grouping.parser`, `Grouping.leaves`: the nested parser, and the parsers in a row.
* `Grouping.balanced`: the groups of a balanced tree of pairs.
* `Grouping.flatten`: the values of the leaves, taken out of a nested value.
* `Grouping.Retreats`: among groups in a row, or inside them, one goes back.

## Main results

* `Step.row_append`: steps in two rows are the rows one after the other.
* `Step.firstOf_append`: a choice within a choice may be dissolved.
* `Grouping.name_nested`: a nested parser is named after its leaves.
* `Grouping.runAt_sequence_node`, `Grouping.runAt_of_retreats_members`: a nested sequence
  does what the flat one does, or breaks down where a group goes back.
* `Grouping.runAt_alternate_node`: a nested choice does what the flat one does.
-/

namespace Peg

/-! ### Steps in rows -/

namespace Step

variable {α : Type}

/-- A row of values put before the values of a success, which now starts at `start`. -/
def prependAll (values : List α) (start : Nat) : Outcome (List α) → Outcome (List α)
  | .success ⟨more, _, stop⟩ => .success ⟨values ++ more, start, stop⟩
  | other => other

theorem prepend_prependAll (value : α) (values : List α) (start middle : Nat)
    (outcome : Outcome (List α)) :
    prepend value start (prependAll values middle outcome) =
      prependAll (value :: values) start outcome := by
  cases outcome <;> rfl

/-- Every row of steps starts where it is run, and has a value for each step. -/
theorem start_of_row {steps : List (Step α)} {start calls : Nat} {result : Success (List α)}
    (h : row steps start = some ⟨.success result, calls⟩) :
    result.start = start ∧ result.value.length = steps.length := by
  induction steps generalizing start calls result with
  | nil =>
    cases h
    exact ⟨rfl, rfl⟩
  | cons step steps ih =>
    obtain ⟨⟨first, callsFirst⟩, head, next⟩ := Option.bind_eq_some_iff.1 h
    cases first with
    | success first =>
      rw [row_cons_success head] at h
      obtain ⟨⟨tail, callsTail⟩, later, same⟩ := Option.map_eq_some_iff.1 h
      cases tail <;> cases same
      exact ⟨rfl, congrArg (· + 1) (ih later).2⟩
    | failure reason => cases next
    | fault cause => cases next

/-- Two rows of steps are run one after the other. -/
theorem row_append (first second : List (Step α)) (start : Nat) :
    row (first ++ second) start =
      (row first start).bind fun reply => reply.andThen fun head =>
        (row second head.stop).map fun tail =>
          { tail with outcome := prependAll head.value start tail.outcome } := by
  induction first generalizing start with
  | nil =>
    -- What the second row gives starts where the empty row has stopped, which is here.
    cases later : row second start with
    | none => simp [row, done, Reply.andThen, later]
    | some reply =>
      obtain ⟨outcome, calls⟩ := reply
      cases outcome with
      | success result =>
        obtain ⟨rfl, -⟩ := start_of_row later
        simp [row, done, Reply.andThen, later, prependAll, Reply.after]
      | failure reason => simp [row, done, Reply.andThen, later, prependAll, Reply.after]
      | fault cause => simp [row, done, Reply.andThen, later, prependAll, Reply.after]
  | cons step first ih =>
    cases head : step start with
    | none => simp [row, head]
    | some reply =>
      obtain ⟨outcome, calls⟩ := reply
      cases outcome with
      | failure reason =>
        rw [List.cons_append, row_cons_failure head, row_cons_failure head]
        rfl
      | fault cause =>
        rw [List.cons_append, row_cons_fault head, row_cons_fault head]
        rfl
      | success result =>
        rw [List.cons_append, row_cons_success head, row_cons_success head, ih]
        cases row first result.stop with
        | none => rfl
        | some reply =>
          obtain ⟨outcome, callsMiddle⟩ := reply
          cases outcome with
          | failure reason => rfl
          | fault cause => rfl
          | success middle =>
            obtain ⟨values, origin, stop⟩ := middle
            simp only [Option.bind_some, Option.map_some, Reply.andThen, prepend_success]
            cases row second stop with
            | none => rfl
            | some tail => simp [Reply.after, prepend_prependAll, Nat.add_assoc]

theorem firstOf_cons_none {name : String} {step : Step α} {steps : List (Step α)} {start : Nat}
    (h : step start = none) : firstOf name (step :: steps) start = none := by
  simp [firstOf, h]

/-- A choice looks at what comes after its first step at the same place. -/
theorem firstOf_cons_congr {name : String} {steps steps' : List (Step α)} (step : Step α)
    {start : Nat} (h : firstOf name steps start = firstOf name steps' start) :
    firstOf name (step :: steps) start = firstOf name (step :: steps') start := by
  simp only [firstOf, h]

/-- A choice within a choice may be dissolved: how it names its failure is lost anyway. -/
theorem firstOf_append {name : String} (inner : String) (first second : List (Step α))
    (start : Nat) :
    firstOf name (first ++ second) start = firstOf name (firstOf inner first :: second) start := by
  induction first with
  | nil =>
    have fails : (firstOf inner [] : Step α) start =
        some ⟨.failure (.expected inner start), 0⟩ := rfl
    rw [List.nil_append, firstOf_cons_failure fails]
    cases firstOf name second start with
    | none => rfl
    | some reply => simp [Reply.after]
  | cons step first ih =>
    cases head : step start with
    | none =>
      rw [List.cons_append, firstOf_cons_none head, firstOf_cons_none (firstOf_cons_none head)]
    | some reply =>
      obtain ⟨outcome, calls⟩ := reply
      cases outcome with
      | success result =>
        rw [List.cons_append, firstOf_cons_success head,
          firstOf_cons_success (firstOf_cons_success head)]
      | fault cause =>
        rw [List.cons_append, firstOf_cons_fault head, firstOf_cons_fault (firstOf_cons_fault head)]
      | failure reason =>
        -- Both go on with the rest of the inner choice, after the same references.
        rw [List.cons_append, firstOf_cons_failure head, ih]
        have whole : firstOf inner (step :: first) start =
            (firstOf inner first start).map (Reply.after calls) := firstOf_cons_failure head
        cases rest : firstOf inner first start with
        | none =>
          rw [rest] at whole
          rw [firstOf_cons_none rest, firstOf_cons_none whole]
          rfl
        | some reply =>
          obtain ⟨outcome, callsRest⟩ := reply
          rw [rest] at whole
          cases outcome with
          | success result => rw [firstOf_cons_success rest, firstOf_cons_success whole]; rfl
          | fault cause => rw [firstOf_cons_fault rest, firstOf_cons_fault whole]; rfl
          | failure reason =>
            rw [firstOf_cons_failure rest, firstOf_cons_failure whole]
            cases firstOf name second start with
            | none => rfl
            | some reply => simp [Reply.after, Nat.add_assoc]

end Step

/-! ### Parsers in groups -/

/-- Parsers in groups. No group is empty. -/
inductive Grouping where
  | leaf (item : Parser)
  | node (first : Grouping) (rest : List Grouping)

namespace Grouping

variable {make : List Parser → Parser}

mutual

/-- The nested parser, with `make` put around every group. -/
def parser (make : List Parser → Parser) : Grouping → Parser
  | .leaf item => item
  | .node first rest => make (first.parser make :: parsers make rest)

/-- The nested parsers of several groups. -/
def parsers (make : List Parser → Parser) : List Grouping → List Parser
  | [] => []
  | tree :: trees => tree.parser make :: parsers make trees

end

mutual

/-- The parsers in a row. -/
def leaves : Grouping → List Parser
  | .leaf item => [item]
  | .node first rest => first.leaves ++ leavesAll rest

/-- The parsers of several groups in a row. -/
def leavesAll : List Grouping → List Parser
  | [] => []
  | tree :: trees => tree.leaves ++ leavesAll trees

end

mutual

/-- The values of the leaves in a row, given the nested value. What is no list with
a value for each member of the group is left as it is. -/
def flatten : Grouping → Value → List Value
  | .leaf _, value => [value]
  | .node first rest, .list (value :: values) =>
    if values.length = rest.length then first.flatten value ++ flattenAll rest values
    else [.list (value :: values)]
  | .node _ _, other => [other]

/-- The values of the leaves of several groups in a row. -/
def flattenAll : List Grouping → List Value → List Value
  | tree :: trees, value :: values => tree.flatten value ++ flattenAll trees values
  | _, _ => []

end

theorem length_parsers (trees : List Grouping) :
    (parsers make trees).length = trees.length := by
  induction trees with
  | nil => rfl
  | cons tree trees ih => simp [parsers, ih]

/-- The value of a group with a value for each member is taken apart member by member. -/
theorem flatten_node {first : Grouping} {rest : List Grouping} {values : List Value}
    (count : values.length = (parsers make (first :: rest)).length) :
    (node first rest).flatten (.list values) = flattenAll (first :: rest) values := by
  match values, count with
  | value :: values, count =>
    rw [parsers, List.length_cons, List.length_cons, length_parsers, Nat.add_right_cancel_iff]
      at count
    rw [flatten, if_pos count, flattenAll]

/-- The groups of a balanced tree of pairs, with `none` for no parsers at all. -/
def balanced (none : Parser) (items : List Parser) : Grouping :=
  Parser.halved (fun first second => .node first [second]) (.leaf none) (items.map .leaf)

theorem leaves_ne_nil (tree : Grouping) : tree.leaves ≠ [] := by
  match tree with
  | .leaf item => simp [leaves]
  | .node first rest => simp [leaves, leaves_ne_nil first]

theorem leavesAll_append (trees trees' : List Grouping) :
    leavesAll (trees ++ trees') = leavesAll trees ++ leavesAll trees' := by
  induction trees with
  | nil => rfl
  | cons tree trees ih => simp [leavesAll, ih]

theorem leavesAll_map_leaf (items : List Parser) : leavesAll (items.map .leaf) = items := by
  induction items with
  | nil => rfl
  | cons item items ih => simp [leavesAll, leaves, ih]

/-- The leaves of a balanced tree are the parsers that it was made of. -/
theorem leaves_balanced {items : List Parser} (nonempty : items ≠ []) (none : Parser) :
    (balanced none items).leaves = items := by
  have some : items.map leaf ≠ [] := by simpa using nonempty
  have row : (balanced none items).leaves = leavesAll (items.map leaf) := by
    refine Parser.halved_induction (motive := fun trees tree => tree.leaves = leavesAll trees)
      ?_ ?_ some
    · intro tree
      rw [leavesAll, leavesAll, List.append_nil]
    · intro before after first second _ _ _ left right
      rw [leaves, leavesAll, leavesAll, List.append_nil, leavesAll_append, left, right]
  rw [row, leavesAll_map_leaf]

/-- The nested parser of a balanced tree is the tree of pairs. -/
theorem parser_balanced (make : List Parser → Parser) (none : Parser) (items : List Parser) :
    (balanced none items).parser make =
      Parser.halved (fun first second => make [first, second]) none items := by
  have same : (balanced none items).parser make =
      Parser.halved (fun first second => make [first, second]) none
        ((items.map leaf).map (parser make)) :=
    Parser.map_halved (parser make) rfl fun _ _ => rfl
  rw [same, List.map_map]
  exact congrArg _ (List.map_id items)

variable {rules : Rules} {input : String}

/-! ### Names -/

section Names

variable {separator : String}

/-- A joined text among texts that are joined may be dissolved. -/
theorem intercalate_dissolve (before after : List String) {inner : List String}
    (nonempty : inner ≠ []) :
    separator.intercalate (before ++ separator.intercalate inner :: after) =
      separator.intercalate (before ++ inner ++ after) := by
  have dissolved : separator.intercalate (separator.intercalate inner :: after) =
      separator.intercalate (inner ++ after) := by
    by_cases last : after = []
    · subst last
      rw [String.intercalate_singleton, List.append_nil]
    · rw [String.intercalate_cons_of_ne_nil last, String.intercalate_append_of_ne_nil nonempty last]
  by_cases first : before = []
  · subst first
    exact dissolved
  · rw [String.intercalate_append_of_ne_nil first (List.cons_ne_nil _ _), dissolved,
      List.append_assoc, String.intercalate_append_of_ne_nil first (by simp [nonempty])]

mutual

/-- A nested parser is named after its leaves. -/
theorem name_nested
    (named : ∀ items, (make items).name = separator.intercalate (items.map Parser.name))
    (tree : Grouping) :
    (tree.parser make).name = separator.intercalate (tree.leaves.map Parser.name) := by
  match tree with
  | .leaf item => simp [parser, leaves]
  | .node first rest =>
    have nonempty : first.leaves.map Parser.name ≠ [] := by simp [leaves_ne_nil]
    have all := intercalate_parsers named rest [(first.parser make).name]
    rw [parser, named, List.map_cons, leaves, List.map_append, ← List.singleton_append, all,
      name_nested named first]
    exact intercalate_dissolve [] _ nonempty

/-- The same for groups that are named together, with other names before them. -/
theorem intercalate_parsers
    (named : ∀ items, (make items).name = separator.intercalate (items.map Parser.name))
    (trees : List Grouping) (before : List String) :
    separator.intercalate (before ++ (parsers make trees).map Parser.name) =
      separator.intercalate (before ++ (leavesAll trees).map Parser.name) := by
  match trees with
  | [] => rfl
  | tree :: trees =>
    have nonempty : tree.leaves.map Parser.name ≠ [] := by simp [leaves_ne_nil]
    rw [parsers, List.map_cons, name_nested named tree, intercalate_dissolve before _ nonempty,
      intercalate_parsers named trees, leavesAll, List.map_append, List.append_assoc]

end

end Names

end Grouping

/-! ### What groups do -/

/-- The reply of a parser that was run at `start`, with several values in place of
one, and the range from there on. -/
def Reply.spread (spread : Value → List Value) (start : Nat) (reply : Reply Value) :
    Reply (List Value) :=
  match reply.outcome with
  | .success result => ⟨.success ⟨spread result.value, start, result.stop⟩, reply.calls⟩
  | .failure reason => ⟨.failure reason, reply.calls⟩
  | .fault cause => ⟨.fault cause, reply.calls⟩

namespace Grouping

/-- Of some groups that are run one after another, one stops before the place where it
is run, or a group inside one of them does. The places are those to which the leaves lead,
each where the one before it stopped. -/
inductive Retreats (rules : Rules) (input : String) : List Grouping → Nat → Prop
  | back {first : Grouping} {rest trees : List Grouping} {start stop calls : Nat}
      {values : List Value}
      (chain : Chain rules input (node first rest).leaves start values stop calls)
      (back : stop < start) : Retreats rules input (node first rest :: trees) start
  | inside {first : Grouping} {rest trees : List Grouping} {start : Nat}
      (inner : Retreats rules input (first :: rest) start) :
      Retreats rules input (node first rest :: trees) start
  | later {tree : Grouping} {trees : List Grouping} {start stop calls : Nat}
      {values : List Value} (chain : Chain rules input tree.leaves start values stop calls)
      (rest : Retreats rules input trees stop) : Retreats rules input (tree :: trees) start

/-- The members of the outermost group. -/
def members : Grouping → List Grouping
  | .leaf _ => []
  | .node first rest => first :: rest

variable {rules : Rules} {input : String} {tree : Grouping} {trees : List Grouping} {start : Nat}

theorem not_retreats_nil : ¬ Retreats rules input [] start := nofun

/-- What goes back among the groups does so among the first ones, or behind the first. -/
theorem retreats_cons_iff :
    Retreats rules input (tree :: trees) start ↔
      Retreats rules input [tree] start ∨
        ∃ values stop calls, Chain rules input tree.leaves start values stop calls ∧
          Retreats rules input trees stop := by
  constructor
  · intro h
    cases h with
    | back chain back => exact .inl (.back chain back)
    | inside inner => exact .inl (.inside inner)
    | later chain rest => exact .inr ⟨_, _, _, chain, rest⟩
  · rintro (h | ⟨values, stop, calls, chain, rest⟩)
    · cases h with
      | back chain back => exact .back chain back
      | inside inner => exact .inside inner
      | later _ rest => exact absurd rest not_retreats_nil
    · exact .later chain rest

/-- Where none of some groups goes back, neither does the first, nor one behind it. -/
theorem not_retreats_cons (h : ¬ Retreats rules input (tree :: trees) start) :
    ¬ Retreats rules input [tree] start ∧
      ∀ values stop calls, Chain rules input tree.leaves start values stop calls →
        ¬ Retreats rules input trees stop := by
  obtain ⟨ahead, behind⟩ := not_or.1 (mt retreats_cons_iff.2 h)
  exact ⟨ahead, fun values stop calls chain rest => behind ⟨values, stop, calls, chain, rest⟩⟩

/-- A single parser is no group. -/
theorem not_retreats_leaf {item : Parser} : ¬ Retreats rules input [leaf item] start := by
  intro h
  cases h with
  | later _ rest => exact not_retreats_nil rest

theorem not_retreats_leaves {items : List Parser} :
    ¬ Retreats rules input (items.map leaf) start := by
  induction items generalizing start with
  | nil => exact not_retreats_nil
  | cons item items ih =>
    rw [List.map_cons, retreats_cons_iff]
    rintro (h | ⟨_, _, _, _, rest⟩)
    · exact not_retreats_leaf h
    · exact ih rest

/-- No group goes back if none of its leaves ever does. -/
theorem not_retreats_of_forward
    (forward : ∀ item ∈ leavesAll trees, item.IsForward rules input) :
    ¬ Retreats rules input trees start := by
  intro h
  induction h with
  | back chain back =>
    rw [leavesAll, List.forall_mem_append] at forward
    exact absurd back (Nat.not_lt_of_le (chain.le_of_forward forward.1))
  | inside _ ih =>
    rw [leavesAll, List.forall_mem_append] at forward
    exact ih forward.1
  | later _ _ ih =>
    rw [leavesAll, List.forall_mem_append] at forward
    exact ih forward.2

/-- The steps of the leaves of a group and of more groups after it are run one after
the other, if the steps of each are. -/
theorem row_flatten_cons
    (head : ((tree.parser .sequence).runAt rules input start).map
        (Reply.spread tree.flatten start) =
      Step.row (tree.leaves.map fun item => item.runAt rules input) start)
    (tail : ∀ values stop calls, Chain rules input tree.leaves start values stop calls →
      (Step.row ((parsers .sequence trees).map fun item => item.runAt rules input) stop).map
          (Reply.map fun values => .ok (flattenAll trees values)) =
        Step.row ((leavesAll trees).map fun item => item.runAt rules input) stop) :
    (Step.row ((parsers .sequence (tree :: trees)).map fun item =>
        item.runAt rules input) start).map
          (Reply.map fun values => .ok (flattenAll (tree :: trees) values)) =
      Step.row ((leavesAll (tree :: trees)).map fun item => item.runAt rules input) start := by
  rw [leavesAll, List.map_append, Step.row_append, ← head, parsers, List.map_cons]
  cases first : (tree.parser .sequence).runAt rules input start with
  | none => simp [Step.row, first]
  | some reply =>
    obtain ⟨outcome, calls⟩ := reply
    cases outcome with
    | failure reason => rw [Step.row_cons_failure first]; rfl
    | fault cause => rw [Step.row_cons_fault first]; rfl
    | success result =>
      -- Both sides now run the same groups after the first one. They differ in when the
      -- values are taken out of their lists.
      rw [first] at head
      obtain ⟨-, chain⟩ := row_runAt_eq_success_iff.1 head.symm
      rw [Step.row_cons_success first]
      simp only [Option.map_some, Option.bind_some, Reply.spread, Reply.andThen]
      rw [← tail _ _ _ chain]
      cases Step.row ((parsers .sequence trees).map fun item => item.runAt rules input)
          result.stop with
      | none => rfl
      | some reply =>
        obtain ⟨outcome, callsRest⟩ := reply
        cases outcome <;> rfl

mutual

/-- A nested sequence runs its leaves one after another, as long as no group goes back. -/
theorem spread_runAt (tree : Grouping) (start : Nat) (h : ¬ Retreats rules input [tree] start) :
    ((tree.parser .sequence).runAt rules input start).map (Reply.spread tree.flatten start) =
      Step.row (tree.leaves.map fun item => item.runAt rules input) start := by
  match tree with
  | .leaf item =>
    rw [parser, leaves, List.map_singleton]
    cases head : item.runAt rules input start with
    | none => simp [Step.row, head]
    | some reply =>
      obtain ⟨outcome, calls⟩ := reply
      cases outcome with
      | failure reason => rw [Step.row_cons_failure head]; rfl
      | fault cause => rw [Step.row_cons_fault head]; rfl
      | success result =>
        rw [Step.row_cons_success head]
        rfl
  | .node first rest =>
    obtain ⟨ahead, behind⟩ := not_retreats_cons fun inner => h (.inside inner)
    have all := row_flatten_cons (spread_runAt first start ahead) fun values stop calls chain =>
      map_row_parsers rest stop (behind values stop calls chain)
    rw [leaves, ← leavesAll, ← all, parser, ← parsers, Parser.runAt_sequence, Step.inOrder]
    cases run : Step.row ((parsers .sequence (first :: rest)).map fun item =>
        item.runAt rules input) start with
    | none => rfl
    | some reply =>
      obtain ⟨outcome, calls⟩ := reply
      cases outcome with
      | failure reason => rfl
      | fault cause => rfl
      | success result =>
        obtain ⟨begins, count⟩ := Step.start_of_row run
        rw [List.length_map] at count
        obtain ⟨values, origin, stop⟩ := result
        obtain rfl : origin = start := begins
        -- The group does not stop before its start, so nothing is wrong with its range.
        have ordered : origin ≤ stop := by
          rw [run] at all
          obtain ⟨-, chain⟩ := row_runAt_eq_success_iff.1 all.symm
          exact Nat.le_of_not_lt fun back => h (.back chain back)
        simp [Reply.asserted_of_le ordered, Reply.spread, Reply.map,
          Outcome.map, flatten_node count]

/-- The same for groups that are run one after another. -/
theorem map_row_parsers (trees : List Grouping) (start : Nat)
    (h : ¬ Retreats rules input trees start) :
    (Step.row ((parsers .sequence trees).map fun item => item.runAt rules input) start).map
        (Reply.map fun values => .ok (flattenAll trees values)) =
      Step.row ((leavesAll trees).map fun item => item.runAt rules input) start := by
  match trees with
  | [] => rfl
  | tree :: trees =>
    obtain ⟨ahead, behind⟩ := not_retreats_cons h
    exact row_flatten_cons (spread_runAt tree start ahead) fun values stop calls chain =>
      map_row_parsers trees stop (behind values stop calls chain)

end

/-- What goes back among some groups breaks them down, if it does so in the first one and
in those behind it. -/
theorem row_cons_of_retreats
    (head : Retreats rules input [tree] start → ∃ calls,
      (tree.parser .sequence).runAt rules input start = some ⟨.fault .reversedRange, calls⟩)
    (tail : ∀ stop, Retreats rules input trees stop → ∃ calls,
      Step.row ((parsers .sequence trees).map fun item => item.runAt rules input) stop =
        some ⟨.fault .reversedRange, calls⟩)
    (h : Retreats rules input (tree :: trees) start) :
    ∃ calls, Step.row ((parsers .sequence (tree :: trees)).map fun item =>
      item.runAt rules input) start = some ⟨.fault .reversedRange, calls⟩ := by
  rw [parsers, List.map_cons]
  by_cases ahead : Retreats rules input [tree] start
  · obtain ⟨calls, broken⟩ := head ahead
    exact ⟨calls, Step.row_cons_fault broken⟩
  · obtain ⟨values, stop, calls, chain, rest⟩ := (retreats_cons_iff.1 h).resolve_left ahead
    have same := (spread_runAt tree start ahead).trans chain.steps_eq
    obtain ⟨⟨⟨value, origin, stop'⟩ | _ | _, calls⟩, run, spread⟩ := Option.map_eq_some_iff.1 same
    · cases spread
      obtain ⟨callsRest, broken⟩ := tail _ rest
      exact ⟨calls + callsRest, by rw [Step.row_cons_success run, broken]; rfl⟩
    · cases spread
    · cases spread

mutual

/-- A nested sequence breaks down where a group goes back, be it the outermost one. -/
theorem runAt_of_retreats (tree : Grouping) (start : Nat) (h : Retreats rules input [tree] start) :
    ∃ calls, (tree.parser .sequence).runAt rules input start =
      some ⟨.fault .reversedRange, calls⟩ := by
  match tree with
  | .leaf item => exact absurd h not_retreats_leaf
  | .node first rest =>
    rw [parser, ← parsers, Parser.runAt_sequence, Step.inOrder]
    by_cases inner : Retreats rules input (first :: rest) start
    · obtain ⟨calls, broken⟩ := row_cons_of_retreats (runAt_of_retreats first start)
        (row_of_retreats rest) inner
      exact ⟨calls, by rw [broken]; rfl⟩
    · cases h with
      | inside inside => exact absurd inside inner
      | later _ rest => exact absurd rest not_retreats_nil
      | back chain back =>
        -- The members go back as a whole, to where their leaves lead.
        have same := (map_row_parsers (first :: rest) start inner).trans chain.steps_eq
        obtain ⟨⟨⟨values, origin, stop⟩ | _ | _, calls⟩, run, listed⟩ :=
          Option.map_eq_some_iff.1 same
        · cases listed
          exact ⟨calls, by rw [run, Option.map_some, Reply.asserted_of_lt back]; rfl⟩
        · cases listed
        · cases listed

/-- The same for groups that are run one after another. -/
theorem row_of_retreats (trees : List Grouping) (start : Nat)
    (h : Retreats rules input trees start) :
    ∃ calls, Step.row ((parsers .sequence trees).map fun item => item.runAt rules input) start =
      some ⟨.fault .reversedRange, calls⟩ := by
  match trees with
  | [] => exact absurd h not_retreats_nil
  | tree :: trees =>
    exact row_cons_of_retreats (runAt_of_retreats tree start) (row_of_retreats trees) h

end

mutual

/-- A nested choice tries its leaves in order, among whatever is tried after it. -/
theorem firstOf_leaves (tree : Grouping) (name : String) (more : List (Step Value))
    (start : Nat) :
    Step.firstOf name ((tree.leaves.map fun item => item.runAt rules input) ++ more) start =
      Step.firstOf name ((tree.parser .alternate).runAt rules input :: more) start := by
  match tree with
  | .leaf item => rfl
  | .node first rest =>
    have inner : (parser .alternate (.node first rest)).runAt rules input =
        Step.firstOf (parser .alternate (.node first rest)).name
          ((parsers .alternate (first :: rest)).map fun item => item.runAt rules input) :=
      funext fun _ => Parser.runAt_alternate _
    -- The members of the group are put in place of their leaves, first to last. Then
    -- the group is closed, which changes nothing but the words of its failure.
    calc Step.firstOf name (((node first rest).leaves.map fun item =>
            item.runAt rules input) ++ more) start
        = Step.firstOf name ((first.leaves.map fun item => item.runAt rules input) ++
            (((leavesAll rest).map fun item => item.runAt rules input) ++ more)) start := by
          rw [leaves, List.map_append, List.append_assoc]
      _ = Step.firstOf name (((parsers .alternate (first :: rest)).map fun item =>
            item.runAt rules input) ++ more) start := by
          rw [firstOf_leaves first]
          exact Step.firstOf_cons_congr _ (firstOf_leavesAll rest name more start)
      _ = Step.firstOf name ((parser .alternate (.node first rest)).runAt rules input :: more)
            start := by
          rw [inner]
          exact Step.firstOf_append _ _ _ start

/-- The same for groups that are tried one after another. -/
theorem firstOf_leavesAll (trees : List Grouping) (name : String) (more : List (Step Value))
    (start : Nat) :
    Step.firstOf name (((leavesAll trees).map fun item => item.runAt rules input) ++ more) start =
      Step.firstOf name (((parsers .alternate trees).map fun item =>
        item.runAt rules input) ++ more) start := by
  match trees with
  | [] => rfl
  | tree :: trees =>
    rw [leavesAll, List.map_append, List.append_assoc, firstOf_leaves tree]
    exact Step.firstOf_cons_congr _ (firstOf_leavesAll trees name more start)

end

/-- Groups of sequences are the flat sequence, once the values are in a row and as long as
no inner group goes back. -/
theorem runAt_sequence_node {first : Grouping} {rest : List Grouping} {start : Nat}
    (h : ¬ Retreats rules input (first :: rest) start) :
    ((parser .sequence (.node first rest)).runAt rules input start).map
        (Reply.map fun value => .ok (.list ((node first rest).flatten value))) =
      (Parser.sequence (node first rest).leaves).runAt rules input start := by
  rw [leaves, ← leavesAll, Parser.runAt_sequence, Step.inOrder, ← map_row_parsers _ start h, parser,
    ← parsers, Parser.runAt_sequence, Step.inOrder]
  cases run : Step.row ((parsers .sequence (first :: rest)).map fun item =>
      item.runAt rules input) start with
  | none => rfl
  | some reply =>
    obtain ⟨⟨values, origin, stop⟩ | reason | cause, calls⟩ := reply
    · obtain ⟨-, count⟩ := Step.start_of_row run
      rw [List.length_map] at count
      -- What is asserted of the range does not depend on the values.
      rcases Nat.lt_or_ge stop origin with back | ordered
      · simp [Reply.asserted, Reply.map, Outcome.map, Outcome.asserted_of_lt back]
      · simp [Reply.asserted, Reply.map, Outcome.map, Outcome.asserted_of_le ordered,
          flatten_node count]
    · rfl
    · rfl

/-- Groups of sequences break down where an inner group goes back. -/
theorem runAt_of_retreats_members {tree : Grouping} {start : Nat}
    (h : Retreats rules input tree.members start) :
    ∃ calls, (tree.parser .sequence).runAt rules input start =
      some ⟨.fault .reversedRange, calls⟩ := by
  cases tree with
  | leaf item => exact absurd h not_retreats_nil
  | node first rest => exact runAt_of_retreats _ start (.inside h)

/-- Groups of choices are the flat choice. -/
theorem runAt_alternate_node (first : Grouping) (rest : List Grouping) (start : Nat) :
    (parser .alternate (.node first rest)).runAt rules input start =
      (Parser.alternate (node first rest).leaves).runAt rules input start := by
  have named : (parser .alternate (.node first rest)).name =
      (Parser.alternate (node first rest).leaves).name := by
    rw [name_nested Parser.name_alternate, Parser.name_alternate]
  calc (parser .alternate (.node first rest)).runAt rules input start
      = Step.firstOf (parser .alternate (.node first rest)).name
          ((parsers .alternate (first :: rest)).map fun item => item.runAt rules input) start :=
        Parser.runAt_alternate _
    _ = Step.firstOf (Parser.alternate (node first rest).leaves).name
          ((node first rest).leaves.map fun item => item.runAt rules input) start := by
        rw [named, leaves, ← leavesAll]
        simpa only [List.append_nil] using (firstOf_leavesAll (first :: rest) _ [] start).symm
    _ = (Parser.alternate (node first rest).leaves).runAt rules input start :=
        (Parser.runAt_alternate _).symm

end Grouping

end Peg
