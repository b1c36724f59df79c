import Peg.Parser.Run

/-!
# Derivations

The ordered-choice rules say how the outcome of a parser follows from the
outcomes of its parts, and how many references are followed on the way. They
are stated without regard to how a run is computed; a run gives exactly what
they derive.

The rest of a choice is a choice, and what follows one round of a repetition is the
same repetition. The rest of a sequence is no sequence: it may stop before the place
where it starts, as long as the whole does not. So what a sequence does is told by the
row of its items.

## Main definitions

* `Row`, `CutShort`: parsers one after another, to the end or to one that does not succeed.
* `Derives`: the ordered-choice rules.

## Main results

* `Derives.induct`: the induction on derivations, with the rows that they contain.
* `Derives.isOrdered`: no success stops before the place where it starts.
* `runAt_eq_some_iff_derives`: a run gives a reply exactly if the rules derive it.
* `runAt_eq_none_iff`: a run gives no reply exactly if the rules derive none.
* `Derives.unique`: the rules derive one reply at most.
-/

namespace Peg

namespace Outcome

variable {α : Type}

/-- A success is an outcome to go on from. -/
def IsSuccess : Outcome α → Prop
  | .success _ => True
  | .failure _ | .fault _ => False

/-- A failure is an outcome that a choice goes on from. -/
def IsFailure : Outcome α → Prop
  | .failure _ => True
  | .success _ | .fault _ => False

@[simp] theorem isSuccess_success (result : Success α) : (success result).IsSuccess := trivial

@[simp] theorem not_isSuccess_failure (reason : Failure) :
    ¬ (failure reason : Outcome α).IsSuccess := id

@[simp] theorem not_isSuccess_fault (cause : Fault) :
    ¬ (fault cause : Outcome α).IsSuccess := id

@[simp] theorem isFailure_failure (reason : Failure) :
    (failure reason : Outcome α).IsFailure := trivial

@[simp] theorem not_isFailure_success (result : Success α) : ¬ (success result).IsFailure := id

@[simp] theorem not_isFailure_fault (cause : Fault) :
    ¬ (fault cause : Outcome α).IsFailure := id

theorem isOrdered_of_not_isSuccess {outcome : Outcome α} (stops : ¬ outcome.IsSuccess) :
    outcome.IsOrdered := by
  cases outcome with
  | success result => exact absurd (isSuccess_success result) stops
  | failure reason => trivial
  | fault cause => trivial

/-- An outcome whose failure, if it is one, gives way to another. -/
def replaceFailure (reason : Failure) : Outcome α → Outcome α
  | .failure _ => .failure reason
  | other => other

theorem replaceFailure_of_not_isFailure {outcome : Outcome α} {reason : Failure}
    (settles : ¬ outcome.IsFailure) : outcome.replaceFailure reason = outcome := by
  cases outcome with
  | success result => rfl
  | failure reason => exact absurd (isFailure_failure reason) settles
  | fault cause => rfl

end Outcome

section Rows

/-- The parsers succeed one after another from `start` to `stop`, each where the one
before it stopped, with these values and that many references followed. How a parser
ends is told by `run`. -/
inductive Row (run : Parser → Nat → Outcome Value → Nat → Prop) :
    List Parser → Nat → List Value → Nat → Nat → Prop
  | nil {start : Nat} : Row run [] start [] start 0
  | cons {item : Parser} {items : List Parser} {start stop callsHead callsTail : Nat}
      {head : Success Value} {values : List Value}
      (first : run item start (.success head) callsHead)
      (rest : Row run items head.stop values stop callsTail) :
      Row run (item :: items) start (head.value :: values) stop (callsHead + callsTail)

/-- One of the parsers does not succeed at the place to which those before it have led,
and its outcome is that of them all. -/
inductive CutShort (run : Parser → Nat → Outcome Value → Nat → Prop) :
    List Parser → Nat → Outcome Value → Nat → Prop
  | here {item : Parser} {items : List Parser} {start calls : Nat} {outcome : Outcome Value}
      (first : run item start outcome calls) (stops : ¬ outcome.IsSuccess) :
      CutShort run (item :: items) start outcome calls
  | later {item : Parser} {items : List Parser} {start callsHead callsTail : Nat}
      {head : Success Value} {outcome : Outcome Value}
      (first : run item start (.success head) callsHead)
      (rest : CutShort run items head.stop outcome callsTail) :
      CutShort run (item :: items) start outcome (callsHead + callsTail)

variable {run run' : Parser → Nat → Outcome Value → Nat → Prop} {items : List Parser}
  {start stop calls : Nat} {values : List Value} {outcome : Outcome Value}

theorem Row.imp (h : ∀ {item start outcome calls}, run item start outcome calls →
      run' item start outcome calls) (row : Row run items start values stop calls) :
    Row run' items start values stop calls := by
  induction row with
  | nil => exact .nil
  | cons first _ ih => exact .cons (h first) ih

theorem CutShort.imp (h : ∀ {item start outcome calls}, run item start outcome calls →
      run' item start outcome calls) (cut : CutShort run items start outcome calls) :
    CutShort run' items start outcome calls := by
  induction cut with
  | here first stops => exact .here (h first) stops
  | later first _ ih => exact .later (h first) ih

theorem CutShort.not_isSuccess (cut : CutShort run items start outcome calls) :
    ¬ outcome.IsSuccess := by
  induction cut with
  | here _ stops => exact stops
  | later _ _ ih => exact ih

/-- An item that does not succeed cuts the row short, wherever those before it lead. -/
theorem Row.cutShort {item : Parser} {before : List Parser} {middle callsBefore : Nat}
    (h : Row run before start values middle callsBefore) (last : run item middle outcome calls)
    (stops : ¬ outcome.IsSuccess) (after : List Parser) :
    CutShort run (before ++ item :: after) start outcome (callsBefore + calls) := by
  induction h with
  | nil =>
    rw [Nat.zero_add]
    exact .here last stops
  | cons first _ ih =>
    rw [Nat.add_assoc]
    exact .later first (ih last)

/-- A row that is cut short is one up to the item that does not succeed. -/
theorem CutShort.exists_row (h : CutShort run items start outcome calls) :
    ∃ before item after values middle callsBefore callsLast, items = before ++ item :: after ∧
      Row run before start values middle callsBefore ∧ run item middle outcome callsLast ∧
        calls = callsBefore + callsLast := by
  induction h with
  | here first _ => exact ⟨[], _, _, [], _, 0, _, rfl, .nil, first, (Nat.zero_add _).symm⟩
  | @later item _ _ _ _ _ _ first _ ih =>
    obtain ⟨before, last, after, values, middle, callsBefore, callsLast, rfl, row, stop, rfl⟩ := ih
    exact ⟨item :: before, last, after, _, middle, _, callsLast, rfl, .cons first row, stop,
      (Nat.add_assoc _ _ _).symm⟩

end Rows

/-- The ordered-choice rules: from `start`, the parser has the outcome after
following that many references. -/
inductive Derives (rules : Rules) (input : String) :
    Parser → Nat → Outcome Value → Nat → Prop
  | literal_match {text : String} {start : Nat} {before after : List Char}
      (cut : input.toList = before ++ text.toList ++ after)
      (bytes : Text.size before = start) :
      Derives rules input (.literal text) start
        (.success ⟨.text text, start, start + text.utf8ByteSize⟩) 0
  | literal_mismatch {text : String} {start : Nat}
      (nowhere : ∀ before after, input.toList = before ++ text.toList ++ after →
        Text.size before ≠ start) :
      Derives rules input (.literal text) start (.failure ⟨"Expected: " ++ text, start⟩) 0
  | pattern_match {regex : Pattern} {start : Nat} {before found after : List Char}
      (cut : input.toList = before ++ found ++ after)
      (bytes : Text.size before = start)
      (stop : regex.program.matchEnd? before (found ++ after) start =
        some (start + Text.size found)) :
      Derives rules input (.pattern regex) start
        (.success ⟨.text (String.ofList found), start, start + Text.size found⟩) 0
  | pattern_mismatch {regex : Pattern} {start : Nat}
      (nowhere : ∀ before after, input.toList = before ++ after → Text.size before = start →
        regex.program.matchEnd? before after start = none) :
      Derives rules input (.pattern regex) start
        (.failure ⟨"Expected regexp: " ++ regex.expr, start⟩) 0
  | pure {start : Nat} :
      Derives rules input .pure start (.success ⟨.unit, start, start⟩) 0
  | finish_at {start : Nat} (last : start = input.utf8ByteSize) :
      Derives rules input .finish start (.success ⟨.unit, start, start⟩) 0
  | finish_before {start : Nat} (more : start ≠ input.utf8ByteSize) :
      Derives rules input .finish start (.failure ⟨"Expected end of input", start⟩) 0
  | function {name : String} {run : Function} {start : Nat} :
      Derives rules input (.function name run) start (run input start) 0
  | sequence_all {items : List Parser} {start stop calls : Nat} {values : List Value}
      (row : Row (Derives rules input) items start values stop calls)
      (ordered : start ≤ stop) :
      Derives rules input (.sequence items) start (.success ⟨.list values, start, stop⟩) calls
  /-- A row that ends before the place where it starts breaks the sequence down. -/
  | sequence_back {items : List Parser} {start stop calls : Nat} {values : List Value}
      (row : Row (Derives rules input) items start values stop calls) (back : stop < start) :
      Derives rules input (.sequence items) start (.fault .reversedRange) calls
  /-- The first item that does not succeed decides the sequence. -/
  | sequence_cut {items : List Parser} {start calls : Nat} {outcome : Outcome Value}
      (cut : CutShort (Derives rules input) items start outcome calls) :
      Derives rules input (.sequence items) start outcome calls
  | alternate_nil {start : Nat} :
      Derives rules input (.alternate []) start (.failure ⟨"Expected: ", start⟩) 0
  /-- The first alternative that does not fail decides the choice. -/
  | alternate_first {item : Parser} {items : List Parser} {start calls : Nat}
      {outcome : Outcome Value} (first : Derives rules input item start outcome calls)
      (settles : ¬ outcome.IsFailure) :
      Derives rules input (.alternate (item :: items)) start outcome calls
  | alternate_next {item : Parser} {items : List Parser} {start callsHead callsTail : Nat}
      {reason : Failure} {outcome : Outcome Value}
      (first : Derives rules input item start (.failure reason) callsHead)
      (rest : Derives rules input (.alternate items) start outcome callsTail)
      (settles : ¬ outcome.IsFailure) :
      Derives rules input (.alternate (item :: items)) start outcome (callsHead + callsTail)
  | alternate_none {item : Parser} {items : List Parser} {start callsHead callsTail : Nat}
      {reason reason' : Failure}
      (first : Derives rules input item start (.failure reason) callsHead)
      (rest : Derives rules input (.alternate items) start (.failure reason') callsTail) :
      Derives rules input (.alternate (item :: items)) start
        (.failure ⟨"Expected: " ++ (Parser.alternate (item :: items)).name, start⟩)
        (callsHead + callsTail)
  | many_done {item : Parser} {start calls : Nat} {reason : Failure}
      (first : Derives rules input item start (.failure reason) calls) :
      Derives rules input (.many item) start (.success ⟨.list [], start, start⟩) calls
  | many_next {item : Parser} {start callsHead callsTail : Nat} {head : Success Value}
      {values : List Value} {origin stop : Nat}
      (first : Derives rules input item start (.success head) callsHead)
      (forward : start < head.stop)
      (rest : Derives rules input (.many item) head.stop
        (.success ⟨.list values, origin, stop⟩) callsTail) :
      Derives rules input (.many item) start
        (.success ⟨.list (head.value :: values), start, stop⟩) (callsHead + callsTail)
  | many_fault {item : Parser} {start calls : Nat} {cause : Fault}
      (first : Derives rules input item start (.fault cause) calls) :
      Derives rules input (.many item) start (.fault cause) calls
  | many_later {item : Parser} {start callsHead callsTail : Nat} {head : Success Value}
      {cause : Fault}
      (first : Derives rules input item start (.success head) callsHead)
      (forward : start < head.stop)
      (rest : Derives rules input (.many item) head.stop (.fault cause) callsTail) :
      Derives rules input (.many item) start (.fault cause) (callsHead + callsTail)
  /-- A round that does not move forward breaks the repetition down. -/
  | many_stuck {item : Parser} {start calls : Nat} {head : Success Value}
      (first : Derives rules input item start (.success head) calls)
      (stuck : ¬ start < head.stop) :
      Derives rules input (.many item) start
        (.fault (.emptyRepetition item.name (Parser.many item).name start)) calls
  | capture_within {item : Parser} {start calls : Nat} {value : Value} {origin stop : Nat}
      (inner : Derives rules input item start (.success ⟨value, origin, stop⟩) calls)
      (within : origin ≤ stop ∧ stop ≤ input.utf8ByteSize) :
      Derives rules input (.capture item) start
        (.success ⟨.spanned value ⟨input, origin, stop⟩, origin, stop⟩) calls
  | capture_outside {item : Parser} {start calls : Nat} {result : Success Value}
      (inner : Derives rules input item start (.success result) calls)
      (outside : ¬ (result.start ≤ result.stop ∧ result.stop ≤ input.utf8ByteSize)) :
      Derives rules input (.capture item) start (.fault .spanOutOfRange) calls
  | capture_stop {item : Parser} {start calls : Nat} {outcome : Outcome Value}
      (inner : Derives rules input item start outcome calls) (stops : ¬ outcome.IsSuccess) :
      Derives rules input (.capture item) start outcome calls
  | map_value {item : Parser} {change : Value → Except Fault Value} {start calls : Nat}
      {value value' : Value} {origin stop : Nat}
      (inner : Derives rules input item start (.success ⟨value, origin, stop⟩) calls)
      (changed : change value = .ok value') :
      Derives rules input (.map item change) start (.success ⟨value', origin, stop⟩) calls
  | map_fault {item : Parser} {change : Value → Except Fault Value} {start calls : Nat}
      {result : Success Value} {cause : Fault}
      (inner : Derives rules input item start (.success result) calls)
      (broken : change result.value = .error cause) :
      Derives rules input (.map item change) start (.fault cause) calls
  | map_stop {item : Parser} {change : Value → Except Fault Value} {start calls : Nat}
      {outcome : Outcome Value}
      (inner : Derives rules input item start outcome calls) (stops : ¬ outcome.IsSuccess) :
      Derives rules input (.map item change) start outcome calls
  /-- Following a reference counts. -/
  | rule {name : String} {parser : Parser} {start calls : Nat} {outcome : Outcome Value}
      (found : rules.parser? name = some parser)
      (inner : Derives rules input parser start outcome calls) :
      Derives rules input (.rule name) start outcome (1 + calls)

section Induction

variable {rules : Rules} {input : String}

-- The type is that of the recursor, once it is settled what is shown of rows, and is not
-- written out again.
set_option linter.defProp false in
/-- Induction on derivations. Of the runs in the row of a sequence, what is to be shown
holds as of all other runs that a rule has before it. -/
@[induction_eliminator]
def Derives.induct
    {motive : ∀ parser start outcome calls,
      Derives rules input parser start outcome calls → Prop} :=
  fun literal_match literal_mismatch pattern_match pattern_mismatch pure finish_at finish_before
      function sequence_all sequence_back sequence_cut alternate_nil alternate_first
      alternate_next alternate_none many_done many_next many_fault many_later many_stuck
      capture_within capture_outside capture_stop map_value map_fault map_stop rule
      {parser start outcome calls} h =>
    @Derives.rec rules input motive
      (fun items start values stop calls _ =>
        Row (fun item start outcome calls => ∃ h, motive item start outcome calls h)
          items start values stop calls)
      (fun items start outcome calls _ =>
        CutShort (fun item start outcome calls => ∃ h, motive item start outcome calls h)
          items start outcome calls)
      literal_match literal_mismatch pattern_match pattern_mismatch pure finish_at finish_before
      function sequence_all sequence_back sequence_cut alternate_nil alternate_first
      alternate_next alternate_none many_done many_next many_fault many_later many_stuck
      capture_within capture_outside capture_stop map_value map_fault map_stop rule .nil
      (fun first _ holds rest => .cons ⟨first, holds⟩ rest)
      (fun first stops holds => .here ⟨first, holds⟩ stops)
      (fun first _ holds rest => .later ⟨first, holds⟩ rest) parser start outcome calls h

end Induction

/-! ### What sequences and repetitions cannot give -/

section Inversion

variable {rules : Rules} {input : String} {item : Parser} {items : List Parser}
  {start stop origin calls : Nat} {values : List Value} {result : Success Value}

/-- A sequence that succeeds has run a row, and starts where it was run. -/
theorem Derives.row_of_sequence
    (h : Derives rules input (.sequence items) start (.success result) calls) :
    ∃ values, result = ⟨.list values, start, result.stop⟩ ∧ start ≤ result.stop ∧
      Row (Derives rules input) items start values result.stop calls := by
  cases h with
  | sequence_all row ordered => exact ⟨_, rfl, ordered, row⟩
  | sequence_cut cut => exact absurd (Outcome.isSuccess_success result) cut.not_isSuccess

/-! A sequence may be told item by item where nothing goes back. -/

theorem Derives.sequence_nil :
    Derives rules input (.sequence []) start (.success ⟨.list [], start, start⟩) 0 :=
  .sequence_all .nil (Nat.le_refl _)

theorem Derives.sequence_next {head : Success Value} {callsHead : Nat}
    (first : Derives rules input item start (.success head) callsHead)
    (forward : start ≤ head.stop)
    (rest : Derives rules input (.sequence items) head.stop
      (.success ⟨.list values, origin, stop⟩) calls) :
    Derives rules input (.sequence (item :: items)) start
      (.success ⟨.list (head.value :: values), start, stop⟩) (callsHead + calls) := by
  obtain ⟨values, same, ordered, row⟩ := rest.row_of_sequence
  cases same
  exact .sequence_all (.cons first row) (Nat.le_trans forward ordered)

theorem Derives.sequence_stop {outcome : Outcome Value}
    (first : Derives rules input item start outcome calls) (stops : ¬ outcome.IsSuccess) :
    Derives rules input (.sequence (item :: items)) start outcome calls :=
  .sequence_cut (.here first stops)

theorem Derives.sequence_later {head : Success Value} {reason : Failure} {callsHead : Nat}
    (first : Derives rules input item start (.success head) callsHead)
    (rest : Derives rules input (.sequence items) head.stop (.failure reason) calls) :
    Derives rules input (.sequence (item :: items)) start (.failure reason)
      (callsHead + calls) := by
  cases rest with
  | sequence_cut cut => exact .sequence_cut (.later first cut)

theorem Derives.exists_list_of_sequence
    (h : Derives rules input (.sequence items) start (.success result) calls) :
    ∃ values, result.value = .list values := by
  obtain ⟨values, same, -⟩ := h.row_of_sequence
  exact ⟨values, congrArg Success.value same⟩

theorem Derives.exists_list_of_many
    (h : Derives rules input (.many item) start (.success result) calls) :
    ∃ values, result.value = .list values := by
  cases h <;> exact ⟨_, rfl⟩

/-- A repetition never fails. -/
theorem not_derives_many_failure {reason : Failure} :
    ¬ Derives rules input (.many item) start (.failure reason) calls := nofun

/-- A repetition starts where it is run. -/
theorem Derives.start_of_many
    (h : Derives rules input (.many item) start (.success result) calls) :
    result.start = start := by
  cases h <;> rfl

end Inversion

/-- No success stops before the place where it starts. -/
theorem Derives.isOrdered {rules : Rules} {input : String} {parser : Parser} {start calls : Nat}
    {outcome : Outcome Value} (h : Derives rules input parser start outcome calls) :
    outcome.IsOrdered := by
  induction h with
  | literal_match | pattern_match => exact Nat.le_add_right _ _
  | pure | finish_at | many_done => exact Nat.le_refl _
  | @function _ run start => exact run.ordered input start
  | sequence_all _ ordered => exact ordered
  | sequence_cut cut => exact Outcome.isOrdered_of_not_isSuccess cut.not_isSuccess
  | many_next _ forward rest _ ih =>
    have origin := rest.start_of_many
    exact Nat.le_trans (Nat.le_of_lt forward) (origin ▸ ih)
  | alternate_first _ _ ih | alternate_next _ _ _ _ ih | capture_within _ _ ih
  | capture_stop _ _ ih | map_value _ _ ih | map_stop _ _ ih | rule _ _ ih => exact ih
  | literal_mismatch | pattern_mismatch | finish_before | sequence_back | alternate_nil
  | alternate_none | many_fault | many_later | many_stuck | capture_outside | map_fault => trivial

/-! ### What a run gives is derived -/

section Soundness

variable {rules : Rules} {input : String}

/-- Every reply of a step is derived for a parser. -/
def Sound (rules : Rules) (input : String) (parser : Parser) (step : Step Value) : Prop :=
  ∀ start reply, step start = some reply →
    Derives rules input parser start reply.outcome reply.calls

variable {run : Parser → Step Value} {items : List Parser} {item : Parser}

/-- Steps in a row that succeed are parsers in a row. -/
theorem row_of_steps (h : ∀ item ∈ items, Sound rules input item (run item))
    {start calls : Nat} {result : Success (List Value)}
    (replied : Step.row (items.map run) start = some ⟨.success result, calls⟩) :
    result.start = start ∧
      Row (Derives rules input) items start result.value result.stop calls := by
  induction items generalizing start result calls with
  | nil =>
    cases replied
    exact ⟨rfl, .nil⟩
  | cons item items ih =>
    obtain ⟨first, rest⟩ := List.forall_mem_cons.1 h
    obtain ⟨⟨outcome, callsHead⟩, head, next⟩ := Option.bind_eq_some_iff.1 replied
    cases outcome with
    | success here =>
      obtain ⟨_, inner, same⟩ := Option.map_eq_some_iff.1 next
      obtain ⟨⟨outcome, callsTail⟩, later, rfl⟩ := Option.map_eq_some_iff.1 inner
      cases outcome with
      | success _ =>
        cases same
        exact ⟨rfl, .cons (first _ _ head) (ih rest later).2⟩
      | failure _ | fault _ => cases same
    | failure _ | fault _ => cases next

/-- Steps in a row that do not succeed are parsers in a row that is cut short. -/
theorem cutShort_of_steps (h : ∀ item ∈ items, Sound rules input item (run item))
    {start : Nat} {reply : Reply (List Value)}
    (replied : Step.row (items.map run) start = some reply) (stops : ¬ reply.outcome.IsSuccess) :
    CutShort (Derives rules input) items start reply.listed.outcome reply.calls := by
  induction items generalizing start reply with
  | nil =>
    cases replied
    exact absurd (Outcome.isSuccess_success _) stops
  | cons item items ih =>
    obtain ⟨first, rest⟩ := List.forall_mem_cons.1 h
    obtain ⟨⟨outcome, calls⟩, head, next⟩ := Option.bind_eq_some_iff.1 replied
    have head := first _ _ head
    cases outcome with
    | success here =>
      obtain ⟨_, inner, rfl⟩ := Option.map_eq_some_iff.1 next
      obtain ⟨⟨outcome, callsTail⟩, later, rfl⟩ := Option.map_eq_some_iff.1 inner
      cases outcome with
      | success _ => exact absurd (Outcome.isSuccess_success _) stops
      | failure _ | fault _ => exact .later head (ih rest later id)
    | failure reason =>
      obtain rfl := Option.some.inj next
      exact .here head (Outcome.not_isSuccess_failure _)
    | fault cause =>
      obtain rfl := Option.some.inj next
      exact .here head (Outcome.not_isSuccess_fault _)

theorem derives_of_inOrder (h : ∀ item ∈ items, Sound rules input item (run item))
    {start : Nat} {reply : Reply (List Value)}
    (replied : Step.inOrder (items.map run) start = some reply) :
    Derives rules input (.sequence items) start reply.listed.outcome reply.listed.calls := by
  obtain ⟨⟨outcome, calls⟩, all, rfl⟩ := Option.map_eq_some_iff.1 replied
  cases outcome with
  | success result =>
    obtain ⟨rfl, row⟩ := row_of_steps h all
    rcases Nat.lt_or_ge result.stop result.start with back | ordered
    · rw [Reply.asserted_of_lt back]
      exact .sequence_back row back
    · rw [Reply.asserted_of_le ordered]
      exact .sequence_all row ordered
  | failure reason =>
    exact .sequence_cut (cutShort_of_steps h all (Outcome.not_isSuccess_failure reason))
  | fault cause =>
    exact .sequence_cut (cutShort_of_steps h all (Outcome.not_isSuccess_fault cause))

/-- A choice among the rest of the alternatives differs only in the words of its failure. -/
theorem derives_of_firstOf (h : ∀ item ∈ items, Sound rules input item (run item))
    {name : String} {start : Nat} {reply : Reply Value}
    (replied : Step.firstOf name (items.map run) start = some reply) :
    (¬ reply.outcome.IsFailure ∧
      Derives rules input (.alternate items) start reply.outcome reply.calls) ∨
    (reply.outcome = .failure (.expected name start) ∧
      Derives rules input (.alternate items) start
        (.failure (.expected (Parser.alternate items).name start)) reply.calls) := by
  induction items generalizing reply with
  | nil =>
    obtain rfl := Option.some.inj replied
    exact .inr ⟨rfl, .alternate_nil⟩
  | cons item items ih =>
    obtain ⟨first, rest⟩ := List.forall_mem_cons.1 h
    obtain ⟨⟨outcome, calls⟩, head, next⟩ := Option.bind_eq_some_iff.1 replied
    have head := first _ _ head
    cases outcome with
    | success result =>
      obtain rfl := Option.some.inj next
      have settles := Outcome.not_isFailure_success result
      exact .inl ⟨settles, .alternate_first head settles⟩
    | failure reason =>
      -- The run of the rest already fails in the name of the whole choice, while the
      -- derivation for the rest names the rest alone.
      obtain ⟨inner, later, rfl⟩ := Option.map_eq_some_iff.1 next
      obtain ⟨settles, tail⟩ | ⟨fails, tail⟩ := ih rest later
      · exact .inl ⟨settles, .alternate_next head tail settles⟩
      · exact .inr ⟨fails, .alternate_none head tail⟩
    | fault cause =>
      obtain rfl := Option.some.inj next
      have settles : ¬ (Outcome.fault cause : Outcome Value).IsFailure :=
        Outcome.not_isFailure_fault cause
      exact .inl ⟨settles, .alternate_first head settles⟩

/-- A repetition does not fail, so neither do the rounds that follow a round. -/
theorem derives_of_iterate {step : Step Value} (h : Sound rules input item step)
    {start : Nat} {reply : Reply (List Value)}
    (replied : Step.iterate item.name (Parser.many item).name step start = some reply) :
    ¬ reply.outcome.IsFailure ∧
      Derives rules input (.many item) start reply.listed.outcome reply.listed.calls := by
  refine Step.iterate_induction
    (motive := fun start reply => ¬ reply.outcome.IsFailure ∧
      Derives rules input (.many item) start reply.listed.outcome reply.listed.calls)
    ?_ ?_ ?_ ?_ start reply replied
  · exact fun head => ⟨Outcome.not_isFailure_success _, .many_done (h _ _ head)⟩
  · exact fun head => ⟨Outcome.not_isFailure_fault _, .many_fault (h _ _ head)⟩
  · exact fun head stuck => ⟨Outcome.not_isFailure_fault _, .many_stuck (h _ _ head) stuck⟩
  -- The rounds after a round succeed or break down, which tells two rules apart.
  · rintro start calls result ⟨outcome, callsTail⟩ head forward ⟨settles, rest⟩
    have head := h _ _ head
    cases outcome with
    | success _ => exact ⟨Outcome.not_isFailure_success _, .many_next head forward rest⟩
    | failure reason => exact absurd (Outcome.isFailure_failure reason) settles
    | fault _ => exact ⟨Outcome.not_isFailure_fault _, .many_later head forward rest⟩

variable {follow : String → Step Value}

mutual

/-- What a parser gives is derived if what it refers to gives what is derived. -/
theorem sound_step (h : ∀ name, Sound rules input (.rule name) (follow name)) (parser : Parser) :
    Sound rules input parser (parser.step follow input) := by
  intro start reply replied
  match parser with
  | .literal text =>
    obtain rfl := Option.some.inj replied
    by_cases here : ∃ before after, input.toList = before ++ text.toList ++ after ∧
        Text.size before = start
    · obtain ⟨before, after, cut, bytes⟩ := here
      rw [literalOutcome_of_append cut bytes]
      exact .literal_match cut bytes
    · simp only [not_exists, not_and] at here
      rw [literalOutcome_of_ne here]
      exact .literal_mismatch here
  | .pattern regex =>
    obtain rfl := Option.some.inj replied
    cases ends : regex.matchEnd? input.toList start with
    | none =>
      have nowhere := Pattern.matchEnd?_eq_none_iff.1 ends
      rw [patternOutcome_of_eq_none nowhere]
      exact .pattern_mismatch nowhere
    | some stop =>
      -- A match ends between characters, so what it takes can be cut out.
      obtain ⟨before, after, cut, bytes, stops⟩ := Pattern.matchEnd?_eq_some_iff.1 ends
      obtain ⟨found, rest, rfl, rfl⟩ := Regex.Program.exists_append_of_matchEnd? stops
      rw [← List.append_assoc] at cut
      rw [patternOutcome_of_matchEnd? cut bytes stops]
      exact .pattern_match cut bytes stops
  | .pure =>
    obtain rfl := Option.some.inj replied
    exact .pure
  | .finish =>
    obtain rfl := Option.some.inj replied
    by_cases last : start = input.utf8ByteSize
    · rw [finishOutcome, if_pos last]
      exact .finish_at last
    · rw [finishOutcome, if_neg last]
      exact .finish_before last
  | .function name run =>
    obtain rfl := Option.some.inj replied
    exact .function
  | .many item =>
    obtain ⟨inner, rounds, rfl⟩ := Option.map_eq_some_iff.1 replied
    exact (derives_of_iterate (sound_step h item) rounds).2
  | .sequence items =>
    obtain ⟨inner, all, rfl⟩ := Option.map_eq_some_iff.1 replied
    rw [Parser.steps_eq_map] at all
    exact derives_of_inOrder (sound_steps h items) all
  | .alternate items =>
    rw [Parser.step, Parser.steps_eq_map] at replied
    obtain ⟨-, derived⟩ | ⟨fails, derived⟩ := derives_of_firstOf (sound_steps h items) replied
    · exact derived
    · rw [fails]
      exact derived
  | .capture item =>
    obtain ⟨⟨outcome, calls⟩, inner, rfl⟩ := Option.map_eq_some_iff.1 replied
    have inner := sound_step h item _ _ inner
    cases outcome with
    | success result =>
      by_cases within : result.start ≤ result.stop ∧ result.stop ≤ input.utf8ByteSize
      · rw [captureOutcome, if_pos within]
        exact .capture_within inner within
      · rw [captureOutcome, if_neg within]
        exact .capture_outside inner within
    | failure reason => exact .capture_stop inner (Outcome.not_isSuccess_failure _)
    | fault cause => exact .capture_stop inner (Outcome.not_isSuccess_fault _)
  | .map item change =>
    obtain ⟨⟨outcome, calls⟩, inner, rfl⟩ := Option.map_eq_some_iff.1 replied
    have inner := sound_step h item _ _ inner
    cases outcome with
    | success result =>
      cases changed : change result.value with
      | ok value =>
        simp only [Reply.map, Outcome.map, changed]
        exact .map_value inner changed
      | error cause =>
        simp only [Reply.map, Outcome.map, changed]
        exact .map_fault inner changed
    | failure reason => exact .map_stop inner (Outcome.not_isSuccess_failure _)
    | fault cause => exact .map_stop inner (Outcome.not_isSuccess_fault _)
  | .rule name => exact h name _ _ replied

/-- The same for each of several parsers. -/
theorem sound_steps (h : ∀ name, Sound rules input (.rule name) (follow name))
    (items : List Parser) :
    ∀ item ∈ items, Sound rules input item (item.step follow input) := by
  match items with
  | [] => simp
  | item :: items =>
    exact List.forall_mem_cons.2 ⟨sound_step h item, sound_steps h items⟩

end

/-- A rule gives what is derived, by induction on how the rules' replies arise. -/
theorem sound_rule (name : String) :
    Sound rules input (.rule name) (rules.step input name) := by
  -- The rules are a least solution: it is enough that one more reference keeps soundness.
  refine Rules.step.partial_correctness rules input
    (fun name start reply => Derives rules input (.rule name) start reply.outcome reply.calls)
    ?_ name
  intro follow ih name start reply replied
  obtain ⟨parser, found, inner⟩ := Option.bind_eq_some_iff.1 replied
  obtain ⟨reply, run, rfl⟩ := Option.map_eq_some_iff.1 inner
  exact .rule found (sound_step ih parser _ _ run)

/-- What a run gives is derived. -/
theorem derives_of_runAt {parser : Parser} {start : Nat} {reply : Reply Value}
    (h : parser.runAt rules input start = some reply) :
    Derives rules input parser start reply.outcome reply.calls :=
  sound_step sound_rule parser start reply h

end Soundness

/-! ### What is derived is given by a run -/

section Completeness

variable {rules : Rules} {input : String}

/-- A value that is a list of values comes from that list. -/
theorem listed_eq_success {reply : Reply (List Value)} {values : List Value}
    {origin stop calls : Nat}
    (h : reply.listed = ⟨.success ⟨.list values, origin, stop⟩, calls⟩) :
    reply = ⟨.success ⟨values, origin, stop⟩, calls⟩ := by
  obtain ⟨⟨values', origin', stop'⟩ | reason | cause, calls'⟩ := reply <;> simp_all

/-- A value put before others that do not come about leaves no trace. -/
theorem listed_prepend {reply : Reply (List Value)} {outcome : Outcome Value} {calls : Nat}
    (h : reply.listed = ⟨outcome, calls⟩) (stops : ¬ outcome.IsSuccess) (value : Value)
    (start earlier : Nat) :
    Reply.listed ⟨Step.prepend value start reply.outcome, earlier + reply.calls⟩ =
      ⟨outcome, earlier + calls⟩ := by
  obtain ⟨⟨values, origin, stop⟩ | reason | cause, calls⟩ := reply <;> cases h
  · exact absurd (Outcome.isSuccess_success _) stops
  · rfl
  · rfl

/-- The name of a choice shows in its failure alone. -/
theorem firstOf_rename {steps : List (Step Value)} {name : String} {start calls : Nat}
    {outcome : Outcome Value} (h : Step.firstOf name steps start = some ⟨outcome, calls⟩)
    (name' : String) :
    Step.firstOf name' steps start =
      some ⟨outcome.replaceFailure (.expected name' start), calls⟩ := by
  induction steps generalizing calls with
  | nil =>
    cases h
    rfl
  | cons step steps ih =>
    obtain ⟨⟨first, callsFirst⟩, head, next⟩ := Option.bind_eq_some_iff.1 h
    cases first with
    | success result =>
      cases next
      exact Step.firstOf_cons_success head
    | failure reason =>
      obtain ⟨⟨tail, callsTail⟩, later, same⟩ := Option.map_eq_some_iff.1 next
      cases same
      rw [Step.firstOf_cons_failure head, ih later]
      rfl
    | fault cause =>
      cases next
      exact Step.firstOf_cons_fault head

/-- Parsers in a row are steps in a row. -/
theorem Row.steps_eq {items : List Parser} {start stop calls : Nat} {values : List Value}
    (row : Row (fun item start outcome calls =>
      item.runAt rules input start = some ⟨outcome, calls⟩) items start values stop calls) :
    Step.row (items.map fun item => item.runAt rules input) start =
      some ⟨.success ⟨values, start, stop⟩, calls⟩ := by
  induction row with
  | nil => rfl
  | cons first _ ih =>
    rw [List.map_cons, Step.row_cons_success first, ih]
    rfl

/-- Parsers in a row that is cut short are steps in a row that do not succeed. -/
theorem CutShort.steps_eq {items : List Parser} {start calls : Nat} {outcome : Outcome Value}
    (cut : CutShort (fun item start outcome calls =>
      item.runAt rules input start = some ⟨outcome, calls⟩) items start outcome calls) :
    ∃ all, Step.row (items.map fun item => item.runAt rules input) start = some ⟨all, calls⟩ ∧
      ¬ all.IsSuccess ∧ Reply.listed ⟨all, calls⟩ = ⟨outcome, calls⟩ := by
  induction cut with
  | @here item items start calls outcome first stops =>
    cases outcome with
    | success result => exact absurd (Outcome.isSuccess_success result) stops
    | failure reason => exact ⟨.failure reason, Step.row_cons_failure first, id, rfl⟩
    | fault cause => exact ⟨.fault cause, Step.row_cons_fault first, id, rfl⟩
  | later first _ ih =>
    obtain ⟨all, rest, stops, same⟩ := ih
    refine ⟨all, ?_, stops, ?_⟩
    · rw [List.map_cons, Step.row_cons_success first, rest]
      cases all with
      | success result => exact absurd (Outcome.isSuccess_success result) stops
      | failure _ | fault _ => rfl
    · cases all with
      | success result => exact absurd (Outcome.isSuccess_success result) stops
      | failure _ | fault _ => cases same; rfl

/-- What is derived is what a run gives. -/
theorem Derives.runAt_eq {parser : Parser} {start calls : Nat} {outcome : Outcome Value}
    (h : Derives rules input parser start outcome calls) :
    parser.runAt rules input start = some ⟨outcome, calls⟩ := by
  induction h with
  | literal_match cut bytes => rw [Parser.runAt_literal, literalOutcome_of_append cut bytes]
  | literal_mismatch nowhere => rw [Parser.runAt_literal, literalOutcome_of_ne nowhere]; rfl
  | pattern_match cut bytes stop =>
    rw [Parser.runAt_pattern, patternOutcome_of_matchEnd? cut bytes stop]
  | pattern_mismatch nowhere => rw [Parser.runAt_pattern, patternOutcome_of_eq_none nowhere]
  | pure => rfl
  | finish_at last => rw [Parser.runAt_finish, finishOutcome, if_pos last]
  | finish_before more => rw [Parser.runAt_finish, finishOutcome, if_neg more]
  | function => rfl
  | sequence_all _ ordered row =>
    rw [Parser.runAt_sequence, Step.inOrder, (row.imp Exists.choose_spec).steps_eq,
      Option.map_some, Reply.asserted_of_le ordered]
    rfl
  | sequence_back _ back row =>
    rw [Parser.runAt_sequence, Step.inOrder, (row.imp Exists.choose_spec).steps_eq,
      Option.map_some, Reply.asserted_of_lt back]
    rfl
  | sequence_cut _ cut =>
    obtain ⟨all, run, stops, same⟩ := (cut.imp Exists.choose_spec).steps_eq
    rw [Parser.runAt_sequence, Step.inOrder, run, Option.map_some, Reply.asserted,
      Outcome.asserted_of_isOrdered (Outcome.isOrdered_of_not_isSuccess stops)]
    exact congrArg some same
  | alternate_nil => rfl
  | @alternate_first item items start calls outcome _ settles ih =>
    rw [Parser.runAt_alternate, List.map_cons]
    cases outcome with
    | success result => exact Step.firstOf_cons_success ih
    | failure reason => exact absurd (Outcome.isFailure_failure reason) settles
    | fault cause => exact Step.firstOf_cons_fault ih
  | @alternate_next item items start _ _ reason outcome _ _ settles ihFirst ihRest =>
    rw [Parser.runAt_alternate] at ihRest ⊢
    rw [List.map_cons, Step.firstOf_cons_failure ihFirst, firstOf_rename ihRest,
      Outcome.replaceFailure_of_not_isFailure settles]
    rfl
  | alternate_none _ _ ihFirst ihRest =>
    -- The rest failed in its own name; inside the choice it fails in that of the whole.
    rw [Parser.runAt_alternate] at ihRest ⊢
    rw [List.map_cons, Step.firstOf_cons_failure ihFirst, firstOf_rename ihRest]
    rfl
  | many_done _ ih => rw [Parser.runAt_many, Step.iterate_failure ih]; rfl
  | many_next _ forward _ ihFirst ihRest =>
    rw [Parser.runAt_many] at ihRest ⊢
    obtain ⟨reply, tail, same⟩ := Option.map_eq_some_iff.1 ihRest
    -- The rest gave a list because its rounds did, before their values were put into one.
    obtain rfl := listed_eq_success same
    rw [Step.iterate_success ihFirst forward, tail]
    rfl
  | many_fault _ ih => rw [Parser.runAt_many, Step.iterate_fault ih]; rfl
  | many_later _ forward _ ihFirst ihRest =>
    rw [Parser.runAt_many] at ihRest ⊢
    obtain ⟨reply, tail, same⟩ := Option.map_eq_some_iff.1 ihRest
    rw [Step.iterate_success ihFirst forward, tail]
    exact congrArg some (listed_prepend same (Outcome.not_isSuccess_fault _) _ _ _)
  | many_stuck _ stuck ih => rw [Parser.runAt_many, Step.iterate_stuck ih stuck]; rfl
  | capture_within _ within ih =>
    rw [Parser.runAt_capture, ih, Option.map_some, captureOutcome, if_pos within]
  | capture_outside _ outside ih =>
    rw [Parser.runAt_capture, ih, Option.map_some, captureOutcome, if_neg outside]
  | @capture_stop item start calls outcome _ stops ih =>
    rw [Parser.runAt_capture, ih]
    cases outcome with
    | success result => exact absurd (Outcome.isSuccess_success result) stops
    | failure reason => rfl
    | fault cause => rfl
  | map_value _ changed ih =>
    rw [Parser.runAt_map, ih, Option.map_some, Reply.map, Outcome.map, changed]
  | map_fault _ broken ih =>
    rw [Parser.runAt_map, ih, Option.map_some, Reply.map, Outcome.map, broken]
  | @map_stop item change start calls outcome _ stops ih =>
    rw [Parser.runAt_map, ih]
    cases outcome with
    | success result => exact absurd (Outcome.isSuccess_success result) stops
    | failure reason => rfl
    | fault cause => rfl
  | rule found _ ih =>
    rw [Parser.runAt_rule, found, Option.bind_some, ih]
    rfl

/-- **Adequacy.** A run ends with an outcome after following so many references
exactly if the ordered-choice rules derive that outcome with that number. -/
theorem runAt_eq_some_iff_derives (rules : Rules) (parser : Parser) (input : String)
    (start calls : Nat) (outcome : Outcome Value) :
    parser.runAt rules input start = some ⟨outcome, calls⟩ ↔
      Derives rules input parser start outcome calls :=
  ⟨derives_of_runAt, Derives.runAt_eq⟩

/-- A run goes on for ever exactly where nothing is derived. -/
theorem runAt_eq_none_iff {parser : Parser} {start : Nat} :
    parser.runAt rules input start = none ↔
      ∀ outcome calls, ¬ Derives rules input parser start outcome calls := by
  constructor
  · intro h outcome calls derived
    rw [derived.runAt_eq] at h
    cases h
  · intro h
    rw [Option.eq_none_iff_forall_ne_some]
    exact fun reply replied => h _ _ (derives_of_runAt replied)

/-- The ordered-choice rules are deterministic. -/
theorem Derives.unique {parser : Parser} {start calls calls' : Nat}
    {outcome outcome' : Outcome Value} (h : Derives rules input parser start outcome calls)
    (h' : Derives rules input parser start outcome' calls') :
    outcome = outcome' ∧ calls = calls' := by
  have same := h.runAt_eq.symm.trans h'.runAt_eq
  rw [Option.some_inj, Reply.mk.injEq] at same
  exact same

end Completeness

end Peg
