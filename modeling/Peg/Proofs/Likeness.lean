import Mathlib.Data.List.Forall2
import Peg.Parser.Run

/-!
# Runs that are alike

Two parsers that are built alike run alike. In which respects their replies agree
is left open: in their values or not, in the words of their failures or not, in the
number of references that they follow or not. In any case they end in the same way,
with the same range. One argument for each combinator then serves for every change
of a grammar that leaves its shape as it is.

## Main definitions

* `Likeness`: the respects in which two replies agree.
* `Outcome.Alike`, `Reply.Alike`: outcomes and replies that agree in them.
* `Step.Follows`: a step that replies wherever another does, and alike.

## Main results

* `Step.Follows.inOrder`, `Step.Follows.firstOf`, `Step.Follows.iterate`: steps that
  follow others one by one make combinations that follow each other.
* `Parser.follows_many`, `Parser.follows_sequence` and their siblings: the same for
  parsers.
-/

namespace Peg

/-- The respects in which two replies agree. What a parser does of itself has to be
alike if it is the same, and alike values have to make alike lists and alike
values with a span. -/
structure Likeness where
  values : Value → Value → Prop
  failures : Failure → Failure → Prop
  faults : Fault → Fault → Prop
  calls : Nat → Nat → Prop
  values_refl : ∀ value, values value value
  failures_refl : ∀ reason, failures reason reason
  faults_refl : ∀ cause, faults cause cause
  calls_zero : calls 0 0
  calls_add : ∀ {a b c d}, calls a b → calls c d → calls (a + c) (b + d)
  list : ∀ {elements elements'}, List.Forall₂ values elements elements' →
    values (.list elements) (.list elements')
  spanned : ∀ {value value'} (span : Span), values value value' →
    values (.spanned value span) (.spanned value' span)

/-- The same respects, with the second reply before the first. -/
def Likeness.flip (like : Likeness) : Likeness where
  values value value' := like.values value' value
  failures reason reason' := like.failures reason' reason
  faults cause cause' := like.faults cause' cause
  calls calls calls' := like.calls calls' calls
  values_refl := like.values_refl
  failures_refl := like.failures_refl
  faults_refl := like.faults_refl
  calls_zero := like.calls_zero
  calls_add h h' := like.calls_add h h'
  list each := like.list (List.Forall₂.flip each)
  spanned span same := like.spanned span same

variable {like : Likeness} {α β : Type} {rel : α → β → Prop}

/-- Outcomes that end in the same way over the same range, with values that are related. -/
inductive Outcome.Alike (like : Likeness) (rel : α → β → Prop) : Outcome α → Outcome β → Prop
  | success {value : α} {value' : β} {start stop : Nat} (same : rel value value') :
    Alike like rel (.success ⟨value, start, stop⟩) (.success ⟨value', start, stop⟩)
  | failure {reason reason' : Failure} (same : like.failures reason reason') :
    Alike like rel (.failure reason) (.failure reason')
  | fault {cause cause' : Fault} (same : like.faults cause cause') :
    Alike like rel (.fault cause) (.fault cause')

/-- Replies with outcomes that are alike, after numbers of references that are alike. -/
structure Reply.Alike (like : Likeness) (rel : α → β → Prop) (reply : Reply α)
    (reply' : Reply β) : Prop where
  outcome : reply.outcome.Alike like rel reply'.outcome
  calls : like.calls reply.calls reply'.calls

/-- Where one step replies, the other does, too, and alike. -/
def Step.Follows (like : Likeness) (rel : α → β → Prop) (step : Step α) (step' : Step β) : Prop :=
  ∀ start reply, step start = some reply →
    ∃ reply', step' start = some reply' ∧ reply.Alike like rel reply'

theorem Reply.Alike.after {reply : Reply α} {reply' : Reply β} (h : reply.Alike like rel reply')
    {calls calls' : Nat} (earlier : like.calls calls calls') :
    (reply.after calls).Alike like rel (reply'.after calls') :=
  ⟨h.outcome, like.calls_add earlier h.calls⟩

/-- A value that is put before others does so on both sides. -/
theorem Outcome.Alike.prepend {outcome : Outcome (List α)} {outcome' : Outcome (List β)}
    (h : outcome.Alike like (List.Forall₂ rel) outcome') {value : α} {value' : β}
    (first : rel value value') (start : Nat) :
    (Step.prepend value start outcome).Alike like (List.Forall₂ rel)
      (Step.prepend value' start outcome') := by
  cases h with
  | success rest => exact .success (.cons first rest)
  | failure same => exact .failure same
  | fault same => exact .fault same

/-- What is asserted of a range is asserted on both sides. -/
theorem Reply.Alike.asserted {reply : Reply α} {reply' : Reply β}
    (h : reply.Alike like rel reply') : reply.asserted.Alike like rel reply'.asserted := by
  obtain ⟨outcome, calls⟩ := reply
  obtain ⟨outcome', calls'⟩ := reply'
  obtain ⟨alike, counted⟩ := h
  refine ⟨?_, counted⟩
  cases alike with
  | @success value value' start stop same =>
    rcases Nat.lt_or_ge stop start with back | ordered
    · simp only [Reply.asserted_of_lt back]
      exact .fault (like.faults_refl .reversedRange)
    · simp only [Reply.asserted_of_le ordered]
      exact .success same
  | failure same => exact .failure same
  | fault same => exact .fault same

/-- Lists of values that are alike are alike as values. -/
theorem Reply.Alike.listed {reply reply' : Reply (List Value)}
    (h : reply.Alike like (List.Forall₂ like.values) reply') :
    reply.listed.Alike like like.values reply'.listed := by
  obtain ⟨outcome, calls⟩ := reply
  obtain ⟨outcome', calls'⟩ := reply'
  obtain ⟨alike, counted⟩ := h
  refine ⟨?_, counted⟩
  cases alike with
  | success same => exact .success (like.list same)
  | failure same => exact .failure same
  | fault same => exact .fault same

/-! ### Combinations of steps -/

namespace Step.Follows

variable {step : Step α} {step' : Step β} {steps : List (Step α)} {steps' : List (Step β)}

theorem row (each : List.Forall₂ (Follows like rel) steps steps') :
    Follows like (List.Forall₂ rel) (Step.row steps) (Step.row steps') := by
  induction each with
  | nil =>
    intro start reply replied
    obtain rfl := Option.some.inj replied
    exact ⟨_, rfl, .success .nil, like.calls_zero⟩
  | cons first _ ih =>
    intro start reply replied
    obtain ⟨head, replies, next⟩ := Option.bind_eq_some_iff.1 replied
    obtain ⟨head', replies', outcome, calls⟩ := first start head replies
    obtain ⟨outcomeHead, callsHead⟩ := head
    obtain ⟨outcomeHead', callsHead'⟩ := head'
    -- The first steps end in the same way, which says how both rows go on.
    cases outcome with
    | success same =>
      obtain ⟨_, inner, rfl⟩ := Option.map_eq_some_iff.1 next
      obtain ⟨tail, later, rfl⟩ := Option.map_eq_some_iff.1 inner
      obtain ⟨tail', later', alike⟩ := ih _ tail later
      refine ⟨_, by rw [row_cons_success replies', later', Option.map_some], ?_⟩
      exact ⟨alike.outcome.prepend same start, like.calls_add calls alike.calls⟩
    | failure same =>
      obtain rfl := Option.some.inj next
      exact ⟨_, row_cons_failure replies', .failure same, calls⟩
    | fault same =>
      obtain rfl := Option.some.inj next
      exact ⟨_, row_cons_fault replies', .fault same, calls⟩

theorem inOrder (each : List.Forall₂ (Follows like rel) steps steps') :
    Follows like (List.Forall₂ rel) (Step.inOrder steps) (Step.inOrder steps') := by
  intro start reply replied
  obtain ⟨all, run, rfl⟩ := Option.map_eq_some_iff.1 replied
  obtain ⟨all', run', alike⟩ := row each start all run
  exact ⟨_, Option.map_eq_some_iff.2 ⟨all', run', rfl⟩, alike.asserted⟩

theorem firstOf {name name' : String}
    (named : ∀ start, like.failures (.expected name start) (.expected name' start))
    (each : List.Forall₂ (Follows like rel) steps steps') :
    Follows like rel (Step.firstOf name steps) (Step.firstOf name' steps') := by
  induction each with
  | nil =>
    intro start reply replied
    obtain rfl := Option.some.inj replied
    exact ⟨_, rfl, .failure (named start), like.calls_zero⟩
  | cons first _ ih =>
    intro start reply replied
    obtain ⟨head, replies, next⟩ := Option.bind_eq_some_iff.1 replied
    obtain ⟨head', replies', outcome, calls⟩ := first start head replies
    obtain ⟨outcomeHead, callsHead⟩ := head
    obtain ⟨outcomeHead', callsHead'⟩ := head'
    cases outcome with
    | success same =>
      obtain rfl := Option.some.inj next
      exact ⟨_, firstOf_cons_success replies', .success same, calls⟩
    | failure same =>
      -- Both give their failures up and try what is left.
      obtain ⟨tail, later, rfl⟩ := Option.map_eq_some_iff.1 next
      obtain ⟨tail', later', alike⟩ := ih start tail later
      refine ⟨_, by rw [firstOf_cons_failure replies', later', Option.map_some], ?_⟩
      exact alike.after calls
    | fault same =>
      obtain rfl := Option.some.inj next
      exact ⟨_, firstOf_cons_fault replies', .fault same, calls⟩

theorem iterate {item item' repetition repetition' : String}
    (named : ∀ start, like.faults (.emptyRepetition item repetition start)
      (.emptyRepetition item' repetition' start))
    (h : Follows like rel step step') :
    Follows like (List.Forall₂ rel) (Step.iterate item repetition step)
      (Step.iterate item' repetition' step') := by
  -- The rounds of the other step are found along with those of this one.
  refine iterate_induction ?_ ?_ ?_ ?_
  · intro start calls reason head
    obtain ⟨⟨_, calls'⟩, head', ⟨_⟩, calls⟩ := h _ _ head
    exact ⟨_, iterate_failure head', .success .nil, calls⟩
  · intro start calls cause head
    obtain ⟨⟨_, calls'⟩, head', ⟨_⟩, calls⟩ := h _ _ head
    exact ⟨_, iterate_fault head', .fault ‹_›, calls⟩
  · intro start calls result head stuck
    -- The other round ends at the same place, so it does not move on either.
    obtain ⟨⟨_, calls'⟩, head', ⟨_⟩, calls⟩ := h _ _ head
    exact ⟨_, iterate_stuck head' stuck, .fault (named start), calls⟩
  · intro start calls result tail head forward later
    obtain ⟨⟨_, calls'⟩, head', ⟨same⟩, calls⟩ := h _ _ head
    obtain ⟨tail', later', alike⟩ := later
    refine ⟨_, by rw [iterate_success head' forward, later', Option.map_some], ?_⟩
    exact ⟨alike.outcome.prepend same start, like.calls_add calls alike.calls⟩

end Step.Follows

/-! ### Combinations of parsers -/

/-- Two changes make alike values of alike values, or have alike faults. -/
def Likeness.Keeps (like : Likeness) (change change' : Value → Except Fault Value) : Prop :=
  ∀ value value' start stop, like.values value value' →
    ((Outcome.success ⟨value, start, stop⟩).map change).Alike like like.values
      ((Outcome.success ⟨value', start, stop⟩).map change')

/-- Where alike values are equal, every change keeps step with itself. -/
theorem Likeness.keeps_self (same : ∀ {value value'}, like.values value value' → value = value')
    (change : Value → Except Fault Value) : like.Keeps change change := by
  intro value value' start stop alike
  obtain rfl := same alike
  cases changed : change value with
  | ok result =>
    simp only [Outcome.map, changed]
    exact .success (like.values_refl result)
  | error cause =>
    simp only [Outcome.map, changed]
    exact .fault (like.faults_refl cause)

namespace Parser

variable {follow follow' : String → Step Value} {input : String} {item item' : Parser}
  {items items' : List Parser}

/-- A parser that does something at once is followed by itself. -/
theorem follows_done (like : Likeness) (outcome : Nat → Outcome Value) :
    Step.Follows like like.values (fun position => Step.done (outcome position))
      fun position => Step.done (outcome position) := by
  intro start reply replied
  obtain rfl := Option.some.inj replied
  refine ⟨_, rfl, ?_, like.calls_zero⟩
  cases outcome start with
  | success result => exact .success (like.values_refl result.value)
  | failure reason => exact .failure (like.failures_refl reason)
  | fault cause => exact .fault (like.faults_refl cause)

theorem follows_many (named : ∀ start, like.faults
      (.emptyRepetition item.name (item.name ++ "*") start)
      (.emptyRepetition item'.name (item'.name ++ "*") start))
    (h : Step.Follows like like.values (item.step follow input) (item'.step follow' input)) :
    Step.Follows like like.values ((Parser.many item).step follow input)
      ((Parser.many item').step follow' input) := by
  intro start reply replied
  obtain ⟨inner, rounds, rfl⟩ := Option.map_eq_some_iff.1 replied
  obtain ⟨inner', rounds', alike⟩ := h.iterate named start inner rounds
  exact ⟨_, Option.map_eq_some_iff.2 ⟨inner', rounds', rfl⟩, alike.listed⟩

theorem follows_sequence (each : List.Forall₂ (Step.Follows like like.values)
      (steps follow input items) (steps follow' input items')) :
    Step.Follows like like.values ((Parser.sequence items).step follow input)
      ((Parser.sequence items').step follow' input) := by
  intro start reply replied
  obtain ⟨inner, all, rfl⟩ := Option.map_eq_some_iff.1 replied
  obtain ⟨inner', all', alike⟩ := Step.Follows.inOrder each start inner all
  exact ⟨_, Option.map_eq_some_iff.2 ⟨inner', all', rfl⟩, alike.listed⟩

theorem follows_alternate (named : ∀ start, like.failures
      (.expected (Parser.alternate items).name start)
      (.expected (Parser.alternate items').name start))
    (each : List.Forall₂ (Step.Follows like like.values) (steps follow input items)
      (steps follow' input items')) :
    Step.Follows like like.values ((Parser.alternate items).step follow input)
      ((Parser.alternate items').step follow' input) :=
  Step.Follows.firstOf named each

theorem follows_capture
    (h : Step.Follows like like.values (item.step follow input) (item'.step follow' input)) :
    Step.Follows like like.values ((Parser.capture item).step follow input)
      ((Parser.capture item').step follow' input) := by
  intro start reply replied
  obtain ⟨⟨outcome, calls⟩, inner, rfl⟩ := Option.map_eq_some_iff.1 replied
  obtain ⟨⟨outcome', calls'⟩, inner', alike, counted⟩ := h start _ inner
  refine ⟨_, Option.map_eq_some_iff.2 ⟨_, inner', rfl⟩, ?_, counted⟩
  cases alike with
  | @success value value' origin stop same =>
    -- Whether the span lies in the input depends on its range alone, which is the same.
    by_cases within : origin ≤ stop ∧ stop ≤ input.utf8ByteSize
    · simp only [captureOutcome, if_pos within]
      exact .success (like.spanned _ same)
    · simp only [captureOutcome, if_neg within]
      exact .fault (like.faults_refl .spanOutOfRange)
  | failure same => exact .failure same
  | fault same => exact .fault same

theorem follows_map {change change' : Value → Except Fault Value}
    (keeps : like.Keeps change change')
    (h : Step.Follows like like.values (item.step follow input) (item'.step follow' input)) :
    Step.Follows like like.values ((Parser.map item change).step follow input)
      ((Parser.map item' change').step follow' input) := by
  intro start reply replied
  obtain ⟨⟨outcome, calls⟩, inner, rfl⟩ := Option.map_eq_some_iff.1 replied
  obtain ⟨⟨outcome', calls'⟩, inner', alike, counted⟩ := h start _ inner
  refine ⟨_, Option.map_eq_some_iff.2 ⟨_, inner', rfl⟩, ?_, counted⟩
  cases alike with
  | success same => exact keeps _ _ _ _ same
  | failure same => exact .failure same
  | fault same => exact .fault same

/-! ### Any number of parsers -/

section Halved

variable {related : Parser → Parser → Prop}

/-- What relates single parsers, and is kept by pairs, relates trees of pairs. -/
theorem related_halved {combine : Parser → Parser → Parser} {none : Parser}
    (unit : related none none)
    (pair : ∀ {first first' second second'}, related first first' → related second second' →
      related (combine first second) (combine first' second'))
    (each : List.Forall₂ related items items') :
    related (halved combine none items) (halved combine none items') := by
  induction items using halved.induct generalizing items' with
  | case1 =>
    cases each
    rwa [halved]
  | case2 item =>
    obtain _ | ⟨first, _ | _⟩ := each
    rwa [halved, halved]
  | case3 first second rest all ihTake =>
    rename_i ihDrop
    -- Lists of one length are cut in half at one place.
    have half := each.length_eq
    obtain _ | ⟨one, _ | ⟨two, others⟩⟩ := each
    rw [halved, halved, ← half]
    refine pair (ihTake ?_) (ihDrop ?_)
    · exact List.forall₂_take _ (.cons one (.cons two others))
    · exact List.forall₂_drop _ (.cons one (.cons two others))

theorem related_seqAll (unit : related .pure .pure)
    (pair : ∀ {first first' second second'}, related first first' → related second second' →
      related (seq first second) (seq first' second'))
    (flatten : ∀ {item item'} count, related item item' →
      related (.map item fun value => .ok (.list (leaves count value)))
        (.map item' fun value => .ok (.list (leaves count value))))
    (each : List.Forall₂ related items items') : related (seqAll items) (seqAll items') := by
  unfold seqAll
  rw [← each.length_eq]
  cases each with
  | nil => exact unit
  | cons first rest => exact flatten _ (related_halved unit pair (.cons first rest))

theorem related_altAll (unit : related (.alternate []) (.alternate []))
    (pair : ∀ {first first' second second' : Parser}, related first first' →
      related second second' → related (first.or second) (first'.or second'))
    (each : List.Forall₂ related items items') : related (altAll items) (altAll items') :=
  related_halved unit pair each

end Halved

end Parser

/-! ### Tables of rules -/

/-- Tables with the same names in the same order, over parsers that are related. -/
def Rules.Related (related : Parser → Parser → Prop) (rules rules' : Rules) : Prop :=
  List.Forall₂ (fun row row' => row.1 = row'.1 ∧ related row.2 row'.2) rules rules'

namespace Rules.Related

variable {related : Parser → Parser → Prop} {rules rules' : Rules}

theorem flip (h : Related related rules rules') : Related (fun a b => related b a) rules' rules :=
  (List.Forall₂.flip h).imp fun _ _ same => ⟨same.1.symm, same.2⟩

/-- A rule that is found in one table is found in the other. -/
theorem exists_parser? (h : Related related rules rules') {name : String} {parser : Parser}
    (found : rules.parser? name = some parser) :
    ∃ parser', rules'.parser? name = some parser' ∧ related parser parser' := by
  induction h with
  | nil => cases found
  | @cons row row' rules rules' same _ ih =>
    obtain ⟨called, body⟩ := row
    obtain ⟨called', body'⟩ := row'
    obtain ⟨rfl, alike⟩ := same
    by_cases here : called = name
    · subst here
      obtain rfl : body = parser := by simpa [parser?] using found
      exact ⟨body', by simp [parser?], alike⟩
    · simp only [parser?, List.find?_cons, beq_eq_false_iff_ne.2 here] at found ⊢
      exact ih found

end Rules.Related

end Peg
