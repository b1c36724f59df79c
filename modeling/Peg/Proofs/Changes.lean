import Mathlib.Data.List.Forall2
import Peg.Proofs.Likeness

/-!
# Changes of values move outward

No combinator looks at a value. A function may therefore be mapped over the values of
the items of a combinator, or over what the combinator makes of these values: over every
element of a repetition, over the components of a sequence, over the value of a choice,
inside of a captured value. The two parsers are the same in every respect, with their
names and all words of their failures and faults.

A repetition is the one loop among the combinators. That it ends with a change inside
exactly if it ends without is shown from both sides, as neither of the two is given
before the other.

## Main definitions

* `Parser.mapped`: a parser with a function mapped over its values.
* `Parser.Same`: one name and the same reply everywhere.
* `Value.onElements`, `Value.onComponents`, `Value.onInner`: functions inside of values.

## Main results

* `Step.row_mapped`, `Step.firstOf_mapped`, `Step.iterate_mapped`: the changes in steps.
* `same_mapped`: the laws of changes, for parsers and for results.
-/

namespace Peg

variable {α β γ : Type}

/-! ### Changes that always have a value -/

/-- The outcome with a function applied to the value of a success. -/
def Outcome.mapped (change : α → β) (outcome : Outcome α) : Outcome β :=
  outcome.map fun value => .ok (change value)

/-- The reply with a function applied to the value of a success. -/
def Reply.mapped (change : α → β) (reply : Reply α) : Reply β :=
  ⟨reply.outcome.mapped change, reply.calls⟩

/-- The step with a function applied to its values. -/
def Step.mapped (change : α → β) (step : Step α) : Step β :=
  fun start => (step start).map (Reply.mapped change)

/-- A parser with a function mapped over its values. -/
def Parser.mapped (item : Parser) (change : Value → Value) : Parser :=
  .map item fun value => .ok (change value)

namespace Outcome

@[simp]
theorem mapped_success (change : α → β) (value : α) (start stop : Nat) :
    (Outcome.success ⟨value, start, stop⟩).mapped change = .success ⟨change value, start, stop⟩ :=
  rfl

@[simp]
theorem mapped_failure (change : α → β) (reason : Failure) :
    (Outcome.failure reason).mapped change = .failure reason :=
  rfl

@[simp]
theorem mapped_fault (change : α → β) (cause : Fault) :
    (Outcome.fault cause).mapped change = .fault cause :=
  rfl

@[simp]
theorem mapped_id (outcome : Outcome α) : outcome.mapped id = outcome :=
  outcome.map_ok

@[simp]
theorem mapped_mapped (change : α → β) (further : β → γ) (outcome : Outcome α) :
    (outcome.mapped change).mapped further = outcome.mapped (further ∘ change) := by
  cases outcome <;> rfl

theorem asserted_mapped (change : α → β) (outcome : Outcome α) :
    (outcome.mapped change).asserted = outcome.asserted.mapped change := by
  cases outcome with
  | success result =>
    rcases Nat.lt_or_ge result.stop result.start with back | ordered
    · rw [asserted_of_lt back, mapped_fault]
      exact asserted_of_lt back
    · rw [asserted_of_le ordered]
      exact asserted_of_le ordered
  | failure reason => rfl
  | fault cause => rfl

/-- Changes in a row are one change. -/
theorem foldl_mapped (steps : List (α → α)) (outcome : Outcome α) :
    steps.foldl (fun outcome change => outcome.mapped change) outcome =
      outcome.mapped fun value => steps.foldl (fun value change => change value) value := by
  induction steps generalizing outcome with
  | nil => exact outcome.mapped_id.symm
  | cons change steps ih =>
    rw [List.foldl_cons, ih, mapped_mapped]
    rfl

end Outcome

theorem Reply.asserted_mapped (change : α → β) (reply : Reply α) :
    (reply.mapped change).asserted = reply.asserted.mapped change :=
  congrArg (Reply.mk · reply.calls) (reply.outcome.asserted_mapped change)

/-! ### Functions inside of values -/

/-- Functions on the values of a row, the first one on the first value and so on. -/
def applyEach (changes : List (α → β)) (values : List α) : List β :=
  List.zipWith (fun change value => change value) changes values

namespace Value

/-- A function on each element of a list. -/
def onElements (change : Value → Value) : Value → Value
  | .list elements => .list (elements.map change)
  | other => other

/-- Functions on the elements of a list, the first one on the first element and so on. -/
def onComponents (changes : List (Value → Value)) : Value → Value
  | .list elements => .list (applyEach changes elements)
  | other => other

/-- A function on a value that was captured, with its span as it is. -/
def onInner (change : Value → Value) : Value → Value
  | .spanned value span => .spanned (change value) span
  | other => other

end Value

/-! ### Changes in steps -/

theorem Value.list_congr {elements elements' : List Value}
    (each : List.Forall₂ Eq elements elements') : Value.list elements = .list elements' := by
  rw [List.forall₂_eq_eq_eq] at each
  rw [each]

theorem Value.spanned_congr {value value' : Value} (span : Span) (same : value = value') :
    Value.spanned value span = .spanned value' span := by
  rw [same]

theorem Reply.calls_congr {a b c d : Nat} (h : a = b) (h' : c = d) : a + c = b + d := by
  rw [h, h']

/-- Replies that are the same up to a relation of their values. -/
def Likeness.exact : Likeness where
  values := Eq
  failures := Eq
  faults := Eq
  calls := Eq
  values_refl := Eq.refl
  failures_refl := Eq.refl
  faults_refl := Eq.refl
  calls_zero := Nat.zero_eq
  calls_add := @Reply.calls_congr
  list := @Value.list_congr
  spanned := @Value.spanned_congr

open Likeness (exact)

theorem Reply.Alike.eq_mapped {rel : α → β → Prop} {change : α → β} {reply : Reply α}
    {reply' : Reply β} (h : reply.Alike exact rel reply')
    (values : ∀ {value value'}, rel value value' → change value = value') :
    reply' = reply.mapped change := by
  obtain ⟨outcome, calls⟩ := reply
  obtain ⟨outcome', calls'⟩ := reply'
  obtain ⟨alike, rfl⟩ := h
  cases alike with
  | success same => rw [← values same]; rfl
  | failure same => rw [← same]; rfl
  | fault same => rw [← same]; rfl

theorem Reply.alike_mapped (change : α → β) (reply : Reply α) :
    reply.Alike exact (fun value value' => change value = value') (reply.mapped change) := by
  obtain ⟨⟨value, start, stop⟩ | reason | cause, calls⟩ := reply
  · exact ⟨.success rfl, rfl⟩
  · exact ⟨.failure rfl, rfl⟩
  · exact ⟨.fault rfl, rfl⟩

theorem Reply.mapped_alike (change : α → β) (reply : Reply α) :
    (reply.mapped change).Alike exact (fun value' value => change value = value') reply := by
  obtain ⟨⟨value, start, stop⟩ | reason | cause, calls⟩ := reply
  · exact ⟨.success rfl, rfl⟩
  · exact ⟨.failure rfl, rfl⟩
  · exact ⟨.fault rfl, rfl⟩

namespace Step

theorem mapped_eq_some {step : Step α} {start calls : Nat} {outcome : Outcome α}
    (change : α → β) (h : step start = some ⟨outcome, calls⟩) :
    step.mapped change start = some ⟨outcome.mapped change, calls⟩ := by
  rw [mapped, h]
  rfl

theorem mapped_eq_none {step : Step α} {start : Nat} (change : α → β) (h : step start = none) :
    step.mapped change start = none := by
  rw [mapped, h]
  rfl

theorem prepend_mapped (change : α → β) (changes : List (α → β)) (value : α) (start : Nat)
    (outcome : Outcome (List α)) :
    prepend (change value) start (outcome.mapped (applyEach changes)) =
      (prepend value start outcome).mapped (applyEach (change :: changes)) := by
  cases outcome <;> rfl

section Items

variable {ι : Type} (items : List ι) (step : ι → Step α)

/-- Each step of a row has its own change, which is that of its component of the values. -/
theorem row_mapped (change : ι → α → β) :
    row (items.map fun item => (step item).mapped (change item)) =
      (row (items.map step)).mapped (applyEach (items.map change)) := by
  induction items with
  | nil => rfl
  | cons item items ih =>
    funext start
    simp only [List.map_cons]
    cases head : step item start with
    | none => simp [row, mapped, head]
    | some reply =>
      obtain ⟨outcome, calls⟩ := reply
      have head' := mapped_eq_some (change item) head
      cases outcome with
      | success result =>
        -- The rest is run from where the first one stops, which no change moves.
        rw [row_cons_success head', ih, mapped, mapped, row_cons_success head,
          Option.map_map, Option.map_map]
        congr 1
        funext tail
        exact congrArg (Reply.mk · _) (prepend_mapped (change item) _ _ start tail.outcome)
      | failure reason => rw [row_cons_failure head', mapped, row_cons_failure head]; rfl
      | fault cause => rw [row_cons_fault head', mapped, row_cons_fault head]; rfl

/-- What is asserted of a row is asserted of its range, which no change moves. -/
theorem inOrder_mapped (change : ι → α → β) :
    inOrder (items.map fun item => (step item).mapped (change item)) =
      (inOrder (items.map step)).mapped (applyEach (items.map change)) := by
  funext start
  rw [inOrder, row_mapped, mapped, mapped, inOrder, Option.map_map, Option.map_map]
  exact congrArg (Option.map · _) (funext (Reply.asserted_mapped _))

/-- The failure of a choice has no value that could be changed. -/
theorem firstOf_mapped {name : String} (change : α → β) :
    firstOf name (items.map fun item => (step item).mapped change) =
      (firstOf name (items.map step)).mapped change := by
  induction items with
  | nil => rfl
  | cons item items ih =>
    funext start
    simp only [List.map_cons]
    cases head : step item start with
    | none => simp [firstOf, mapped, head]
    | some reply =>
      obtain ⟨outcome, calls⟩ := reply
      have head' := mapped_eq_some change head
      cases outcome with
      | success result => rw [firstOf_cons_success head', mapped, firstOf_cons_success head]; rfl
      | failure reason =>
        rw [firstOf_cons_failure head', ih, mapped, mapped, firstOf_cons_failure head,
          Option.map_map, Option.map_map]
        rfl
      | fault cause => rw [firstOf_cons_fault head', mapped, firstOf_cons_fault head]; rfl

end Items

theorem forall₂_iff_map_eq {change : α → β} {values : List α} {values' : List β} :
    List.Forall₂ (fun value value' => change value = value') values values' ↔
      values.map change = values' := by
  rw [← List.forall₂_map_left_iff, List.forall₂_eq_eq_eq]

/-- The rounds of a repetition are found along with those of the repetition with changes, from
either of them. -/
theorem iterate_mapped {item repetition : String} (change : α → β) (step : Step α) :
    iterate item repetition (step.mapped change) =
      Step.mapped (List.map change) (iterate item repetition step) := by
  have follows : Follows exact (fun value value' => change value = value') step
      (step.mapped change) := by
    intro start reply replied
    exact ⟨reply.mapped change, by rw [mapped, replied]; rfl, reply.alike_mapped change⟩
  have precedes : Follows exact (fun value' value => change value = value') (step.mapped change)
      step := by
    intro start reply' replied'
    obtain ⟨reply, replied, rfl⟩ := Option.map_eq_some_iff.1 replied'
    exact ⟨reply, replied, reply.mapped_alike change⟩
  funext start
  cases ends : iterate item repetition step start with
  | some reply =>
    obtain ⟨outcome, calls⟩ := reply
    obtain ⟨reply', ends', alike⟩ := follows.iterate (fun _ => rfl) start _ ends
    rw [ends', mapped_eq_some _ ends, alike.eq_mapped fun each => forall₂_iff_map_eq.1 each]
    rfl
  | none =>
    -- An endless repetition has no reply to start from: its changes cannot end it, since the
    -- repetition without them would end, too.
    rw [mapped_eq_none _ ends]
    refine Option.eq_none_iff_forall_ne_some.2 fun reply' ends' => ?_
    obtain ⟨_, again, -⟩ := precedes.iterate (fun _ => rfl) start reply' ends'
    rw [ends] at again
    cases again

end Step

/-! ### Changes in parsers -/

namespace Parser

variable {rules : Rules} {input : String}

/-- Two parsers with one name that reply alike, whatever the rules and the input are and
wherever they are run. -/
def Same (parser parser' : Parser) : Prop :=
  parser.name = parser'.name ∧
    ∀ rules input start, parser.runAt rules input start = parser'.runAt rules input start

theorem runAt_mapped (item : Parser) (change : Value → Value) :
    (item.mapped change).runAt rules input = Step.mapped change (item.runAt rules input) :=
  funext fun _ => runAt_map item _

theorem captureOutcome_mapped (change : Value → Value) (outcome : Outcome Value) :
    captureOutcome input (outcome.mapped change) =
      (captureOutcome input outcome).mapped (Value.onInner change) := by
  obtain ⟨value, start, stop⟩ | reason | cause := outcome
  · by_cases within : start ≤ stop ∧ stop ≤ input.utf8ByteSize
    · simp [captureOutcome, within, Value.onInner]
    · simp [captureOutcome, within]
  · rfl
  · rfl

theorem listed_mapped {change : List Value → List Value} {whole : Value → Value}
    (h : ∀ values, whole (.list values) = .list (change values)) (reply : Reply (List Value)) :
    (reply.mapped change).listed = reply.listed.mapped whole := by
  obtain ⟨⟨values, start, stop⟩ | reason | cause, calls⟩ := reply
  · simp [Reply.mapped, h]
  · rfl
  · rfl

theorem same_mapped_id (item : Parser) : (item.mapped id).Same item := by
  refine ⟨rfl, fun rules input start => ?_⟩
  rw [runAt_mapped, Step.mapped]
  cases item.runAt rules input start with
  | none => rfl
  | some reply => simp [Reply.mapped]

theorem same_mapped_mapped (item : Parser) (change further : Value → Value) :
    ((item.mapped change).mapped further).Same (item.mapped (further ∘ change)) := by
  refine ⟨rfl, fun rules input start => ?_⟩
  rw [runAt_mapped, runAt_mapped, runAt_mapped, Step.mapped, Step.mapped, Step.mapped,
    Option.map_map]
  congr 1
  funext reply
  simp [Reply.mapped]

theorem same_many_mapped (item : Parser) (change : Value → Value) :
    (Parser.many (item.mapped change)).Same ((Parser.many item).mapped (.onElements change)) := by
  refine ⟨rfl, fun rules input start => ?_⟩
  have elements : ∀ reply : Reply (List Value),
      (reply.mapped (List.map change)).listed = reply.listed.mapped (.onElements change) :=
    listed_mapped fun _ => rfl
  rw [runAt_mapped, Step.mapped, runAt_many, runAt_many, runAt_mapped, Step.iterate_mapped,
    Step.mapped, Option.map_map, Option.map_map]
  exact congrArg (Option.map · _) (funext elements)

theorem same_alternate_mapped (items : List Parser) (change : Value → Value) :
    (Parser.alternate (items.map fun item => item.mapped change)).Same
      ((Parser.alternate items).mapped change) := by
  have named : (Parser.alternate (items.map fun item => item.mapped change)).name =
      (Parser.alternate items).name := by
    rw [name_alternate, name_alternate, List.map_map]
    rfl
  refine ⟨named, fun rules input start => ?_⟩
  rw [runAt_mapped, Step.mapped, runAt_alternate, runAt_alternate, named, List.map_map]
  simp only [Function.comp_def, runAt_mapped, Step.firstOf_mapped]
  rfl

theorem same_sequence_mapped (pairs : List (Parser × (Value → Value))) :
    (Parser.sequence (pairs.map fun pair => pair.1.mapped pair.2)).Same
      ((Parser.sequence (pairs.map Prod.fst)).mapped (.onComponents (pairs.map Prod.snd))) := by
  have named : (Parser.sequence (pairs.map fun pair => pair.1.mapped pair.2)).name =
      (Parser.sequence (pairs.map Prod.fst)).name := by
    rw [name_sequence, name_sequence, List.map_map, List.map_map]
    rfl
  refine ⟨named, fun rules input start => ?_⟩
  have components : ∀ reply : Reply (List Value),
      (reply.mapped (applyEach (pairs.map Prod.snd))).listed =
        reply.listed.mapped (.onComponents (pairs.map Prod.snd)) :=
    listed_mapped fun _ => rfl
  rw [runAt_mapped, Step.mapped, runAt_sequence, runAt_sequence, List.map_map, List.map_map]
  simp only [Function.comp_def, runAt_mapped, Step.inOrder_mapped]
  rw [Step.mapped, Option.map_map, Option.map_map]
  exact congrArg (Option.map · _) (funext components)

theorem same_capture_mapped (item : Parser) (change : Value → Value) :
    (Parser.capture (item.mapped change)).Same
      ((Parser.capture item).mapped (.onInner change)) := by
  refine ⟨rfl, fun rules input start => ?_⟩
  rw [runAt_mapped, Step.mapped, runAt_capture, runAt_capture, runAt_mapped, Step.mapped,
    Option.map_map, Option.map_map]
  congr 1
  funext reply
  exact congrArg (Reply.mk · _) (captureOutcome_mapped change reply.outcome)

end Parser

/-- **Laws of changes.** A function that is mapped over the values of the items of a
combinator may be mapped over the values of the combinator in its place: over all elements
of a repetition, over the value of a choice, over the components of a sequence one by one,
inside of the span of a capture. The identity may be left out, and changes one after another
are one. In all this the names stay, and the replies with their values, ranges, failures,
faults and numbers of references. The same is true of a result alone: changes in a row are one
change, which is made to the value of a success and to nothing else. -/
theorem same_mapped (item : Parser) (items : List Parser)
    (pairs : List (Parser × (Value → Value))) (change further : Value → Value) :
    (item.mapped id).Same item ∧
    ((item.mapped change).mapped further).Same (item.mapped (further ∘ change)) ∧
    (Parser.many (item.mapped change)).Same ((Parser.many item).mapped (.onElements change)) ∧
    (Parser.alternate (items.map fun item => item.mapped change)).Same
      ((Parser.alternate items).mapped change) ∧
    (Parser.sequence (pairs.map fun pair => pair.1.mapped pair.2)).Same
      ((Parser.sequence (pairs.map Prod.fst)).mapped (.onComponents (pairs.map Prod.snd))) ∧
    (Parser.capture (item.mapped change)).Same
      ((Parser.capture item).mapped (.onInner change)) ∧
    ∀ (changes : List (Value → Value)),
      (∀ outcome : Outcome Value,
        changes.foldl (fun outcome change => outcome.mapped change) outcome =
          outcome.mapped fun value => changes.foldl (fun value change => change value) value) ∧
      (∀ reason, changes.foldl (fun outcome change => Outcome.mapped change outcome)
        (.failure reason) = .failure reason) ∧
      ∀ value start stop, changes.foldl (fun outcome change => Outcome.mapped change outcome)
        (.success ⟨value, start, stop⟩) =
          .success ⟨changes.foldl (fun value change => change value) value, start, stop⟩ := by
  refine ⟨item.same_mapped_id, item.same_mapped_mapped change further,
    item.same_many_mapped change, Parser.same_alternate_mapped items change,
    Parser.same_sequence_mapped pairs, item.same_capture_mapped change, fun changes => ?_⟩
  refine ⟨Outcome.foldl_mapped changes, fun reason => ?_, fun value start stop => ?_⟩
  · rw [Outcome.foldl_mapped, Outcome.mapped_failure]
  · rw [Outcome.foldl_mapped, Outcome.mapped_success]

end Peg
