import Peg.Proofs.Regex.Contents
import Peg.Proofs.Regex.Matches

/-!
# Ways through an expression

An expression can match in several ways. A way takes turns at the parts of the
expression: at an alternation it takes one of the branches, at a repetition it goes
on or stops. Ways are compared where they first differ, and there the one that takes
the earlier choice is preferred. An alternation offers its branches in order, a
greedy repetition offers first to go on, and a lazy one to stop.

The parts are numbered in the order in which they stand. A part that is to match a
fixed number of times, or up to a number of times, stands there as often, each time
with numbers of its own.

## Main definitions

* `Turn`: what a way does at a part of an expression.
* `Expr.Way`: the ways of an expression from one place to another.
* `Turn.Before`: the order of preference.
* `Turn.AreDirect`: a way that comes to no part twice at the same place.
* `Expr.DirectWay`, `Expr.StoppingWay`: two ways to bound the rounds that read nothing.
* `IsFirst`: the end of the way that is preferred to all others.

## Main results

* `Expr.Way.matches`, `Expr.Matches.exists_way`: there is a way where an expression
  matches, and nowhere else.
-/

namespace Peg.Regex

/-- What a way does at a part of an expression: the number of the part, the place in
the text, and which choice is taken there, counted from the preferred one. -/
structure Turn where
  part : Nat
  place : Place
  choice : Nat
  deriving DecidableEq, Repr

namespace Turn

/-- A way is preferred to another if it takes the earlier choice where they part. -/
def Before (turns others : List Turn) : Prop :=
  ∃ shared part place choice later rest rest', choice < later ∧
    turns = shared ++ ⟨part, place, choice⟩ :: rest ∧
      others = shared ++ ⟨part, place, later⟩ :: rest'

/-- A way that never comes to a part at a place where it has been at that part before. -/
def AreDirect (turns : List Turn) : Prop :=
  turns.Pairwise fun turn later => turn.part = later.part → turn.place ≠ later.place

section Before

variable {turns others third : List Turn}

/-- Where two ways have parted, it does not matter how they go on. -/
theorem Before.append (h : Before turns others) (rest rest' : List Turn) :
    Before (turns ++ rest) (others ++ rest') := by
  obtain ⟨shared, part, place, choice, later, tail, tail', less, rfl, rfl⟩ := h
  exact ⟨shared, part, place, choice, later, tail ++ rest, tail' ++ rest', less, by simp, by simp⟩

theorem Before.trans (first : Before turns others) (second : Before others third) :
    Before turns third := by
  obtain ⟨shared, part, place, choice, later, rest, rest', less, rfl, rfl⟩ := first
  obtain ⟨front, part', place', choice', later', tail, tail', less', same, rfl⟩ := second
  -- The first and the third way part where the earlier of the two partings is.
  obtain ⟨between, rfl, ends⟩ | ⟨between, rfl, ends⟩ := List.append_eq_append_iff.1 same
  · cases between with
    | nil =>
      obtain ⟨⟨rfl, rfl, rfl⟩, rfl⟩ : (part = part' ∧ place = place' ∧ later = choice') ∧
          rest' = tail := by simpa using ends
      exact ⟨shared, part, place, choice, later', rest, tail', Nat.lt_trans less less', rfl,
        by simp⟩
    | cons turn between =>
      obtain ⟨rfl, rfl⟩ : ⟨part, place, later⟩ = turn ∧
          rest' = between ++ ⟨part', place', choice'⟩ :: tail := by simpa using ends
      exact ⟨shared, part, place, choice, later, rest, _, less, rfl, List.append_assoc _ _ _⟩
  · cases between with
    | nil =>
      obtain ⟨⟨rfl, rfl, rfl⟩, rfl⟩ : (part' = part ∧ place' = place ∧ choice' = later) ∧
          tail = rest' := by simpa using ends
      exact ⟨front, part', place', choice, later', rest, tail', Nat.lt_trans less less',
        by simp, rfl⟩
    | cons turn between =>
      obtain ⟨rfl, -⟩ : ⟨part', place', choice'⟩ = turn ∧
          tail = between ++ ⟨part, place, later⟩ :: rest' := by simpa using ends
      exact ⟨front, part', place', choice', later', _, tail', less', List.append_assoc _ _ _, rfl⟩

theorem Before.asymm (h : Before turns others) : ¬ Before others turns := by
  intro back
  obtain ⟨shared, part, place, choice, later, rest, rest', less, same, same'⟩ := h.trans back
  have agree := List.append_cancel_left (same.symm.trans same')
  have equal : choice = later := by simpa using congrArg List.head? agree
  omega

end Before

end Turn

/-- The ways from one place to another, by the turns that are taken. -/
abbrev Ways :=
  Place → List Turn → Place → Prop

namespace Ways

/-- Nothing is done. -/
def stay : Ways :=
  fun p turns q => turns = [] ∧ p = q

/-- The ways that go on where others end. -/
def andThen (first second : Ways) : Ways :=
  fun p turns q => ∃ r begin rest, first p begin r ∧ second r rest q ∧ turns = begin ++ rest

/-- A choice is taken at a part, and nothing else is done. -/
def turn (part choice : Nat) : Ways :=
  fun p turns q => turns = [⟨part, p, choice⟩] ∧ p = q

/-- A character of a set is read at a part. -/
def read (part : Nat) (chars : CharSet) : Ways :=
  fun p turns q => turns = [⟨part, p, 0⟩] ∧ ∃ c, chars.contains c = true ∧ p.Reads [c] q

/-- A condition holds at a part. -/
def check (part : Nat) (place : Look) : Ways :=
  fun p turns q => turns = [⟨part, p, 0⟩] ∧ place.HoldsAt p ∧ p = q

/-- The ways of either kind. -/
def either (first second : Ways) : Ways :=
  fun p turns q => first p turns q ∨ second p turns q

/-- Some characters are read one after another. -/
def readAll (base : Nat) : List Char → Ways
  | [] => stay
  | c :: cs => (read base (.singleton c)).andThen (readAll (base + 1) cs)

/-- The choice to go on with a repetition, which is the preferred one if it is greedy. -/
def goOn (greedy : Bool) : Nat :=
  if greedy then 0 else 1

/-- The choice to stop a repetition. -/
def stop (greedy : Bool) : Nat :=
  if greedy then 1 else 0

/-- A body of `size` parts a fixed number of times. -/
def copies (size : Nat) (body : Nat → Ways) : Nat → Nat → Ways
  | 0, _ => stay
  | count + 1, base => (body base).andThen (copies size body count (base + size))

/-- A body of `size` parts at most so many times, with a choice before each of them. -/
def options (greedy : Bool) (size : Nat) (body : Nat → Ways) : Nat → Nat → Ways
  | 0, _ => stay
  | count + 1, base =>
    either (turn base (stop greedy)) <|
      (turn base (goOn greedy)).andThen <|
        (body (base + 1)).andThen (options greedy size body count (base + 1 + size))

/-- A body once or more, with a choice at the part `choice` after each of them. There
is another round only if `more` holds between the places where the last one began
and ended. -/
inductive loop (more : Place → Place → Prop) (greedy : Bool) (choice : Nat) (body : Ways) : Ways
  | last {p r begin} (round : body p begin r) :
    loop more greedy choice body p (begin ++ [⟨choice, r, stop greedy⟩]) r
  | again {p q r begin rest} (round : body p begin r) (goes : more p r)
    (others : loop more greedy choice body r rest q) :
    loop more greedy choice body p (begin ++ ⟨choice, r, goOn greedy⟩ :: rest) q

end Ways

namespace Expr

mutual

/-- The ways of an expression whose parts are numbered from `base`. A repetition
without bound has another round after one from `p` to `q` only if `more p q`. -/
def Way (more : Place → Place → Prop) (base : Nat) : Expr → Ways
  | .empty => .stay
  | .literal chars => .readAll base chars
  | .set _ chars => .read base chars
  | .look place => .check base place
  | .repetition min (some max) greedy body =>
    (Ways.copies body.size (fun base => Way more base body) min base).andThen
      (.options greedy body.size (fun base => Way more base body) (max - min)
        (base + min * body.size))
  | .repetition 0 none greedy body =>
    .either (.turn base (Ways.stop greedy)) <|
      (Ways.turn base (Ways.goOn greedy)).andThen <|
        .loop more greedy (base + 1 + body.size) (Way more (base + 1) body)
  | .repetition (min + 1) none greedy body =>
    (Ways.copies body.size (fun base => Way more base body) min base).andThen
      (.loop more greedy (base + min * body.size + body.size)
        (Way more (base + min * body.size) body))
  | .capture _ body => Way more base body
  | .concat items => AllWay more base items
  | .alternation branches => BranchWay more base 0 (base + 1) branches

/-- The ways of several expressions one after another. -/
def AllWay (more : Place → Place → Prop) (base : Nat) : List Expr → Ways
  | [] => .stay
  | item :: items => (Way more base item).andThen (AllWay more (base + item.size) items)

/-- The ways of one of several branches, the first of which has the number `index`.
The choice is taken at the part `choice`, and the end of a branch is a part, too. -/
def BranchWay (more : Place → Place → Prop) (choice index base : Nat) : List Expr → Ways
  | [] => fun _ _ _ => False
  | branch :: branches =>
    .either
      ((Ways.turn choice index).andThen <|
        (Way more base branch).andThen (.turn (base + branch.size) 0))
      (BranchWay more choice (index + 1) (base + branch.size + 1) branches)

end

/-- A way that comes to no part twice at one place. -/
def DirectWay (expr : Expr) : Ways :=
  fun p turns q => expr.Way (fun _ _ => True) 0 p turns q ∧ Turn.AreDirect turns

/-- A way in which a round that reads nothing is the last one of its repetition. -/
def StoppingWay (expr : Expr) : Ways :=
  expr.Way (fun p q => p ≠ q) 0

end Expr

/-- A place is the end of the first of some ways, which is before all others. -/
def IsFirst (ways : List Turn → Place → Prop) (q : Place) : Prop :=
  ∃ turns, ways turns q ∧
    ∀ others r, ways others r → others = turns ∧ r = q ∨ Turn.Before turns others

theorem IsFirst.unique {ways : List Turn → Place → Prop} {q r : Place} (h : IsFirst ways q)
    (h' : IsFirst ways r) : q = r := by
  obtain ⟨turns, way, least⟩ := h
  obtain ⟨others, way', least'⟩ := h'
  obtain ⟨-, same⟩ | before := least others r way'
  · exact same.symm
  · obtain ⟨-, same⟩ | after := least' turns q way
    · exact same
    · exact absurd after before.asymm

namespace Ways

section Times

variable {rel : Place → Place → Prop} {size : Nat} {body : Nat → Ways} {count base : Nat}
  {p q : Place} {turns : List Turn}

theorem times_of_copies (sound : ∀ base p turns q, body base p turns q → rel p q)
    (h : copies size body count base p turns q) : Times rel count p q := by
  induction count generalizing base p turns with
  | zero => exact h.2
  | succ count ih =>
    obtain ⟨r, begin, rest, first, others, -⟩ := h
    exact ⟨r, sound _ _ _ _ first, ih others⟩

theorem exists_copies (complete : ∀ base p q, rel p q → ∃ turns, body base p turns q)
    (h : Times rel count p q) : ∃ turns, copies size body count base p turns q := by
  induction count generalizing base p with
  | zero => exact ⟨[], rfl, h⟩
  | succ count ih =>
    obtain ⟨r, first, others⟩ := h
    obtain ⟨begin, first⟩ := complete base p r first
    obtain ⟨rest, others⟩ := ih others
    exact ⟨begin ++ rest, r, begin, rest, first, others, rfl⟩

theorem times_of_options {greedy : Bool} (sound : ∀ base p turns q, body base p turns q → rel p q)
    (h : options greedy size body count base p turns q) : ∃ times ≤ count, Times rel times p q := by
  induction count generalizing base p turns with
  | zero => exact ⟨0, Nat.le_refl 0, h.2⟩
  | succ count ih =>
    obtain ⟨-, stays⟩ | ⟨r, _, _, ⟨-, rfl⟩, ⟨s, _, _, first, others, -⟩, -⟩ := h
    · exact ⟨0, Nat.zero_le _, stays⟩
    · obtain ⟨times, fewer, others⟩ := ih others
      exact ⟨times + 1, Nat.succ_le_succ fewer, s, sound _ _ _ _ first, others⟩

theorem exists_options {greedy : Bool} {times : Nat} (within : times ≤ count)
    (complete : ∀ base p q, rel p q → ∃ turns, body base p turns q) (h : Times rel times p q) :
    ∃ turns, options greedy size body count base p turns q := by
  induction count generalizing base p times with
  | zero =>
    obtain rfl := Nat.le_zero.1 within
    exact ⟨[], rfl, h⟩
  | succ count ih =>
    cases times with
    | zero => exact ⟨_, .inl ⟨rfl, h⟩⟩
    | succ times =>
      obtain ⟨r, first, others⟩ := h
      obtain ⟨begin, first⟩ := complete (base + 1) p r first
      obtain ⟨rest, others⟩ := ih (Nat.le_of_succ_le_succ within) others
      exact ⟨_, .inr ⟨p, _, _, ⟨rfl, rfl⟩, ⟨r, begin, rest, first, others, rfl⟩, rfl⟩⟩

variable {more : Place → Place → Prop} {greedy : Bool} {choice : Nat} {round : Ways}

theorem times_of_loop (sound : ∀ p turns q, round p turns q → rel p q)
    (h : loop more greedy choice round p turns q) : ∃ times, Times rel (times + 1) p q := by
  induction h with
  | last first => exact ⟨0, _, sound _ _ _ first, rfl⟩
  | again first _ _ ih =>
    obtain ⟨times, others⟩ := ih
    exact ⟨times + 1, _, sound _ _ _ first, others⟩

theorem exists_loop {times : Nat} (goes : ∀ p q, more p q)
    (complete : ∀ p q, rel p q → ∃ turns, round p turns q) (h : Times rel (times + 1) p q) :
    ∃ turns, loop more greedy choice round p turns q := by
  induction times generalizing p with
  | zero =>
    obtain ⟨r, first, rfl⟩ := h
    obtain ⟨begin, first⟩ := complete p r first
    exact ⟨_, .last first⟩
  | succ times ih =>
    obtain ⟨r, first, others⟩ := h
    obtain ⟨begin, first⟩ := complete p r first
    obtain ⟨rest, others⟩ := ih others
    exact ⟨_, .again first (goes p r) others⟩

end Times

theorem reads_of_readAll {base : Nat} {chars : List Char} {p q : Place} {turns : List Turn}
    (h : readAll base chars p turns q) : p.Reads chars q := by
  induction chars generalizing base p turns with
  | nil => exact Place.reads_nil_iff.2 h.2
  | cons c chars ih =>
    obtain ⟨r, _, _, ⟨-, d, same, first⟩, others, -⟩ := h
    obtain rfl := CharSet.contains_singleton_iff.1 same
    exact first.trans (ih others)

theorem exists_readAll {chars : List Char} {p q : Place} (h : p.Reads chars q) (base : Nat) :
    ∃ turns, readAll base chars p turns q := by
  induction chars generalizing base p with
  | nil => exact ⟨[], rfl, Place.reads_nil_iff.1 h⟩
  | cons c chars ih =>
    have split : p.Reads ([c] ++ chars) q := h
    obtain ⟨r, first, others⟩ := Place.reads_append_iff.1 split
    obtain ⟨rest, others⟩ := ih others (base + 1)
    have same : (CharSet.singleton c).contains c = true := CharSet.contains_singleton_iff.2 rfl
    exact ⟨_, r, _, rest, ⟨rfl, c, same, first⟩, others, rfl⟩

end Ways

namespace Expr

section Matches

variable {more : Place → Place → Prop}

mutual

/-- An expression matches where it has a way. -/
theorem Way.matches {expr : Expr} (inOrder : expr.Within .ordered) {base : Nat} {p q : Place}
    {turns : List Turn} (h : expr.Way more base p turns q) : expr.Matches p q := by
  match expr with
  | .empty => exact h.2
  | .literal chars => exact Ways.reads_of_readAll h
  | .set _ chars => exact h.2
  | .look place => exact h.2
  | .repetition min (some max) greedy body =>
    have sound : ∀ base p turns q, body.Way more base p turns q → body.Matches p q :=
      fun _ _ _ _ way => Way.matches inOrder.2 way
    obtain ⟨r, _, _, copied, optional, -⟩ := h
    have first := Ways.times_of_copies sound copied
    obtain ⟨times, within, rest⟩ := Ways.times_of_options sound optional
    refine ⟨min + times, Nat.le_add_right min times, ?_, Times.add_iff.2 ⟨r, first, rest⟩⟩
    rintro most same
    obtain rfl := Option.some.inj same
    have least : min ≤ max := inOrder.1 max rfl
    omega
  | .repetition 0 none greedy body =>
    have sound : ∀ p turns q, body.Way more (base + 1) p turns q → body.Matches p q :=
      fun _ _ _ way => Way.matches inOrder.2 way
    obtain ⟨-, stays⟩ | ⟨_, _, _, ⟨-, rfl⟩, looped, -⟩ := h
    · exact ⟨0, Nat.le_refl 0, nofun, stays⟩
    · obtain ⟨times, rounds⟩ := Ways.times_of_loop sound looped
      exact ⟨times + 1, Nat.zero_le _, nofun, rounds⟩
  | .repetition (min + 1) none greedy body =>
    have sound : ∀ base p turns q, body.Way more base p turns q → body.Matches p q :=
      fun _ _ _ _ way => Way.matches inOrder.2 way
    obtain ⟨r, _, _, copied, looped, -⟩ := h
    have first := Ways.times_of_copies sound copied
    obtain ⟨times, rest⟩ := Ways.times_of_loop (sound _) looped
    exact ⟨min + (times + 1), by omega, nofun, Times.add_iff.2 ⟨r, first, rest⟩⟩
  | .capture index body =>
    have inner : body.Way more base p turns q := h
    have inside : body.Within .ordered := inOrder
    exact Way.matches inside inner
  | .concat items => exact AllWay.allMatch inOrder h
  | .alternation branches => exact BranchWay.anyMatches inOrder h

/-- The same for expressions one after another. -/
theorem AllWay.allMatch {items : List Expr} (inOrder : AllWithin .ordered items) {base : Nat}
    {p q : Place} {turns : List Turn} (h : AllWay more base items p turns q) :
    AllMatch items p q := by
  match items with
  | [] => exact h.2
  | item :: items =>
    obtain ⟨r, _, _, first, rest, -⟩ := h
    exact ⟨r, Way.matches inOrder.1 first, AllWay.allMatch inOrder.2 rest⟩

/-- The same for branches. -/
theorem BranchWay.anyMatches {branches : List Expr} (inOrder : AllWithin .ordered branches)
    {choice index base : Nat} {p q : Place} {turns : List Turn}
    (h : BranchWay more choice index base branches p turns q) : AnyMatches branches p q := by
  match branches with
  | [] => exact h.elim
  | branch :: branches =>
    obtain ⟨_, _, _, ⟨-, rfl⟩, ⟨r, _, _, first, ⟨-, rfl⟩, -⟩, -⟩ | rest := h
    · exact .inl (Way.matches inOrder.1 first)
    · exact .inr (BranchWay.anyMatches inOrder.2 rest)

end

mutual

/-- Where an expression matches there is a way, if every round may be followed by another. -/
theorem Matches.exists_way (goes : ∀ p q, more p q) {expr : Expr}
    (inOrder : expr.Within .ordered) {p q : Place} (h : expr.Matches p q) (base : Nat) :
    ∃ turns, expr.Way more base p turns q := by
  match expr with
  | .empty => exact ⟨[], rfl, h⟩
  | .literal chars => exact Ways.exists_readAll h base
  | .set _ chars => exact ⟨_, rfl, h⟩
  | .look place => exact ⟨_, rfl, h⟩
  | .repetition min (some max) greedy body =>
    have complete : ∀ base p q, body.Matches p q → ∃ turns, body.Way more base p turns q :=
      fun base _ _ matched => Matches.exists_way goes inOrder.2 matched base
    obtain ⟨count, least, most, times⟩ := h
    have within : count ≤ max := most max rfl
    obtain ⟨others, rfl⟩ := Nat.exists_eq_add_of_le least
    obtain ⟨r, first, rest⟩ := Times.add_iff.1 times
    obtain ⟨begin, copied⟩ := Ways.exists_copies complete first
    have fewer : others ≤ max - min := by omega
    obtain ⟨rest, optional⟩ := Ways.exists_options fewer complete rest
    exact ⟨begin ++ rest, r, begin, rest, copied, optional, rfl⟩
  | .repetition 0 none greedy body =>
    have complete : ∀ p q, body.Matches p q → ∃ turns, body.Way more (base + 1) p turns q :=
      fun _ _ matched => Matches.exists_way goes inOrder.2 matched (base + 1)
    obtain ⟨count, -, -, times⟩ := h
    cases count with
    | zero => exact ⟨_, .inl ⟨rfl, times⟩⟩
    | succ count =>
      obtain ⟨rest, looped⟩ := Ways.exists_loop goes complete times
      exact ⟨_, .inr ⟨p, _, rest, ⟨rfl, rfl⟩, looped, rfl⟩⟩
  | .repetition (min + 1) none greedy body =>
    have complete : ∀ base p q, body.Matches p q → ∃ turns, body.Way more base p turns q :=
      fun base _ _ matched => Matches.exists_way goes inOrder.2 matched base
    obtain ⟨count, least, -, times⟩ := h
    obtain ⟨others, rfl⟩ := Nat.exists_eq_add_of_le least
    -- The last copy that must be there is the first round of the loop.
    rw [show min + 1 + others = min + (others + 1) by omega] at times
    obtain ⟨r, first, rest⟩ := Times.add_iff.1 times
    obtain ⟨begin, copied⟩ := Ways.exists_copies complete first
    obtain ⟨rest, looped⟩ := Ways.exists_loop goes (complete _) rest
    exact ⟨begin ++ rest, r, begin, rest, copied, looped, rfl⟩
  | .capture index body =>
    have inner : body.Matches p q := h
    have inside : body.Within .ordered := inOrder
    obtain ⟨turns, way⟩ := Matches.exists_way goes inside inner base
    exact ⟨turns, way⟩
  | .concat items => exact AllMatch.exists_allWay goes inOrder h base
  | .alternation branches => exact AnyMatches.exists_branchWay goes inOrder h base 0 (base + 1)

/-- The same for expressions one after another. -/
theorem AllMatch.exists_allWay (goes : ∀ p q, more p q) {items : List Expr}
    (inOrder : AllWithin .ordered items) {p q : Place} (h : AllMatch items p q) (base : Nat) :
    ∃ turns, AllWay more base items p turns q := by
  match items with
  | [] => exact ⟨[], rfl, h⟩
  | item :: items =>
    obtain ⟨r, first, rest⟩ := h
    obtain ⟨begin, first⟩ := Matches.exists_way goes inOrder.1 first base
    obtain ⟨rest, others⟩ := AllMatch.exists_allWay goes inOrder.2 rest (base + item.size)
    exact ⟨begin ++ rest, r, begin, rest, first, others, rfl⟩

/-- The same for branches. -/
theorem AnyMatches.exists_branchWay (goes : ∀ p q, more p q) {branches : List Expr}
    (inOrder : AllWithin .ordered branches) {p q : Place} (h : AnyMatches branches p q)
    (choice index base : Nat) : ∃ turns, BranchWay more choice index base branches p turns q := by
  match branches with
  | [] => exact h.elim
  | branch :: branches =>
    obtain first | rest := h
    · obtain ⟨turns, first⟩ := Matches.exists_way goes inOrder.1 first base
      exact ⟨_, .inl ⟨p, _, _, ⟨rfl, rfl⟩, ⟨q, turns, _, first, ⟨rfl, rfl⟩, rfl⟩, rfl⟩⟩
    · obtain ⟨turns, rest⟩ := AnyMatches.exists_branchWay goes inOrder.2 rest choice (index + 1)
        (base + branch.size + 1)
      exact ⟨turns, .inr rest⟩

end

end Matches

end Expr

end Peg.Regex
