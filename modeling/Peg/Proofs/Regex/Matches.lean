import Peg.Regex.Search

/-!
# What an expression matches

An expression relates the places of a text: from one place it matches the
characters up to another. A condition is judged by the whole text, so a place
knows what stands before it and what stands after it.

## Main definitions

* `Place`: a place in a text.
* `Place.Reads`: the characters between two places.
* `Times`: a relation a number of times in a row.
* `Expr.Matches`: from which place to which an expression matches.

## Main results

* `Expr.Matches.reads`: what is matched stands between the two places.
-/

namespace Peg.Regex

/-- A place in a text, by the characters before it and those after it. -/
structure Place where
  before : List Char
  after : List Char
  deriving DecidableEq, Repr

namespace Place

/-- Some characters stand between two places of one text. -/
def Reads (p : Place) (found : List Char) (q : Place) : Prop :=
  p.after = found ++ q.after ∧ q.before = p.before ++ found

variable {p q r : Place} {found more : List Char}

@[simp]
theorem reads_nil_iff : p.Reads [] q ↔ p = q := by
  obtain ⟨before, after⟩ := p
  obtain ⟨before', after'⟩ := q
  simp [Reads, and_comm, eq_comm]

theorem Reads.trans (first : p.Reads found r) (second : r.Reads more q) :
    p.Reads (found ++ more) q := by
  obtain ⟨ahead, behind⟩ := first
  obtain ⟨ahead', behind'⟩ := second
  exact ⟨by rw [ahead, ahead', List.append_assoc], by rw [behind', behind, List.append_assoc]⟩

theorem reads_append_iff : p.Reads (found ++ more) q ↔ ∃ r, p.Reads found r ∧ r.Reads more q := by
  constructor
  · intro ⟨ahead, behind⟩
    refine ⟨⟨p.before ++ found, more ++ q.after⟩, ⟨?_, rfl⟩, rfl, ?_⟩
    · rw [ahead, List.append_assoc]
    · rw [behind, List.append_assoc]
  · intro ⟨r, first, second⟩
    exact first.trans second

end Place

/-- A condition holds at a place. -/
def Look.HoldsAt (look : Look) (p : Place) : Prop :=
  look.holds p.before.getLast? p.after.head? = true

/-- A relation a number of times in a row. -/
def Times (body : Place → Place → Prop) : Nat → Place → Place → Prop
  | 0, p, q => p = q
  | count + 1, p, q => ∃ r, body p r ∧ Times body count r q

namespace Expr

mutual

/-- An expression matches what stands between two places. -/
def Matches : Expr → Place → Place → Prop
  | .empty, p, q => p = q
  | .literal chars, p, q => p.Reads chars q
  | .set _ chars, p, q => ∃ c, chars.contains c = true ∧ p.Reads [c] q
  | .look place, p, q => place.HoldsAt p ∧ p = q
  | .repetition min max _ body, p, q =>
    ∃ count, min ≤ count ∧ (∀ most, max = some most → count ≤ most) ∧
      Times (fun p q => Matches body p q) count p q
  | .capture _ body, p, q => Matches body p q
  | .concat items, p, q => AllMatch items p q
  | .alternation branches, p, q => AnyMatches branches p q

/-- Several expressions match one after another. -/
def AllMatch : List Expr → Place → Place → Prop
  | [], p, q => p = q
  | item :: items, p, q => ∃ r, Matches item p r ∧ AllMatch items r q

/-- One of several expressions matches. -/
def AnyMatches : List Expr → Place → Place → Prop
  | [], _, _ => False
  | branch :: branches, p, q => Matches branch p q ∨ AnyMatches branches p q

end

variable {p q : Place}

theorem allMatch_singleton_iff {item : Expr} : AllMatch [item] p q ↔ item.Matches p q := by
  simp [AllMatch]

theorem allMatch_append_iff {items more : List Expr} :
    AllMatch (items ++ more) p q ↔ ∃ r, AllMatch items p r ∧ AllMatch more r q := by
  induction items generalizing p with
  | nil => simp [AllMatch]
  | cons item items ih =>
    simp only [List.cons_append, AllMatch, ih]
    constructor
    · rintro ⟨r, first, s, second, rest⟩
      exact ⟨s, ⟨r, first, second⟩, rest⟩
    · rintro ⟨s, ⟨r, first, second⟩, rest⟩
      exact ⟨r, first, s, second, rest⟩

theorem anyMatches_iff {branches : List Expr} :
    AnyMatches branches p q ↔ ∃ branch ∈ branches, branch.Matches p q := by
  induction branches with
  | nil => simp [AnyMatches]
  | cons branch branches ih => simp [AnyMatches, ih]

end Expr

namespace Times

variable {body : Place → Place → Prop} {count : Nat} {p q : Place}

/-- What holds between the ends of each time, and is handed on, holds between the
ends of all of them. -/
theorem induction {motive : Nat → Place → Place → Prop} (zero : ∀ p, motive 0 p p)
    (succ : ∀ count p r q, body p r → motive count r q → motive (count + 1) p q)
    (h : Times body count p q) : motive count p q := by
  induction count generalizing p with
  | zero =>
    obtain rfl := h
    exact zero p
  | succ count ih =>
    obtain ⟨r, first, rest⟩ := h
    exact succ count p r q first (ih rest)

theorem add_iff {more : Nat} :
    Times body (count + more) p q ↔ ∃ r, Times body count p r ∧ Times body more r q := by
  induction count generalizing p with
  | zero => simp [Times]
  | succ count ih =>
    rw [Nat.succ_add]
    simp only [Times, ih]
    constructor
    · rintro ⟨r, first, s, second, rest⟩
      exact ⟨s, ⟨r, first, second⟩, rest⟩
    · rintro ⟨s, ⟨r, first, second⟩, rest⟩
      exact ⟨r, first, s, second, rest⟩

/-- If a body never leaves its place, it happens any number of times if it does once. -/
theorem iff_of_still (still : ∀ p q, body p q → p = q) :
    Times body count p q ↔ count = 0 ∧ p = q ∨ 0 < count ∧ body p q := by
  constructor
  · intro h
    refine h.induction (motive := fun count p q =>
      count = 0 ∧ p = q ∨ 0 < count ∧ body p q) (fun p => .inl ⟨rfl, rfl⟩) ?_
    -- The other times stay at the place where the first one did.
    rintro count p r q first (⟨-, stays⟩ | ⟨-, later⟩)
    · exact .inr ⟨Nat.succ_pos count, stays ▸ first⟩
    · have stays : p = r := still p r first
      exact .inr ⟨Nat.succ_pos count, stays ▸ later⟩
  · rintro (⟨rfl, stays⟩ | ⟨some, once⟩)
    · exact stays
    · obtain rfl := still p q once
      induction count with
      | zero => exact absurd some (Nat.lt_irrefl 0)
      | succ count ih =>
        obtain rfl | more := Nat.eq_zero_or_pos count
        · exact ⟨p, once, rfl⟩
        · exact ⟨p, once, ih more⟩

end Times

namespace Expr

mutual

/-- What an expression matches stands between the two places. -/
theorem Matches.reads {expr : Expr} {p q : Place} (h : expr.Matches p q) :
    ∃ found, p.Reads found q := by
  match expr with
  | .empty => exact ⟨[], Place.reads_nil_iff.2 h⟩
  | .literal chars => exact ⟨chars, h⟩
  | .set _ chars =>
    obtain ⟨c, -, reads⟩ := h
    exact ⟨[c], reads⟩
  | .look place => exact ⟨[], Place.reads_nil_iff.2 h.2⟩
  | .repetition min max greedy body =>
    obtain ⟨count, -, -, times⟩ := h
    refine times.induction (motive := fun _ p q => ∃ found, p.Reads found q) ?_ ?_
    · exact fun p => ⟨[], Place.reads_nil_iff.2 rfl⟩
    · intro count p r q first ⟨more, rest⟩
      have inner : body.Matches p r := first
      obtain ⟨found, first⟩ := Matches.reads inner
      exact ⟨found ++ more, first.trans rest⟩
  | .capture index body =>
    have inner : body.Matches p q := h
    exact Matches.reads inner
  | .concat items =>
    have inner : AllMatch items p q := h
    exact AllMatch.reads inner
  | .alternation branches =>
    have inner : AnyMatches branches p q := h
    exact AnyMatches.reads inner

/-- The same for expressions one after another. -/
theorem AllMatch.reads {items : List Expr} {p q : Place} (h : AllMatch items p q) :
    ∃ found, p.Reads found q := by
  match items with
  | [] => exact ⟨[], Place.reads_nil_iff.2 h⟩
  | item :: items =>
    obtain ⟨r, first, rest⟩ := h
    obtain ⟨found, first⟩ := Matches.reads first
    obtain ⟨more, rest⟩ := AllMatch.reads rest
    exact ⟨found ++ more, first.trans rest⟩

/-- The same for branches. -/
theorem AnyMatches.reads {branches : List Expr} {p q : Place} (h : AnyMatches branches p q) :
    ∃ found, p.Reads found q := by
  match branches with
  | [] => exact h.elim
  | branch :: branches =>
    obtain first | rest := h
    · exact Matches.reads first
    · exact AnyMatches.reads rest

end

end Expr

end Peg.Regex
