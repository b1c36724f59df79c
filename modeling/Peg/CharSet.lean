/-!
# Sets of characters

A set of characters is a list of ranges of code points in ascending order, no
two of which overlap or touch. Every operation keeps that form, so equal ranges
are the test for equal sets.

Surrogate code points are no characters. A range may run across them, but no
range begins or ends at one: the code point after `U+D7FF` is `U+E000`.

## Main definitions

* `CodeRange`, `CharSet`.
* `CharSet.contains`: membership of a character.
* `CharSet.union`, `CharSet.inter`, `CharSet.diff`, `CharSet.symmDiff`,
  `CharSet.complement`.

## Main results

* `CharSet.contains_union`: a union has the characters of both sets.
* `CharSet.contains_iff_of_single?`: the one character of a set is its only one.
-/

namespace Peg

/-- The code points from `lo` to `hi`, both included. -/
structure CodeRange where
  lo : Nat
  hi : Nat
  deriving DecidableEq, Repr

namespace CodeRange

/-- A code point lies in a range. -/
def contains (range : CodeRange) (code : Nat) : Bool :=
  decide (range.lo ≤ code) && decide (code ≤ range.hi)

/-- Two ranges overlap, or one begins right after the other ends. -/
def touches (a b : CodeRange) : Bool :=
  decide (max a.lo b.lo ≤ min a.hi b.hi + 1)

/-- The smallest range around two. -/
def hull (a b : CodeRange) : CodeRange :=
  ⟨min a.lo b.lo, max a.hi b.hi⟩

/-- The common code points of two ranges. -/
def inter? (a b : CodeRange) : Option CodeRange :=
  let lo := max a.lo b.lo
  let hi := min a.hi b.hi
  if lo ≤ hi then some ⟨lo, hi⟩ else none

/-- The character after one, as code points. -/
def next (code : Nat) : Nat :=
  if code = 0xD7FF then 0xE000 else code + 1

/-- The character before one, as code points. -/
def previous (code : Nat) : Nat :=
  if code = 0xE000 then 0xD7FF else code - 1

/-- The range between two code points, given in either order. -/
def between (a b : Nat) : CodeRange :=
  ⟨min a b, max a b⟩

/-- What is left of a range without another. -/
def diff (a b : CodeRange) : List CodeRange :=
  if a.hi < b.lo ∨ b.hi < a.lo then [a]
  else
    (if a.lo < b.lo then [⟨a.lo, previous b.lo⟩] else []) ++
      (if b.hi < a.hi then [⟨next b.hi, a.hi⟩] else [])

theorem contains_iff {range : CodeRange} {code : Nat} :
    range.contains code = true ↔ range.lo ≤ code ∧ code ≤ range.hi := by
  simp [contains]

theorem contains_hull {a b : CodeRange} (touch : a.touches b = true) (code : Nat) :
    (a.hull b).contains code = (a.contains code || b.contains code) := by
  rw [touches, decide_eq_true_eq] at touch
  rw [Bool.eq_iff_iff, Bool.or_eq_true, contains_iff, contains_iff, contains_iff]
  simp only [hull]
  omega

end CodeRange

/-- The last code point. -/
def lastCode : Nat :=
  0x10FFFF

/-- A set of characters, as ascending ranges that do not touch. -/
structure CharSet where
  ranges : List CodeRange
  deriving DecidableEq, Repr

namespace CharSet

/-- The set without characters. -/
def empty : CharSet :=
  ⟨[]⟩

/-- The set of all characters. -/
def all : CharSet :=
  ⟨[⟨0, lastCode⟩]⟩

/-- A character belongs to a set when one of the ranges holds it. -/
def contains (set : CharSet) (c : Char) : Bool :=
  set.ranges.any (·.contains c.toNat)

/-- A range put into ascending ranges, joined with those that it touches. -/
def insertRange (range : CodeRange) : List CodeRange → List CodeRange
  | [] => [range]
  | head :: tail =>
    if range.touches head then insertRange (range.hull head) tail
    else if range.lo < head.lo then range :: head :: tail
    else head :: insertRange range tail

/-- The set of some ranges, given in any order. -/
def ofRanges (ranges : List CodeRange) : CharSet :=
  ⟨ranges.foldl (fun set range => insertRange range set) []⟩

/-- The set of one character. -/
def singleton (c : Char) : CharSet :=
  ⟨[⟨c.toNat, c.toNat⟩]⟩

/-- The characters of either set. -/
def union (a b : CharSet) : CharSet :=
  ⟨b.ranges.foldl (fun set range => insertRange range set) a.ranges⟩

/-- The characters of both sets. -/
def inter (a b : CharSet) : CharSet :=
  ⟨a.ranges.flatMap fun range => b.ranges.filterMap range.inter?⟩

/-- The characters of the first set that the second lacks. -/
def diff (a b : CharSet) : CharSet :=
  ⟨b.ranges.foldl (fun left range => left.flatMap (·.diff range)) a.ranges⟩

/-- The characters of exactly one of two sets. -/
def symmDiff (a b : CharSet) : CharSet :=
  (a.union b).diff (a.inter b)

/-- The ranges between ascending ranges, and the one from the last of them to the end. -/
def gapsAfter : CodeRange → List CodeRange → List CodeRange
  | last, [] => if last.hi < lastCode then [⟨CodeRange.next last.hi, lastCode⟩] else []
  | first, second :: rest =>
    .between (CodeRange.next first.hi) (CodeRange.previous second.lo) :: gapsAfter second rest

/-- The characters outside a set. Two ranges with nothing but surrogates between
them leave a gap whose ends, `U+E000` and `U+D7FF`, are taken as they stand. -/
def complement (set : CharSet) : CharSet :=
  match set.ranges with
  | [] => all
  | first :: rest =>
    ⟨(if 0 < first.lo then [⟨0, CodeRange.previous first.lo⟩] else []) ++ gapsAfter first rest⟩

/-- The one character of a set that has no other. -/
def single? (set : CharSet) : Option Char :=
  match set.ranges with
  | [⟨lo, hi⟩] => if lo = hi ∧ lo.isValidChar then some (Char.ofNat lo) else none
  | _ => none

/-- A set without characters. -/
def isEmpty (set : CharSet) : Bool :=
  set.ranges.isEmpty

/-! ### Membership -/

theorem any_contains_insertRange (range : CodeRange) (ranges : List CodeRange) (code : Nat) :
    (insertRange range ranges).any (·.contains code) =
      (range.contains code || ranges.any (·.contains code)) := by
  induction ranges generalizing range with
  | nil => simp [insertRange]
  | cons head tail ih =>
    rw [insertRange]
    split
    · next touch => rw [ih, CodeRange.contains_hull touch, List.any_cons, Bool.or_assoc]
    · split
      · rw [List.any_cons]
      · rw [List.any_cons, ih, List.any_cons, Bool.or_left_comm]

@[simp]
theorem contains_union (a b : CharSet) (c : Char) :
    (a.union b).contains c = (a.contains c || b.contains c) := by
  unfold union contains
  simp only
  generalize a.ranges = ranges
  induction b.ranges generalizing ranges with
  | nil => simp
  | cons range rest ih =>
    rw [List.foldl_cons, ih, any_contains_insertRange, List.any_cons]
    rw [Bool.or_assoc, Bool.or_left_comm]

@[simp]
theorem contains_empty (c : Char) : empty.contains c = false :=
  rfl

theorem contains_of_isEmpty {set : CharSet} {c : Char} (h : set.isEmpty = true) :
    set.contains c = false := by
  rw [contains, List.isEmpty_iff.1 h, List.any_nil]

theorem contains_foldl_union (sets : List CharSet) (start : CharSet) (c : Char) :
    (sets.foldl union start).contains c = (start.contains c || sets.any (·.contains c)) := by
  induction sets generalizing start with
  | nil => simp
  | cons set sets ih => rw [List.foldl_cons, ih, contains_union, List.any_cons, Bool.or_assoc]

@[simp]
theorem contains_singleton_iff {c d : Char} : (singleton c).contains d = true ↔ d = c := by
  rw [← Char.toNat_inj]
  simp only [singleton, contains, List.any_cons, List.any_nil, Bool.or_false,
    CodeRange.contains_iff]
  omega

/-- The one character of a set is the only one that belongs to it. -/
theorem contains_iff_of_single? {set : CharSet} {c d : Char} (h : set.single? = some c) :
    set.contains d = true ↔ d = c := by
  unfold single? at h
  split at h
  · next lo hi same =>
    split at h
    · next valid =>
      obtain ⟨rfl, valid⟩ := valid
      obtain rfl := Option.some.inj h
      have code : (Char.ofNat lo).toNat = lo := by
        rw [Char.ofNat, dif_pos valid]
        rfl
      rw [← Char.toNat_inj, code]
      simp only [contains, same, List.any_cons, List.any_nil, Bool.or_false,
        CodeRange.contains_iff]
      omega
    · cases h
  · cases h

end CharSet

end Peg
