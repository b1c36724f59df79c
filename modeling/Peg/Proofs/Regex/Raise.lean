import Peg.Proofs.Regex.Preference

/-!
# Numbers of parts

The parts of an expression are numbered from where it stands in another one. The ways
through it are the same wherever it stands, with higher numbers. They keep to the
numbers of its parts, and where two of them are not the same they part at some choice.

## Main definitions

* `Ways.raise`: ways through parts with higher numbers.
* `Ways.AreWithin`, `Ways.AreComparable`: ways that keep to the parts of a range, and
  ways one of which is always before the other.

## Main results

* `Expr.raise_way`: the ways are the same wherever the numbers begin.
* `Expr.areWithin_way`, `Expr.areComparable_way`: what is said of the runs of a program
  holds of the ways of its expression.
-/

namespace Peg.Regex

/-! ### Other numbers for the parts -/

/-- The same turn at a part with a higher number. -/
def Turn.raise (shift : Nat) (turn : Turn) : Turn :=
  { turn with part := turn.part + shift }

namespace Ways

/-- The same ways through parts with higher numbers. -/
def raise (shift : Nat) (ways : Ways) : Ways :=
  fun p turns q => ∃ others, ways p others q ∧ turns = others.map (Turn.raise shift)

variable {shift : Nat} {first second : Ways}

theorem raise_stay : raise shift stay = stay := by
  funext p turns q
  simp [raise, stay, and_comm]

theorem raise_andThen :
    (first.andThen second).raise shift = (first.raise shift).andThen (second.raise shift) := by
  funext p turns q
  rw [eq_iff_iff]
  constructor
  · rintro ⟨_, ⟨r, begin, rest, one, two, rfl⟩, rfl⟩
    exact ⟨r, _, _, ⟨begin, one, rfl⟩, ⟨rest, two, rfl⟩, List.map_append⟩
  · rintro ⟨r, _, _, ⟨begin, one, rfl⟩, ⟨rest, two, rfl⟩, rfl⟩
    exact ⟨begin ++ rest, ⟨r, begin, rest, one, two, rfl⟩, List.map_append.symm⟩

theorem raise_either :
    (either first second).raise shift = either (first.raise shift) (second.raise shift) := by
  funext p turns q
  simp [raise, either, or_and_right, exists_or]

theorem raise_single (part choice : Nat) (rel : Place → Place → Prop) :
    raise shift (fun p turns q => turns = [⟨part, p, choice⟩] ∧ rel p q) =
      fun p turns q => turns = [⟨part + shift, p, choice⟩] ∧ rel p q := by
  funext p turns q
  rw [eq_iff_iff]
  constructor
  · rintro ⟨_, ⟨rfl, related⟩, rfl⟩
    exact ⟨rfl, related⟩
  · rintro ⟨rfl, related⟩
    exact ⟨_, ⟨rfl, related⟩, rfl⟩

theorem raise_turn (part choice : Nat) :
    (turn part choice).raise shift = turn (part + shift) choice :=
  raise_single part choice _

theorem raise_read (part : Nat) (chars : CharSet) :
    (read part chars).raise shift = read (part + shift) chars :=
  raise_single part 0 _

theorem raise_check (part : Nat) (place : Look) :
    (check part place).raise shift = check (part + shift) place :=
  raise_single part 0 _

theorem raise_readAll (base : Nat) (chars : List Char) :
    (readAll base chars).raise shift = readAll (base + shift) chars := by
  induction chars generalizing base with
  | nil => exact raise_stay
  | cons c chars ih => rw [readAll, readAll, raise_andThen, raise_read, ih, Nat.add_right_comm]

section Repetition

variable {size : Nat} {body : Nat → Ways} {greedy : Bool}

theorem raise_copies (each : ∀ base, (body base).raise shift = body (base + shift))
    (count base : Nat) :
    (copies size body count base).raise shift = copies size body count (base + shift) := by
  induction count generalizing base with
  | zero => exact raise_stay
  | succ count ih => rw [copies, copies, raise_andThen, each, ih, Nat.add_right_comm]

theorem raise_options (each : ∀ base, (body base).raise shift = body (base + shift))
    (count base : Nat) : (options greedy size body count base).raise shift =
      options greedy size body count (base + shift) := by
  induction count generalizing base with
  | zero => exact raise_stay
  | succ count ih =>
    have next : base + 1 + size + shift = base + shift + 1 + size := by omega
    simp only [options, raise_either, raise_turn, raise_andThen, each, ih, next,
      Nat.add_right_comm base 1 shift]

theorem raise_loop {more : Place → Place → Prop} (choice : Nat) (round : Ways) :
    (loop more greedy choice round).raise shift =
      loop more greedy (choice + shift) (round.raise shift) := by
  funext p turns q
  rw [eq_iff_iff]
  -- Round by round in both directions, by induction on how the loop arises.
  constructor
  · rintro ⟨others, looped, rfl⟩
    induction looped with
    | last way =>
      rw [List.map_append]
      exact .last ⟨_, way, rfl⟩
    | again way goes _ ih =>
      rw [List.map_append]
      exact .again ⟨_, way, rfl⟩ goes ih
  · intro looped
    induction looped with
    | last way =>
      obtain ⟨begin, way, rfl⟩ := way
      exact ⟨_, .last way, by rw [List.map_append]; rfl⟩
    | again way goes _ ih =>
      obtain ⟨begin, way, rfl⟩ := way
      obtain ⟨rest, others, rfl⟩ := ih
      exact ⟨_, .again way goes others, by rw [List.map_append]; rfl⟩

end Repetition

end Ways

namespace Expr

variable {more : Place → Place → Prop}

mutual

/-- The ways do not depend on the numbers of the parts. -/
theorem raise_way (expr : Expr) (base shift : Nat) :
    (expr.Way more base).raise shift = expr.Way more (base + shift) := by
  match expr with
  | .empty => exact Ways.raise_stay
  | .literal chars => exact Ways.raise_readAll base chars
  | .set _ chars => exact Ways.raise_read base chars
  | .look place => exact Ways.raise_check base place
  | .repetition min (some max) greedy body =>
    have each := fun base => raise_way body base shift
    rw [Way, Way, Ways.raise_andThen, Ways.raise_copies each, Ways.raise_options each,
      Nat.add_right_comm]
  | .repetition 0 none greedy body =>
    rw [Way, Way, Ways.raise_either, Ways.raise_andThen, Ways.raise_turn, Ways.raise_turn,
      Ways.raise_loop, raise_way body, Nat.add_right_comm base 1 shift,
      Nat.add_right_comm (base + 1) _ shift, Nat.add_right_comm base 1 shift]
  | .repetition (min + 1) none greedy body =>
    have each := fun base => raise_way body base shift
    rw [Way, Way, Ways.raise_andThen, Ways.raise_copies each, Ways.raise_loop, raise_way body,
      Nat.add_right_comm _ body.size shift, Nat.add_right_comm base _ shift]
  | .capture index body =>
    exact raise_way body base shift
  | .concat items => exact raise_allWay items base shift
  | .alternation branches =>
    rw [Way, Way, raise_branchWay branches, Nat.add_right_comm base 1 shift]

/-- The same for expressions one after another. -/
theorem raise_allWay (items : List Expr) (base shift : Nat) :
    (AllWay more base items).raise shift = AllWay more (base + shift) items := by
  match items with
  | [] => exact Ways.raise_stay
  | item :: items =>
    rw [AllWay, AllWay, Ways.raise_andThen, raise_way item, raise_allWay items,
      Nat.add_right_comm]

/-- The same for branches. -/
theorem raise_branchWay (branches : List Expr) (choice index base shift : Nat) :
    (BranchWay more choice index base branches).raise shift =
      BranchWay more (choice + shift) index (base + shift) branches := by
  match branches with
  | [] =>
    funext p turns q
    simp [Ways.raise, BranchWay]
  | branch :: branches =>
    have next : base + branch.size + 1 + shift = base + shift + branch.size + 1 := by omega
    rw [BranchWay, BranchWay, Ways.raise_either, Ways.raise_andThen, Ways.raise_andThen,
      Ways.raise_turn, Ways.raise_turn, raise_way branch, raise_branchWay branches, next,
      Nat.add_right_comm base _ shift]

end

end Expr

/-! ### Ways that can be compared -/

section Runs

variable {code : Array Inst} {a b b' : Nat} {choice : Nat} {p q r : Place}
  {turns others : List Turn}

theorem Step.lt_size (h : Step code a p choice b q) : a < code.size := by
  by_contra beyond
  have nothing : code[a]? = none := by simpa using beyond
  cases h with
  | go next => simp [successors, nothing] at next
  | read inst => cases nothing.symm.trans inst

theorem Place.Reads.eq_of_single {c d : Char} (h : p.Reads [c] q) (h' : p.Reads [d] r) :
    q = r := by
  obtain ⟨ahead, behind⟩ := h
  obtain ⟨ahead', behind'⟩ := h'
  obtain ⟨rfl, after⟩ := List.cons.inj (ahead.symm.trans ahead')
  obtain ⟨before, rest⟩ := q
  obtain ⟨before', rest'⟩ := r
  simp_all

/-- A choice leads to one address and one place. -/
theorem Step.unique (h : Step code a p choice b q) (h' : Step code a p choice b' r) :
    b = b' ∧ q = r := by
  cases h with
  | go next =>
    cases h' with
    | go next' => exact ⟨Option.some.inj (next.symm.trans next'), rfl⟩
    | read inst => simp [successors, inst] at next
  | read inst _ reads =>
    cases h' with
    | go next => simp [successors, inst] at next
    | read _ _ reads' => exact ⟨rfl, reads.eq_of_single reads'⟩

theorem Run.part_lt_size (h : Run code a b p turns q) : ∀ turn ∈ turns, turn.part < code.size := by
  induction h with
  | done => exact List.forall_mem_nil _
  | step first _ ih => exact List.forall_mem_cons.2 ⟨first.lt_size, ih⟩

theorem Turn.Before.append_left (h : Turn.Before turns others) (front : List Turn) :
    Turn.Before (front ++ turns) (front ++ others) := by
  obtain ⟨shared, part, place, choice, later, rest, rest', less, rfl, rfl⟩ := h
  exact ⟨front ++ shared, part, place, choice, later, rest, rest', less, by simp, by simp⟩

/-- Of two runs to the last address that are not the same one is before the other. -/
theorem Run.compare (h : Run code a code.size p turns q) (h' : Run code a code.size p others r) :
    (others = turns ∧ r = q) ∨ Turn.Before turns others ∨ Turn.Before others turns := by
  generalize last : code.size = c at h h'
  induction h generalizing others with
  | done =>
    cases h' with
    | done => exact .inl ⟨rfl, rfl⟩
    | step first _ => exact absurd last.symm first.lt_size.ne
  | @step a b c p q r' choice turns first rest ih =>
    cases h' with
    | done => exact absurd last.symm first.lt_size.ne
    | @step _ b' _ _ _ r'' choice' others first' rest' =>
      -- Both runs are at one address and one place: they part here, or go on together.
      rcases Nat.lt_trichotomy choice choice' with less | rfl | more
      · exact .inr (.inl ⟨[], a, p, choice, choice', turns, others, less, rfl, rfl⟩)
      · obtain ⟨rfl, rfl⟩ := first.unique first'
        rcases ih last rest' with ⟨rfl, rfl⟩ | before | after
        · exact .inl ⟨rfl, rfl⟩
        · exact .inr (.inl (before.append_left [⟨a, p, choice⟩]))
        · exact .inr (.inr (after.append_left [⟨a, p, choice⟩]))
      · exact .inr (.inr ⟨[], a, p, choice', choice, others, turns, more, rfl, rfl⟩)

end Runs

namespace Ways

/-- Ways that take their turns at the parts of a range. -/
def AreWithin (lo hi : Nat) (ways : Ways) : Prop :=
  ∀ p turns q, ways p turns q → ∀ turn ∈ turns, lo ≤ turn.part ∧ turn.part < hi

/-- Of two ways from one place that are not the same one is before the other. -/
def AreComparable (ways : Ways) : Prop :=
  ∀ p turns q others r, ways p turns q → ways p others r →
    (others = turns ∧ r = q) ∨ Turn.Before turns others ∨ Turn.Before others turns

end Ways

namespace Expr

/-- The ways of an expression take their turns at its parts. -/
theorem areWithin_way (expr : Expr) (base : Nat) :
    (expr.Way (fun _ _ => True) base).AreWithin base (base + expr.size) := by
  intro p turns q way
  -- From zero on, the parts are the addresses of a program, and no run leaves those.
  have length : (Program.ofExpr expr).code.size = expr.size := by
    simp [Program.ofExpr, length_code]
  rw [← Nat.zero_add base, ← raise_way, ← run_ofExpr_eq] at way
  obtain ⟨others, run, rfl⟩ := way
  have below := run.part_lt_size
  rw [length] at below
  refine List.forall_mem_map.2 fun turn member => ⟨Nat.le_add_left base _, ?_⟩
  have least := below turn member
  simp only [Turn.raise]
  omega

/-- The ways of an expression can be compared. -/
theorem areComparable_way (expr : Expr) : (expr.Way (fun _ _ => True) 0).AreComparable := by
  intro p turns q others r way way'
  rw [← run_ofExpr_eq] at way way'
  exact way.compare way'

end Expr

end Peg.Regex
