import Peg.Proofs.Regex.Ways

/-!
# Runs of a program

A program goes from address to address. Where an expression is laid out, its ways
are the runs from the address where its code begins to the address after its end,
turn by turn: a part of the expression is the address of its instruction.

## Main definitions

* `successors`, `Step`, `Run`: what a program can do.
* `Holds`: a row of instructions is found at an address.
* `Realizes`: the runs from one address on are some ways, and then those from another.

## Main results

* `Expr.realizes_way`: the code of an expression realizes its ways.
* `Expr.run_ofExpr_eq`: the runs of a whole program are the ways of its expression.
-/

namespace Peg.Regex

/-- The addresses at which a program can go on without reading, the preferred one first. -/
def successors (code : Array Inst) (p : Place) (address : Nat) : List Nat :=
  match code[address]? with
  | some (.fork targets) => targets
  | some (.check place) =>
    if place.holds p.before.getLast? p.after.head? then [address + 1] else []
  | some (.read _) | none => []

/-- A step of a program from an address at a place to another: it goes on without
reading, or reads a character. -/
inductive Step (code : Array Inst) : Nat → Place → Nat → Nat → Place → Prop
  | go {a b : Nat} {p : Place} {choice : Nat}
    (next : (successors code p a)[choice]? = some b) :
    Step code a p choice b p
  | read {a : Nat} {p q : Place} {chars : CharSet} {c : Char}
    (inst : code[a]? = some (.read chars)) (member : chars.contains c = true)
    (reads : p.Reads [c] q) : Step code a p 0 (a + 1) q

/-- A run of a program from one address to another, by the choices it takes. -/
inductive Run (code : Array Inst) : Nat → Nat → Ways
  | done {a : Nat} {p : Place} : Run code a a p [] p
  | step {a b c : Nat} {p q r : Place} {choice : Nat} {turns : List Turn}
    (first : Step code a p choice b r) (rest : Run code b c r turns q) :
    Run code a c p (⟨a, p, choice⟩ :: turns) q

section Runs

variable {code : Array Inst} {a b c : Nat} {p q r : Place} {turns rest : List Turn}

theorem Run.append (first : Run code a b p turns r) (others : Run code b c r rest q) :
    Run code a c p (turns ++ rest) q := by
  induction first with
  | done => exact others
  | step step _ ih => exact .step step (ih others)

/-- A run to another address begins with a step. -/
theorem Run.exists_step (h : Run code a c p turns q) (apart : a ≠ c) :
    ∃ choice b r rest, Step code a p choice b r ∧ Run code b c r rest q ∧
      turns = ⟨a, p, choice⟩ :: rest := by
  cases h with
  | done => exact absurd rfl apart
  | step first others => exact ⟨_, _, _, _, first, others, rfl⟩

end Runs

/-! ### Where a row of instructions stands -/

/-- A row of instructions is found at an address. -/
def Holds (code : Array Inst) (base : Nat) : List Inst → Prop
  | [] => True
  | inst :: row => code[base]? = some inst ∧ Holds code (base + 1) row

section Holds

variable {code : Array Inst} {base : Nat}

theorem holds_append_iff {row more : List Inst} :
    Holds code base (row ++ more) ↔ Holds code base row ∧ Holds code (base + row.length) more := by
  induction row generalizing base with
  | nil => simp [Holds]
  | cons inst row ih =>
    rw [List.cons_append, Holds, Holds, ih, List.length_cons, and_assoc, Nat.add_right_comm,
      Nat.add_assoc]

theorem holds_toArray (front row : List Inst) :
    Holds (front ++ row).toArray front.length row := by
  induction row generalizing front with
  | nil => trivial
  | cons inst row ih =>
    refine ⟨by simp, ?_⟩
    have later := ih (front ++ [inst])
    rwa [List.append_assoc, List.length_append] at later

end Holds

/-! ### Ways and runs -/

namespace Ways

variable {first second third : Ways}

@[simp]
theorem stay_andThen : stay.andThen first = first := by
  funext p turns q
  simp [andThen, stay]

@[simp]
theorem andThen_stay : first.andThen stay = first := by
  funext p turns q
  simp [andThen, stay]

theorem andThen_assoc :
    (first.andThen second).andThen third = first.andThen (second.andThen third) := by
  funext p turns q
  rw [eq_iff_iff]
  constructor
  · rintro ⟨r, _, last, ⟨s, begin, middle, one, two, rfl⟩, three, rfl⟩
    exact ⟨s, begin, middle ++ last, one, ⟨r, middle, last, two, three, rfl⟩, by simp⟩
  · rintro ⟨s, begin, _, one, ⟨r, middle, last, two, three, rfl⟩, rfl⟩
    exact ⟨r, begin ++ middle, last, ⟨s, begin, middle, one, two, rfl⟩, three, by simp⟩

theorem either_andThen :
    (either first second).andThen third = either (first.andThen third) (second.andThen third) := by
  funext p turns q
  rw [eq_iff_iff]
  constructor
  · rintro ⟨r, begin, last, one | two, three, rfl⟩
    · exact .inl ⟨r, begin, last, one, three, rfl⟩
    · exact .inr ⟨r, begin, last, two, three, rfl⟩
  · rintro (⟨r, begin, last, one, three, rfl⟩ | ⟨r, begin, last, two, three, rfl⟩)
    · exact ⟨r, begin, last, .inl one, three, rfl⟩
    · exact ⟨r, begin, last, .inr two, three, rfl⟩

theorem turn_andThen_iff {part choice : Nat} {p q : Place} {turns : List Turn} :
    (turn part choice).andThen first p turns q ↔
      ∃ rest, turns = ⟨part, p, choice⟩ :: rest ∧ first p rest q := by
  constructor
  · rintro ⟨_, _, rest, ⟨rfl, rfl⟩, others, rfl⟩
    exact ⟨rest, rfl, others⟩
  · rintro ⟨rest, rfl, others⟩
    exact ⟨p, _, rest, ⟨rfl, rfl⟩, others, rfl⟩

end Ways

/-- The runs from an address to the last one are some ways, and then the runs from
another address. -/
def Realizes (code : Array Inst) (last : Nat) (ways : Ways) (a b : Nat) : Prop :=
  Run code a last = ways.andThen (Run code b last)

section Realizes

variable {code : Array Inst} {last a b c : Nat} {first second : Ways}

theorem Realizes.stay : Realizes code last .stay a a := by
  rw [Realizes, Ways.stay_andThen]

theorem Realizes.andThen (one : Realizes code last first a b)
    (two : Realizes code last second b c) : Realizes code last (first.andThen second) a c := by
  rw [Realizes, one, two, Ways.andThen_assoc]

theorem Realizes.read {chars : CharSet} (inst : code[a]? = some (.read chars))
    (apart : a ≠ last) : Realizes code last (.read a chars) a (a + 1) := by
  funext p turns q
  rw [eq_iff_iff]
  constructor
  · intro run
    obtain ⟨choice, b, r, rest, step, others, rfl⟩ := run.exists_step apart
    cases step with
    | go next => simp [successors, inst] at next
    | read found member reads =>
      obtain rfl := Inst.read.inj (Option.some.inj (inst.symm.trans found))
      exact ⟨r, _, rest, ⟨rfl, _, member, reads⟩, others, rfl⟩
  · rintro ⟨r, _, rest, ⟨rfl, c, member, reads⟩, others, rfl⟩
    exact .step (.read inst member reads) others

theorem Realizes.check {place : Look} (inst : code[a]? = some (.check place))
    (apart : a ≠ last) : Realizes code last (.check a place) a (a + 1) := by
  funext p turns q
  rw [eq_iff_iff]
  constructor
  · intro run
    obtain ⟨choice, b, r, rest, step, others, rfl⟩ := run.exists_step apart
    cases step with
    | read found member reads => cases inst.symm.trans found
    | go next =>
      simp only [successors, inst] at next
      split at next
      · next holds =>
        obtain ⟨rfl, rfl⟩ : choice = 0 ∧ a + 1 = b := by
          simpa [List.getElem?_singleton] using next
        exact ⟨p, _, rest, ⟨rfl, holds, rfl⟩, others, rfl⟩
      · cases next
  · rintro ⟨_, _, rest, ⟨rfl, holds, rfl⟩, others, rfl⟩
    refine .step (.go ?_) others
    have holds : place.holds p.before.getLast? p.after.head? = true := holds
    simp [successors, inst, holds]

/-- A run from a fork takes one of the choices. -/
theorem run_fork_iff {targets : List Nat} (inst : code[a]? = some (.fork targets))
    (apart : a ≠ last) {p q : Place} {turns : List Turn} :
    Run code a last p turns q ↔ ∃ choice b rest, targets[choice]? = some b ∧
      turns = ⟨a, p, choice⟩ :: rest ∧ Run code b last p rest q := by
  constructor
  · intro run
    obtain ⟨choice, b, r, rest, step, others, rfl⟩ := run.exists_step apart
    cases step with
    | read found member reads => cases inst.symm.trans found
    | go next => exact ⟨choice, b, rest, by simpa [successors, inst] using next, rfl, others⟩
  · rintro ⟨choice, b, rest, next, rfl, others⟩
    exact .step (.go (by simpa [successors, inst] using next)) others

theorem Realizes.jump (inst : code[a]? = some (.fork [b])) (apart : a ≠ last) :
    Realizes code last (.turn a 0) a b := by
  funext p turns q
  rw [eq_iff_iff, run_fork_iff inst apart, Ways.turn_andThen_iff]
  simp [List.getElem?_singleton]

/-- A run from a fork with two targets goes on at one of them. -/
theorem run_pair_eq (inst : code[a]? = some (.fork [b, c])) (apart : a ≠ last) :
    Run code a last = .either ((Ways.turn a 0).andThen (Run code b last))
      ((Ways.turn a 1).andThen (Run code c last)) := by
  funext p turns q
  simp only [Ways.either, Ways.turn_andThen_iff, eq_iff_iff]
  rw [run_fork_iff inst apart]
  constructor
  · rintro ⟨choice, target, rest, next, rfl, others⟩
    match choice, next with
    | 0, rfl => exact .inl ⟨rest, rfl, others⟩
    | 1, rfl => exact .inr ⟨rest, rfl, others⟩
  · rintro (⟨rest, rfl, others⟩ | ⟨rest, rfl, others⟩)
    · exact ⟨0, b, rest, rfl, rfl, others⟩
    · exact ⟨1, c, rest, rfl, rfl, others⟩

/-- A run from a choice goes on or stops, whichever of the two is preferred. -/
theorem run_choice_eq {greedy : Bool} (inst : code[a]? = some (choice greedy b c))
    (apart : a ≠ last) : Run code a last =
      .either ((Ways.turn a (Ways.stop greedy)).andThen (Run code c last))
        ((Ways.turn a (Ways.goOn greedy)).andThen (Run code b last)) := by
  cases greedy with
  | false => exact run_pair_eq inst apart
  | true =>
    rw [run_pair_eq inst apart]
    funext p turns q
    exact propext or_comm

/-- A choice realizes that something is done or left out. -/
theorem Realizes.choice {greedy : Bool} (inst : code[a]? = some (Regex.choice greedy b c))
    (apart : a ≠ last) (others : Realizes code last first b c) :
    Realizes code last
      (.either (.turn a (Ways.stop greedy)) ((Ways.turn a (Ways.goOn greedy)).andThen first))
      a c := by
  rw [Realizes, run_choice_eq inst apart, Ways.either_andThen, Ways.andThen_assoc, ← others]

section Repetition

variable {size : Nat} {body : Nat → List Inst} {ways : Nat → Ways} {count base : Nat}

theorem Realizes.copies (length : ∀ base, (body base).length = size)
    (realizes : ∀ base, Holds code base (body base) → base + size ≤ last →
      Realizes code last (ways base) base (base + size))
    (holds : Holds code base (Regex.copies size body count base))
    (within : base + count * size ≤ last) :
    Realizes code last (Ways.copies size ways count base) base (base + count * size) := by
  induction count generalizing base with
  | zero =>
    rw [Nat.zero_mul, Nat.add_zero]
    exact .stay
  | succ count ih =>
    obtain ⟨first, rest⟩ := holds_append_iff.1 holds
    rw [length] at rest
    have ends : base + (count + 1) * size = base + size + count * size := by
      rw [Nat.succ_mul]
      omega
    rw [ends] at within ⊢
    exact (realizes base first (by omega)).andThen (ih rest within)

theorem Realizes.options {greedy : Bool} {stop : Nat} (length : ∀ base, (body base).length = size)
    (realizes : ∀ base, Holds code base (body base) → base + size ≤ last →
      Realizes code last (ways base) base (base + size))
    (holds : Holds code base (Regex.options greedy size stop body count base))
    (ends : base + count * (size + 1) = stop) (within : stop ≤ last) :
    Realizes code last (Ways.options greedy size ways count base) base stop := by
  induction count generalizing base with
  | zero =>
    obtain rfl : base = stop := by simpa using ends
    exact .stay
  | succ count ih =>
    obtain ⟨inst, rest⟩ := holds
    obtain ⟨first, rest⟩ := holds_append_iff.1 rest
    rw [length] at rest
    rw [Nat.succ_mul] at ends
    have once := realizes (base + 1) first (by omega)
    exact .choice inst (by omega) (once.andThen (ih rest (by omega)))

theorem Realizes.loop {greedy : Bool} {round : Ways} (length : (body base).length = size)
    (realizes : Realizes code last round base (base + size))
    (holds : Holds code base (Regex.loop greedy size body base))
    (within : base + size + 1 ≤ last) :
    Realizes code last (Ways.loop (fun _ _ => True) greedy (base + size) round) base
      (base + size + 1) := by
  obtain ⟨-, inst, -⟩ := holds_append_iff.1 holds
  rw [length] at inst
  have apart : base + size ≠ last := by omega
  have chooses := run_choice_eq inst apart
  funext p turns q
  rw [eq_iff_iff]
  constructor
  · -- Every round takes some turns, so the rounds after the first one take fewer.
    intro run
    induction size' : turns.length using Nat.strongRecOn generalizing p turns with
    | ind count ih =>
      rw [realizes] at run
      obtain ⟨r, begin, rest, round, run, rfl⟩ := run
      rw [chooses] at run
      obtain stops | goes := run
      · obtain ⟨rest, rfl, run⟩ := Ways.turn_andThen_iff.1 stops
        exact ⟨r, _, rest, .last round, run, by simp⟩
      · obtain ⟨rest, rfl, run⟩ := Ways.turn_andThen_iff.1 goes
        have fewer : rest.length < count := by
          rw [← size']
          simp
          omega
        obtain ⟨s, others, rest, looped, onward, rfl⟩ := ih _ fewer _ _ run rfl
        exact ⟨s, _, rest, .again round trivial looped, onward, by simp⟩
  · -- The other way round the rounds are run one after another.
    rintro ⟨s, looping, rest, looped, run, rfl⟩
    induction looped with
    | last round =>
      rw [realizes]
      refine ⟨_, _, _, round, ?_, List.append_assoc _ _ _⟩
      rw [chooses]
      exact .inl (Ways.turn_andThen_iff.2 ⟨rest, rfl, run⟩)
    | again round _ _ ih =>
      rw [realizes]
      refine ⟨_, _, _, round, ?_, List.append_assoc _ _ _⟩
      rw [chooses]
      exact .inr (Ways.turn_andThen_iff.2 ⟨_, rfl, ih run⟩)

end Repetition

theorem Realizes.readAll {base : Nat} {chars : List Char}
    (holds : Holds code base (chars.map fun c => .read (.singleton c)))
    (within : base + chars.length ≤ last) :
    Realizes code last (.readAll base chars) base (base + chars.length) := by
  induction chars generalizing base with
  | nil => exact .stay
  | cons c chars ih =>
    obtain ⟨inst, rest⟩ := holds
    have ends : base + (c :: chars).length = base + 1 + chars.length := by
      rw [List.length_cons]
      omega
    rw [ends] at within ⊢
    exact (Realizes.read inst (by omega)).andThen (ih rest within)

end Realizes

namespace Expr

variable {code : Array Inst} {last : Nat}

mutual

/-- The code of an expression realizes its ways. -/
theorem realizes_way (expr : Expr) {base : Nat} (holds : Holds code base (expr.code base))
    (within : base + expr.size ≤ last) :
    Realizes code last (expr.Way (fun _ _ => True) base) base (base + expr.size) := by
  match expr with
  | .empty => exact .stay
  | .literal chars => exact .readAll holds within
  | .set _ chars => exact .read holds.1 (Nat.ne_of_lt within)
  | .look place => exact .check holds.1 (Nat.ne_of_lt within)
  | .repetition min (some max) greedy body =>
    have realizes : ∀ base, Holds code base (body.code base) → base + body.size ≤ last →
        Realizes code last (body.Way (fun _ _ => True) base) base (base + body.size) :=
      fun base holds within => realizes_way body holds within
    simp only [Expr.code, size] at holds within
    obtain ⟨copied, optional⟩ := holds_append_iff.1 holds
    rw [length_copies body.length_code] at optional
    -- The copies that must be there stand before those that need not be there.
    have first := Realizes.copies body.length_code realizes copied (by omega)
    have rest := Realizes.options body.length_code realizes optional rfl (by omega)
    rw [size, ← Nat.add_assoc]
    exact first.andThen rest
  | .repetition 0 none greedy body =>
    simp only [Expr.code, size] at holds within
    obtain ⟨inst, looped⟩ := holds
    have round := realizes_way body (holds_append_iff.1 looped).1 (by omega)
    have rest := Realizes.loop (body.length_code _) round looped (by omega)
    have ends : base + 1 + body.size + 1 = base + body.size + 2 := by omega
    rw [ends] at rest
    exact .choice inst (by omega) rest
  | .repetition (min + 1) none greedy body =>
    have realizes : ∀ base, Holds code base (body.code base) → base + body.size ≤ last →
        Realizes code last (body.Way (fun _ _ => True) base) base (base + body.size) :=
      fun base holds within => realizes_way body holds within
    simp only [Expr.code, size] at holds within
    obtain ⟨copied, looped⟩ := holds_append_iff.1 holds
    rw [length_copies body.length_code] at looped
    have first := Realizes.copies body.length_code realizes copied (by omega)
    have round := realizes _ (holds_append_iff.1 looped).1 (by omega)
    have rest := Realizes.loop (body.length_code _) round looped (by omega)
    rw [size, ← Nat.add_assoc]
    exact first.andThen rest
  | .capture index body =>
    exact realizes_way body holds within
  | .concat items => exact realizes_allWay items holds within
  | .alternation branches =>
    obtain ⟨inst, held⟩ := holds
    rw [size] at within
    have ends : base + 1 + sizeAll branches + branches.length =
        base + (sizeAll branches + branches.length + 1) := by omega
    rw [ends] at held
    funext p turns q
    rw [eq_iff_iff, run_fork_iff inst (by omega)]
    have taken := andThen_branchWay_iff branches held (by omega) base 0 p turns q
    simpa [Way, size] using taken.symm

/-- The same for expressions one after another. -/
theorem realizes_allWay (items : List Expr) {base : Nat}
    (holds : Holds code base (codeAll base items)) (within : base + sizeAll items ≤ last) :
    Realizes code last (AllWay (fun _ _ => True) base items) base (base + sizeAll items) := by
  match items with
  | [] => exact .stay
  | item :: items =>
    obtain ⟨first, rest⟩ := holds_append_iff.1 holds
    rw [length_code] at rest
    rw [sizeAll, ← Nat.add_assoc] at within ⊢
    exact (realizes_way item first (by omega)).andThen (realizes_allWay items rest within)

/-- To take one of several branches to its end is to go on where the branch begins. -/
theorem andThen_branchWay_iff (branches : List Expr) {base stop : Nat}
    (holds : Holds code base (codeBranches base stop branches))
    (within : base + sizeAll branches + branches.length ≤ last) (choice index : Nat)
    (p : Place) (turns : List Turn) (q : Place) :
    (BranchWay (fun _ _ => True) choice index base branches).andThen (Run code stop last)
        p turns q ↔
      ∃ i start rest, (branchStarts base branches)[i]? = some start ∧
        turns = ⟨choice, p, index + i⟩ :: rest ∧ Run code start last p rest q := by
  match branches with
  | [] => simp [Ways.andThen, BranchWay, branchStarts]
  | branch :: branches =>
    obtain ⟨first, held⟩ := holds_append_iff.1 holds
    rw [length_code] at held
    obtain ⟨inst, others⟩ := held
    simp only [sizeAll, List.length_cons] at within
    -- Behind every branch stands a way to the one address where all of them go on.
    have ends : Realizes code last (.turn (base + branch.size) 0) (base + branch.size) stop :=
      .jump inst (by omega)
    have here := (realizes_way branch first (by omega)).andThen ends
    have later := andThen_branchWay_iff branches others (by omega) choice (index + 1) p turns q
    rw [BranchWay, Ways.either_andThen, Ways.andThen_assoc, ← here]
    simp only [Ways.either, Ways.turn_andThen_iff, later, branchStarts]
    constructor
    · rintro (⟨rest, rfl, run⟩ | ⟨i, start, rest, found, rfl, run⟩)
      · exact ⟨0, base, rest, rfl, rfl, run⟩
      · exact ⟨i + 1, start, rest, found, by rw [Nat.add_right_comm, Nat.add_assoc], run⟩
    · rintro ⟨i, start, rest, found, rfl, run⟩
      cases i with
      | zero =>
        obtain rfl : base = start := Option.some.inj found
        exact .inl ⟨rest, rfl, run⟩
      | succ i =>
        exact .inr ⟨i, start, rest, found, by rw [Nat.add_right_comm, Nat.add_assoc], run⟩

end

/-- At the address after the last instruction a program stays. -/
theorem run_size_eq : Run code code.size code.size = .stay := by
  funext p turns q
  rw [eq_iff_iff]
  constructor
  · intro run
    cases run with
    | done => exact ⟨rfl, rfl⟩
    | step first _ =>
      cases first with
      | go next => simp [successors] at next
      | read inst => simp at inst
  · rintro ⟨rfl, rfl⟩
    exact .done

/-- The runs of the program of an expression that accept are the ways of the expression. -/
theorem run_ofExpr_eq (expr : Expr) :
    Run (Program.ofExpr expr).code 0 (Program.ofExpr expr).code.size =
      expr.Way (fun _ _ => True) 0 := by
  have length : (Program.ofExpr expr).code.size = expr.size := by
    simp [Program.ofExpr, length_code]
  have holds : Holds (Program.ofExpr expr).code 0 (expr.code 0) := holds_toArray [] (expr.code 0)
  have within : 0 + expr.size ≤ (Program.ofExpr expr).code.size := by omega
  -- The code ends where the program does, and from there nothing is run.
  have realizes := realizes_way expr holds within
  rw [Nat.zero_add, ← length] at realizes
  rw [realizes, run_size_eq, Ways.andThen_stay]

end Expr

end Peg.Regex
