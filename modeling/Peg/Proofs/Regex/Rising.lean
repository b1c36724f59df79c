import Peg.Proofs.Regex.First
import Peg.Proofs.Regex.Rounds

/-!
# Ways that rise

A way may come to many parts at one place without reading. Where it begins, and where it
ends, a direct way comes to them in the order of their numbers: a loop has no further
round there. So if a way and the next one come to a part at the place where they meet,
the two can be exchanged there, and stay direct.

If the first way from a place and the first way from where it ends came to a part at the
same place, one of the two exchanged ways would come before a first one, unless the
second way reads nothing.

## Main definitions

* `Ways.AreRising`: ways that come to the parts in order where they begin and end.
* `Ways.preferred`: of the direct ways from each place the first one.

## Main results

* `Expr.areRising_way`: the ways of an expression are rising.
* `Expr.way_exchange`, `Expr.areDirect_exchange`: ways are exchanged where they meet.
* `Expr.apart_of_preferred`: first ways that follow one another have no turn in common.
-/

namespace Peg.Regex

variable {p q r : Place}

/-! ### Rising ways -/

namespace Ways

/-- Ways that go forward from the first part of a range, and if they are direct come to the
parts in the order of their numbers where they begin, and where they end. -/
structure AreRising (lo hi : Nat) (ways : Ways) : Prop extends AreForward lo hi ways where
  begins {p turns q} : ways p turns q →
    (∃ choice rest, turns = ⟨lo, p, choice⟩ :: rest) ∨ turns = [] ∧ p = q ∧ lo = hi
  rises {p turns q} : ways p turns q → Turn.AreDirect turns →
    turns.Pairwise fun turn later => turn.place = later.place →
      turn.place = p ∨ turn.place = q → turn.part < later.part

namespace AreRising

variable {lo mid hi part choice : Nat} {ways first second round : Ways} {turns : List Turn}

theorem nothing : AreRising lo hi fun _ _ _ => False where
  toAreForward := .nothing
  begins := False.elim
  rises := False.elim

theorem stay : AreRising lo lo .stay where
  toAreForward := .stay
  begins := by
    rintro p turns q ⟨rfl, rfl⟩
    exact .inr ⟨rfl, rfl, rfl⟩
  rises := by
    rintro p turns q ⟨rfl, -⟩ -
    exact .nil

/-- Ways that take one turn, where they begin. -/
theorem of_single
    (single : ∀ p turns q, ways p turns q → (∃ choice, turns = [⟨part, p, choice⟩]) ∧ p.UpTo q) :
    AreRising part (part + 1) ways where
  toAreForward := .of_single single
  begins := by
    intro p turns q way
    obtain ⟨⟨choice, rfl⟩, -⟩ := single p turns q way
    exact .inl ⟨choice, [], rfl⟩
  rises := by
    intro p turns q way _
    obtain ⟨⟨choice, rfl⟩, -⟩ := single p turns q way
    exact List.pairwise_singleton _ _

theorem turn (part choice : Nat) : AreRising part (part + 1) (.turn part choice) := by
  apply of_single
  rintro p turns q ⟨rfl, rfl⟩
  exact ⟨⟨choice, rfl⟩, .refl p⟩

theorem read {chars : CharSet} : AreRising part (part + 1) (.read part chars) := by
  apply of_single
  rintro p turns q ⟨rfl, c, -, reads⟩
  exact ⟨⟨0, rfl⟩, [c], reads⟩

theorem check {place : Look} : AreRising part (part + 1) (.check part place) := by
  apply of_single
  rintro p turns q ⟨rfl, -, rfl⟩
  exact ⟨⟨0, rfl⟩, .refl p⟩

/-- Ways with at least one turn are rising in a longer range. -/
theorem widen (h : AreRising lo mid ways) (least : lo < mid) (above : mid ≤ hi) :
    AreRising lo hi ways where
  toAreForward := h.toAreForward.widen le_rfl above
  begins := fun way => (h.begins way).imp_right fun ⟨_, _, same⟩ => absurd same least.ne
  rises := h.rises

theorem andThen (one : AreRising lo mid first) (two : AreRising mid hi second)
    (below : lo ≤ mid) (above : mid ≤ hi) : AreRising lo hi (first.andThen second) where
  toAreForward :=
    (one.toAreForward.widen le_rfl above).andThen (two.toAreForward.widen below le_rfl)
  begins := by
    rintro p _ q ⟨r, begin, rest, way, onward, rfl⟩
    rcases one.begins way with ⟨choice, others, rfl⟩ | ⟨rfl, rfl, rfl⟩
    · exact .inl ⟨choice, others ++ rest, rfl⟩
    · exact two.begins onward
  rises := by
    rintro p _ q ⟨r, begin, rest, way, onward, rfl⟩ direct
    obtain ⟨direct, direct', -⟩ := List.pairwise_append.1 direct
    refine List.pairwise_append.2 ⟨?_, ?_, fun turn member later member' _ _ => ?_⟩
    · -- If the first way comes to where the second one ends, that is where it ends itself.
      refine (one.rises way direct).imp_of_mem fun {turn _} member _ rise same here =>
        rise same (here.imp_right fun ends => ?_)
      exact (one.between way turn member).before.antisymm (ends ▸ two.upTo onward)
    · -- If the second way comes to where the first one begins, that is where it begins, too.
      refine (two.rises onward direct').imp_of_mem fun {turn _} member _ rise same here =>
        rise same (here.imp_left fun starts => ?_)
      exact Place.UpTo.antisymm (starts ▸ one.upTo way) (two.between onward turn member).after
    · exact (one.between way turn member).most.trans_le (two.between onward later member').least

theorem either (one : AreRising lo hi first) (two : AreRising lo hi second) :
    AreRising lo hi (.either first second) where
  toAreForward := one.toAreForward.either two.toAreForward
  begins := by
    rintro p turns q (way | way)
    · exact one.begins way
    · exact two.begins way
  rises := by
    rintro p turns q (way | way)
    · exact one.rises way
    · exact two.rises way

/-- Something is done after a choice at an earlier part. -/
theorem turn_andThen (h : AreRising lo hi ways) (earlier : part < lo) (above : lo ≤ hi)
    (choice : Nat) : AreRising part hi ((Ways.turn part choice).andThen ways) :=
  ((turn part choice).widen (Nat.lt_succ_self part) earlier).andThen h earlier.le above

/-- Something is done after one choice, and nothing after the other. -/
theorem optional {stop goOn : Nat} (h : AreRising (part + 1) hi ways) (above : part < hi) :
    AreRising part hi (.either (.turn part stop) ((Ways.turn part goOn).andThen ways)) :=
  ((turn part stop).widen (Nat.lt_succ_self part) above).either
    (h.turn_andThen (Nat.lt_succ_self part) above goOn)

section Repetition

variable {size count base : Nat} {greedy : Bool} {body : Nat → Ways}

theorem copies (each : ∀ base, AreRising base (base + size) (body base)) :
    AreRising base (base + count * size) (Ways.copies size body count base) := by
  induction count generalizing base with
  | zero =>
    rw [Nat.zero_mul]
    exact stay
  | succ count ih =>
    have ends : base + (count + 1) * size = base + size + count * size := by
      rw [Nat.succ_mul]
      omega
    rw [ends]
    exact (each base).andThen ih (Nat.le_add_right _ _) (Nat.le_add_right _ _)

theorem options (each : ∀ base, AreRising base (base + size) (body base)) :
    AreRising base (base + count * (size + 1)) (Ways.options greedy size body count base) := by
  induction count generalizing base with
  | zero =>
    rw [Nat.zero_mul]
    exact stay
  | succ count ih =>
    have ends : base + (count + 1) * (size + 1) = base + 1 + size + count * (size + 1) := by
      rw [Nat.succ_mul]
      omega
    rw [ends]
    have once := (each (base + 1)).andThen ih (Nat.le_add_right _ _) (Nat.le_add_right _ _)
    exact once.optional (by omega)

theorem readAll {chars : List Char} :
    AreRising base (base + chars.length) (Ways.readAll base chars) := by
  induction chars generalizing base with
  | nil => exact stay
  | cons c chars ih =>
    have ends : base + (c :: chars).length = base + 1 + chars.length := by
      rw [List.length_cons]
      omega
    rw [ends]
    exact read.andThen ih (Nat.le_add_right _ _) (Nat.le_add_right _ _)

end Repetition

section Loop

variable {greedy : Bool}

/-- A loop ends with a choice. -/
theorem loop_stops (looped : Ways.loop (fun _ _ => True) greedy choice round p turns q) :
    ∃ front, turns = front ++ [⟨choice, q, Ways.stop greedy⟩] := by
  induction looped with
  | @last p r begin _ => exact ⟨begin, rfl⟩
  | @again p q r begin rest _ _ _ ih =>
    obtain ⟨front, rfl⟩ := ih
    exact ⟨begin ++ ⟨choice, r, Ways.goOn greedy⟩ :: front, by simp⟩

theorem loop_begins (rising : AreRising lo choice round)
    (looped : Ways.loop (fun _ _ => True) greedy choice round p turns q) :
    ∃ taken rest, turns = ⟨lo, p, taken⟩ :: rest := by
  cases looped with
  | last way =>
    rcases rising.begins way with ⟨taken, rest, rfl⟩ | ⟨rfl, rfl, rfl⟩
    · exact ⟨taken, _, rfl⟩
    · exact ⟨_, [], rfl⟩
  | @again _ _ _ _ others way _ _ =>
    rcases rising.begins way with ⟨taken, rest, rfl⟩ | ⟨rfl, rfl, rfl⟩
    · exact ⟨taken, _, rfl⟩
    · exact ⟨_, others, rfl⟩

/-- A loop that is direct goes on only after a round that has read something. -/
theorem ne_of_direct {begin rest : List Turn} (rising : AreRising lo choice round)
    (way : round p begin r) (others : Ways.loop (fun _ _ => True) greedy choice round r rest q)
    (direct : Turn.AreDirect (begin ++ ⟨choice, r, Ways.goOn greedy⟩ :: rest)) : p ≠ r := by
  rintro rfl
  -- The next round would begin where this one did.
  obtain ⟨taken, more, rfl⟩ := rising.loop_begins others
  obtain ⟨-, later, apart⟩ := List.pairwise_append.1 direct
  rcases rising.begins way with ⟨taken', begun, rfl⟩ | ⟨rfl, -, rfl⟩
  · exact apart _ List.mem_cons_self _ (List.mem_cons_of_mem _ List.mem_cons_self) rfl rfl
  · exact (List.pairwise_cons.1 later).1 _ List.mem_cons_self rfl rfl

/-- The ways of a loop are rising if its rounds are. -/
theorem loop (greedy : Bool) (rising : AreRising lo choice round) (below : lo ≤ choice) :
    AreRising lo (choice + 1) (Ways.loop (fun _ _ => True) greedy choice round) where
  toAreForward := rising.toAreForward.loop greedy below
  begins := fun looped => .inl (rising.loop_begins looped)
  rises := by
    intro p turns q looped direct
    induction looped with
    | @last p r begin way =>
      obtain ⟨direct, -, -⟩ := List.pairwise_append.1 direct
      refine List.pairwise_append.2 ⟨rising.rises way direct, List.pairwise_singleton _ _, ?_⟩
      intro turn member later single _ _
      obtain rfl := List.mem_singleton.1 single
      exact (rising.between way turn member).most
    | @again p q r begin rest way _ others ih =>
      have apart : p ≠ r := rising.ne_of_direct way others direct
      obtain ⟨direct, direct', -⟩ := List.pairwise_append.1 direct
      obtain ⟨later, direct'⟩ := List.pairwise_cons.1 direct'
      have looping := rising.toAreForward.loop greedy below
      -- The loop goes on at a place that is not the last one, either.
      have apart' : r ≠ q := by
        obtain ⟨front, rfl⟩ := loop_stops others
        exact later _ (List.mem_append_right _ (List.mem_singleton_self _)) rfl
      -- So the round comes nowhere to the last place, and what follows not to the first.
      have early {turn : Turn} (member : turn ∈ begin) : turn.place ≠ q := by
        rintro rfl
        exact apart' ((looping.upTo others).antisymm (rising.between way turn member).before)
      have late {turn : Turn} (after : r.UpTo turn.place) : turn.place ≠ p := by
        rintro rfl
        exact apart ((rising.upTo way).antisymm after)
      have onward {turn : Turn} (member : turn ∈ rest) : r.UpTo turn.place :=
        (looping.between others turn member).after
      refine List.pairwise_append.2 ⟨?_, List.pairwise_cons.2 ⟨?_, ?_⟩, ?_⟩
      · refine (rising.rises way direct).imp_of_mem fun member _ rise same here => ?_
        exact rise same (.inl (here.resolve_right (early member)))
      · intro turn _ _ here
        exact (here.elim (late (.refl r)) apart').elim
      · refine (ih direct').imp_of_mem fun member _ rise same here => ?_
        exact rise same (.inr (here.resolve_left (late (onward member))))
      · -- Where the round and what follows it meet is neither the first place nor the last.
        intro turn member other member' same here
        have behind : r.UpTo other.place := by
          rcases List.mem_cons.1 member' with rfl | member'
          · exact .refl r
          · exact onward member'
        rw [← same] at behind
        exact (here.elim (late behind) (early member)).elim

end Loop

end AreRising

end Ways

namespace Expr

mutual

/-- The ways of an expression are rising. -/
theorem areRising_way (expr : Expr) (base : Nat) :
    (expr.Way (fun _ _ => True) base).AreRising base (base + expr.size) := by
  match expr with
  | .empty => exact .stay
  | .literal chars => exact .readAll
  | .set _ chars => exact .read
  | .look place => exact .check
  | .repetition min (some max) greedy body =>
    have each (base : Nat) : (body.Way (fun _ _ => True) base).AreRising base (base + body.size) :=
      areRising_way body base
    rw [size, ← Nat.add_assoc]
    exact (Ways.AreRising.copies each).andThen (.options each) (Nat.le_add_right _ _)
      (Nat.le_add_right _ _)
  | .repetition 0 none greedy body =>
    have looped := (areRising_way body (base + 1)).loop greedy (Nat.le_add_right _ _)
    have ends : base + (body.size + 2) = base + 1 + body.size + 1 := by omega
    rw [size, ends]
    exact looped.optional (by omega)
  | .repetition (min + 1) none greedy body =>
    have each (base : Nat) : (body.Way (fun _ _ => True) base).AreRising base (base + body.size) :=
      areRising_way body base
    have looped := (each (base + min * body.size)).loop greedy (Nat.le_add_right _ _)
    rw [size, ← Nat.add_assoc, ← Nat.add_assoc]
    exact (Ways.AreRising.copies each).andThen looped (Nat.le_add_right _ _)
      (Nat.le_add_right _ (_ + 1))
  | .capture index body =>
    exact areRising_way body base
  | .concat items => exact areRising_allWay items base
  | .alternation branches =>
    have ends : base + (sizeAll branches + branches.length + 1) =
        base + 1 + sizeAll branches + branches.length := by omega
    rw [size, ends]
    exact areRising_branchWay branches 0 (Nat.lt_succ_self base)

/-- The same for expressions one after another. -/
theorem areRising_allWay (items : List Expr) (base : Nat) :
    (AllWay (fun _ _ => True) base items).AreRising base (base + sizeAll items) := by
  match items with
  | [] => exact .stay
  | item :: items =>
    have first := areRising_way item base
    have rest := areRising_allWay items (base + item.size)
    rw [sizeAll, ← Nat.add_assoc]
    exact first.andThen rest (Nat.le_add_right _ _) (Nat.le_add_right _ _)

/-- The ways of branches are rising from the choice on. -/
theorem areRising_branchWay (branches : List Expr) {choice base : Nat} (index : Nat)
    (earlier : choice < base) :
    (BranchWay (fun _ _ => True) choice index base branches).AreRising choice
      (base + sizeAll branches + branches.length) := by
  match branches with
  | [] => exact .nothing
  | branch :: branches =>
    -- All branches begin with the choice, whatever part they go on with.
    have first := (areRising_way branch base).andThen (.turn _ 0) (Nat.le_add_right _ _)
      (Nat.le_succ _)
    have taken := first.turn_andThen earlier (by omega) index
    have later : choice < base + branch.size + 1 := by omega
    have rest := areRising_branchWay branches (index + 1) later
    have ends : base + sizeAll (branch :: branches) + (branch :: branches).length =
        base + branch.size + 1 + sizeAll branches + branches.length := by
      rw [sizeAll, List.length_cons]
      omega
    rw [BranchWay, ends]
    exact (taken.widen (by omega) (by omega)).either rest

end

/-! ### First ways after one another -/

/-- Two ways that come to a part at one place can be exchanged there. -/
theorem way_exchange {expr : Expr} {base : Nat} {p' q' : Place}
    {front back front' back' : List Turn} {turn turn' : Turn}
    (way : expr.Way (fun _ _ => True) base p (front ++ turn :: back) q)
    (way' : expr.Way (fun _ _ => True) base p' (front' ++ turn' :: back') q')
    (same : turn.part = turn'.part) (here : turn.place = turn'.place) :
    expr.Way (fun _ _ => True) base p (front ++ turn' :: back') q' := by
  -- A run of the program can be cut at any address, and so can another one that comes there.
  rw [← Nat.zero_add base, ← raise_way, ← run_ofExpr_eq] at way way' ⊢
  obtain ⟨turns, run, raised⟩ := way
  obtain ⟨turns', run', raised'⟩ := way'
  obtain ⟨front, _, rfl, rfl, rest⟩ := List.map_eq_append_iff.1 raised.symm
  obtain ⟨turn, back, rfl, rfl, -⟩ := List.map_eq_cons_iff.1 rest
  obtain ⟨front', _, rfl, -, rest'⟩ := List.map_eq_append_iff.1 raised'.symm
  obtain ⟨turn', back', rfl, rfl, rfl⟩ := List.map_eq_cons_iff.1 rest'
  have same : turn.part = turn'.part := Nat.add_right_cancel same
  have here : turn.place = turn'.place := here
  have first := run.split.1
  rw [same, here] at first
  exact ⟨_, first.append run'.split.2, by rw [List.map_append, List.map_cons]⟩

/-- Where two direct ways meet, an exchange at a part keeps them direct. -/
theorem areDirect_exchange {expr : Expr} {base : Nat} {p' q' : Place}
    {front back front' back' : List Turn} {turn turn' : Turn}
    (way : expr.Way (fun _ _ => True) base p (front ++ turn :: back) q)
    (way' : expr.Way (fun _ _ => True) base p' (front' ++ turn' :: back') q')
    (direct : Turn.AreDirect (front ++ turn :: back))
    (direct' : Turn.AreDirect (front' ++ turn' :: back'))
    (same : turn.part = turn'.part) (here : turn.place = r) (here' : turn'.place = r)
    (meet : r = p ∨ r = q) (meet' : r = p' ∨ r = q')
    (apart : ∀ earlier ∈ front, ∀ later ∈ turn' :: back', earlier.place = later.place →
      later.place = r) : Turn.AreDirect (front ++ turn' :: back') := by
  have rises := (areRising_way expr base).rises way direct
  have rises' := (areRising_way expr base).rises way' direct'
  obtain ⟨first, -, -⟩ := List.pairwise_append.1 direct
  obtain ⟨-, second, -⟩ := List.pairwise_append.1 direct'
  refine List.pairwise_append.2 ⟨first, second, fun earlier member later member' alike stays => ?_⟩
  have there := apart earlier member later member' stays
  -- What comes before has a smaller number than the part, and what follows has none.
  have below : earlier.part < turn.part := by
    refine (List.pairwise_append.1 rises).2.2 earlier member turn List.mem_cons_self ?_ ?_
    · rw [stays, there, here]
    · rwa [stays, there]
  have above : turn'.part ≤ later.part := by
    rcases List.mem_cons.1 member' with rfl | member'
    · exact Nat.le_refl _
    · apply le_of_lt
      refine (List.pairwise_cons.1 (List.pairwise_append.1 rises').2.1).1 later member' ?_ ?_
      · rw [here', there]
      · rwa [here']
  omega

end Expr

namespace Ways

/-- The direct way that is before all others from the same place. -/
def preferred (ways : Ways) : Ways :=
  fun p turns q => (ways p turns q ∧ Turn.AreDirect turns) ∧
    ∀ others r, ways p others r → Turn.AreDirect others →
      others = turns ∧ r = q ∨ Turn.Before turns others

theorem firstTo_iff_exists_preferred {ways : Ways} :
    ways.FirstTo (fun _ => True) p q ↔ ∃ turns, ways.preferred p turns q := by
  simp only [FirstTo, IsFirst, preferred, and_true, and_imp]

end Ways

namespace Expr

/-- If two preferred ways follow one another and the second one reads something, they come
to no part at the same place. -/
theorem apart_of_preferred {expr : Expr} {base : Nat} {turns others : List Turn}
    (first : (expr.Way (fun _ _ => True) base).preferred p turns r)
    (second : (expr.Way (fun _ _ => True) base).preferred r others q) (reads : r ≠ q) :
    ∀ turn ∈ turns, ∀ turn' ∈ others, turn.part = turn'.part → turn.place ≠ turn'.place := by
  intro turn member turn' member' same here
  obtain ⟨⟨way, direct⟩, least⟩ := first
  obtain ⟨⟨way', direct'⟩, least'⟩ := second
  have rising := areRising_way expr base
  have behind {turn : Turn} (member : turn ∈ turns) : turn.place.UpTo r :=
    (rising.between way turn member).before
  have ahead {turn : Turn} (member : turn ∈ others) : r.UpTo turn.place :=
    (rising.between way' turn member).after
  have there : turn.place = r := (behind member).antisymm (here ▸ ahead member')
  obtain ⟨front, back, rfl⟩ := List.append_of_mem member
  obtain ⟨front', back', rfl⟩ := List.append_of_mem member'
  -- The first way goes on as the second one does, so it comes before what that would be.
  have before : Turn.Before (turn :: back) (turn' :: back') := by
    have exchanged := areDirect_exchange way way' direct direct' same there (here ▸ there)
      (.inr rfl) (.inl rfl) fun earlier member later member' alike =>
        Place.UpTo.antisymm (alike ▸ behind (List.mem_append_left _ member))
          (ahead (List.mem_append_right _ member'))
    rcases least _ q (way_exchange way way' same here) exchanged with ⟨-, ends⟩ | before
    · exact absurd ends.symm reads
    · exact Turn.before_append_left_iff.1 before
  -- The second way stops as the first one does, so it comes before that, too.
  have after : Turn.Before (turn' :: back') (turn :: back) := by
    have exchanged := areDirect_exchange way' way direct' direct same.symm (here ▸ there) there
      (.inl rfl) (.inr rfl) fun earlier member later member' alike =>
        Place.UpTo.antisymm (behind (List.mem_append_right _ member'))
          (alike ▸ ahead (List.mem_append_left _ member))
    rcases least' _ r (way_exchange way' way same.symm here.symm) exchanged with ⟨-, ends⟩ | after
    · exact absurd ends reads
    · exact Turn.before_append_left_iff.1 after
  exact before.asymm after

end Expr

end Peg.Regex
