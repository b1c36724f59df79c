import Peg.Proofs.Regex.Choices
import Peg.Proofs.Regex.Renumber
import Peg.Proofs.Regex.Rising

/-!
# The first way of a star

The first way of a star leads through the first way of what is repeated, again and again
until that does not match, as long as each of these ways reads something. All of them
together are direct, as no two of them have a turn in common.

## Main definitions

* `Expr.FirstRounds`: the first way of an expression, as often as it can be followed.

## Main results

* `Ways.preferred_loop_last`, `Ways.preferred_loop_again`: the first way of a loop stops
  where no round follows, and goes on otherwise.
* `Expr.FirstRounds.isFirst`: the first way of a star leads through the first rounds.
-/

namespace Peg.Regex

variable {p q r : Place}

/-! ### Loops -/

namespace Ways

variable {lo choice : Nat} {round : Ways} {begin rest : List Turn}

/-- Where no round follows the first one, the loop stops. -/
theorem preferred_loop_last {greedy : Bool} (within : AreWithin lo choice round)
    (first : round.preferred p begin r) (none : ∀ turns q, ¬ round r turns q) :
    (loop (fun _ _ => True) greedy choice round).preferred p
      (begin ++ [⟨choice, r, stop greedy⟩]) r := by
  obtain ⟨⟨way, direct⟩, least⟩ := first
  refine ⟨⟨.last way, ?_⟩, fun others s looped straight => ?_⟩
  · refine List.pairwise_append.2 ⟨direct, List.pairwise_singleton _ _, ?_⟩
    intro turn member later single same
    obtain rfl := List.mem_singleton.1 single
    exact absurd same (within _ _ _ way turn member).2.ne
  · -- Other ways through the loop part from this one in their first round, as there is no other.
    cases looped with
    | last way' =>
      rcases least _ s way' (List.pairwise_append.1 straight).1 with ⟨rfl, rfl⟩ | before
      · exact .inl ⟨rfl, rfl⟩
      · exact .inr (before.append _ _)
    | @again _ _ r' _ _ way' _ others =>
      rcases least _ r' way' (List.pairwise_append.1 straight).1 with ⟨-, rfl⟩ | before
      · cases others with
        | last another => exact absurd another (none _ _)
        | again another => exact absurd another (none _ _)
      · exact .inr (before.append _ _)

/-- Where the loop can go on, it does so if it is greedy. -/
theorem preferred_loop_again (first : round.preferred p begin r)
    (others : (loop (fun _ _ => True) true choice round).preferred r rest q)
    (direct : Turn.AreDirect (begin ++ ⟨choice, r, goOn true⟩ :: rest)) :
    (loop (fun _ _ => True) true choice round).preferred p
      (begin ++ ⟨choice, r, goOn true⟩ :: rest) q := by
  obtain ⟨⟨way, -⟩, least⟩ := first
  obtain ⟨⟨looped, -⟩, least'⟩ := others
  refine ⟨⟨.again way trivial looped, direct⟩, fun turns s looped' straight => ?_⟩
  cases looped' with
  | last way' =>
    rcases least _ s way' (List.pairwise_append.1 straight).1 with ⟨rfl, rfl⟩ | before
    · -- After the same round, stopping is the later choice of a greedy loop.
      exact .inr ⟨_, choice, s, 0, 1, rest, [], Nat.zero_lt_one, rfl, rfl⟩
    · exact .inr (before.append _ _)
  | @again _ _ r' _ rest' way' _ others' =>
    obtain ⟨straight, onward, -⟩ := List.pairwise_append.1 straight
    rcases least _ r' way' straight with ⟨rfl, rfl⟩ | before
    · rcases least' rest' s others' (List.pairwise_cons.1 onward).2 with ⟨rfl, rfl⟩ | before
      · exact .inl ⟨rfl, rfl⟩
      · exact .inr ((before.append_left [⟨choice, r', goOn true⟩]).append_left _)
    · exact .inr (before.append _ _)

end Ways

/-! ### First rounds -/

namespace Expr

/-- The first way of an expression, again and again until it does not match, where every
round reads something. -/
inductive FirstRounds (expr : Expr) : Place → Place → Prop
  | done {p : Place} (none : ∀ q, ¬ expr.Matches p q) : FirstRounds expr p p
  | next {p q r : Place} (first : IsFirst (expr.DirectWay p) r) (reads : p ≠ r)
    (rest : FirstRounds expr r q) : FirstRounds expr p q

namespace FirstRounds

variable {expr : Expr}

/-- A loop leads through the first rounds, and is behind the first one when that is done. -/
theorem exists_loop (inOrder : expr.Within .ordered) (h : expr.FirstRounds p q) (base : Nat) :
    (∀ r, ¬ expr.Matches p r) ∧ p = q ∨ ∃ r begin choice rest, p ≠ r ∧
      (expr.Way (fun _ _ => True) base).preferred p begin r ∧
      (Ways.loop (fun _ _ => True) true (base + expr.size)
        (expr.Way (fun _ _ => True) base)).preferred p
          (begin ++ ⟨base + expr.size, r, choice⟩ :: rest) q ∧
      ∀ turn ∈ rest, r.UpTo turn.place := by
  have within := areWithin_way expr base
  have rising := areRising_way expr base
  have below {p q : Place} {turns : List Turn}
      (way : expr.Way (fun _ _ => True) base p turns q) {turn : Turn} (member : turn ∈ turns) :
      turn.part ≠ base + expr.size :=
    (within _ _ _ way turn member).2.ne
  induction h with
  | done none => exact .inl ⟨none, rfl⟩
  | @next p q r first reads _ ih =>
    obtain ⟨begin, round⟩ :=
      Ways.firstTo_iff_exists_preferred.1 ((firstTo_way_iff inOrder base).2 first)
    refine .inr ⟨r, begin, ?_⟩
    rcases ih with ⟨none, rfl⟩ | ⟨s, begin', choice, rest, reads', round', looped, beyond⟩
    · refine ⟨Ways.stop true, [], reads, round, ?_, List.forall_mem_nil _⟩
      exact Ways.preferred_loop_last within round fun turns q way => none q (way.matches inOrder)
    · have further : r.UpTo s := rising.upTo round'.1.1
      have behind {turn : Turn} (member : turn ∈ begin) : turn.place.UpTo r :=
        (rising.between round.1.1 turn member).before
      -- After the second round no turn is taken where the first one ends.
      have apart {turn : Turn} (member : turn ∈ rest) : ¬ turn.place.UpTo r := fun back =>
        reads' (further.antisymm ((beyond turn member).trans back))
      refine ⟨Ways.goOn true, begin' ++ ⟨base + expr.size, s, choice⟩ :: rest, reads, round,
        Ways.preferred_loop_again round looped ?_, ?_⟩
      · -- The first round and the rest are direct each, and have no turn in common.
        refine List.pairwise_append.2 ⟨round.1.2, List.pairwise_cons.2 ⟨?_, looped.1.2⟩, ?_⟩
        · refine List.forall_mem_append.2 ⟨fun turn member same => ?_,
            List.forall_mem_cons.2 ⟨fun _ => reads', fun turn member _ here => ?_⟩⟩
          · exact absurd same.symm (below round'.1.1 member)
          · exact apart member (here ▸ .refl r)
        · intro turn member
          have lower := below round.1.1 member
          refine List.forall_mem_cons.2 ⟨fun same => absurd same lower,
            List.forall_mem_append.2 ⟨apart_of_preferred round round' reads' turn member,
              List.forall_mem_cons.2 ⟨fun same => absurd same lower, ?_⟩⟩⟩
          intro later member' _ here
          exact apart member' (here ▸ behind member)
      · refine List.forall_mem_append.2
          ⟨fun turn member => (rising.between round'.1.1 turn member).after,
            List.forall_mem_cons.2 ⟨further, fun turn member => further.trans (beyond turn member)⟩⟩

/-- **The first way of a star leads through the first rounds, if all of them read.** -/
theorem isFirst (inOrder : expr.Within .ordered) (h : expr.FirstRounds p q) :
    IsFirst ((repetition 0 none true expr).DirectWay p) q := by
  rcases h.exists_loop inOrder 1 with ⟨none, rfl⟩ | ⟨r, begin, choice, rest, -, -, looped, -⟩
  · -- Nothing is left but to stop.
    refine ⟨[⟨0, p, Ways.stop true⟩], ⟨.inl ⟨rfl, rfl⟩, List.pairwise_singleton _ _⟩, ?_⟩
    rintro others r ⟨⟨rfl, rfl⟩ | ⟨_, _, rest, ⟨-, rfl⟩, looped, -⟩, -⟩
    · exact .inl ⟨rfl, rfl⟩
    · cases looped with
      | last way => exact absurd (way.matches inOrder) (none _)
      | again way => exact absurd (way.matches inOrder) (none _)
  · obtain ⟨⟨looped, direct⟩, least⟩ := looped
    have forward := (areRising_way expr 1).toAreForward.loop true (Nat.le_add_right _ _)
    refine ⟨_, ⟨.inr ⟨p, _, _, ⟨rfl, rfl⟩, looped, rfl⟩, ?_⟩, ?_⟩
    · refine List.pairwise_cons.2 ⟨fun turn member same => ?_, direct⟩
      have lower := (forward.between looped turn member).least
      exact absurd same (Nat.ne_of_lt lower)
    · rintro others s ⟨⟨rfl, rfl⟩ | ⟨_, _, rest', ⟨rfl, rfl⟩, looped', rfl⟩, straight⟩
      · exact .inr ⟨[], 0, p, 0, 1, _, [], Nat.zero_lt_one, rfl, rfl⟩
      · rcases least rest' s looped' (List.pairwise_cons.1 straight).2 with ⟨rfl, rfl⟩ | before
        · exact .inl ⟨rfl, rfl⟩
        · exact .inr (before.append_left [⟨0, p, Ways.goOn true⟩])

/-- The same in normal form, where what matches only the empty text is repeated at most
once. -/
theorem isFirst_ofRepetition (inOrder : expr.Within .ordered) (h : expr.FirstRounds p q) :
    IsFirst ((ofRepetition 0 none true expr).DirectWay p) q := by
  have counts : Allowed.ordered.counts 0 none := by
    intro most bounded
    cases bounded
  by_cases short : expr.maxLength = some 0
  · cases h with
    | next first reads _ => exact absurd ((matches_of_isFirst inOrder first).still short) reads
    | done none =>
      have whole := matches_ofRepetition counts true expr
      apply isFirst_of_unique (within_ofRepetition inOrder Allowed.atMostOnce_ordered counts true)
      · rw [whole]
        exact ⟨0, Nat.le_refl 0, fun most _ => Nat.zero_le most, rfl⟩
      · intro r matched
        rw [whole] at matched
        obtain ⟨count, -, -, times⟩ := matched
        cases count with
        | zero => exact times.symm
        | succ count =>
          obtain ⟨s, first, -⟩ := times
          exact absurd first (none s)
  · have normal : ofRepetition 0 none true expr = repetition 0 none true expr := by
      simp [ofRepetition, short]
    rw [normal]
    exact h.isFirst inOrder

/-- The numbers of groups do not matter. -/
theorem renumber (inOrder : expr.Within .ordered) (h : expr.FirstRounds p q) (shift : Nat) :
    (expr.renumber shift).FirstRounds p q := by
  induction h with
  | done none =>
    rw [← matches_renumber inOrder] at none
    exact .done none
  | next first reads _ ih =>
    rw [← directWay_renumber expr] at first
    exact .next first reads ih

end FirstRounds

end Expr

end Peg.Regex
