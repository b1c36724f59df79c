import Peg.Proofs.Matching
import Peg.Proofs.Regex.Flat
import Peg.Proofs.Regex.Raise

/-!
# First ways

Of the direct ways from one place, the first one is preferred to all others. If ways are
put together of others that keep to parts of their own, the first way is put together of
first ways: of the first one that can be gone on with, and the first one that goes on.

## Main definitions

* `Ways.FirstTo`: the first of the direct ways that end where something holds.

## Main results

* `Ways.FirstTo.andThen`, `Ways.FirstTo.exists_andThen`: one way after another.
* `Ways.FirstTo.either_left`, `Ways.FirstTo.either_right`: one way or another.
* `Ways.FirstTo.raise`: it does not matter where the numbers of the parts begin.
-/

namespace Peg.Regex

variable {lo mid hi : Nat} {p q r : Place}

/-! ### First ways of a kind -/

theorem Turn.before_append_left_iff {front turns others : List Turn} :
    Turn.Before (front ++ turns) (front ++ others) ↔ Turn.Before turns others := by
  refine ⟨fun h => ?_, fun h => h.append_left front⟩
  induction front with
  | nil => exact h
  | cons turn front ih =>
    apply ih
    obtain ⟨shared, part, place, choice, later, rest, rest', less, same, same'⟩ := h
    cases shared with
    | nil =>
      obtain ⟨rfl, -⟩ := List.cons.inj same
      obtain ⟨same', -⟩ := List.cons.inj same'
      cases same'
      exact absurd less (Nat.lt_irrefl _)
    | cons turn' shared =>
      obtain ⟨-, same⟩ := List.cons.inj same
      obtain ⟨-, same'⟩ := List.cons.inj same'
      exact ⟨shared, part, place, choice, later, rest, rest', less, same, same'⟩

theorem Turn.areDirect_append_iff {turns rest : List Turn}
    (apart : ∀ turn ∈ turns, ∀ later ∈ rest, turn.part ≠ later.part) :
    AreDirect (turns ++ rest) ↔ AreDirect turns ∧ AreDirect rest := by
  rw [AreDirect, List.pairwise_append]
  refine ⟨fun h => ⟨h.1, h.2.1⟩, fun h => ⟨h.1, h.2, ?_⟩⟩
  intro turn member later member' same
  exact absurd same (apart turn member later member')

namespace Ways

variable {first second : Ways} {ok ok' : Place → Prop}

/-- A place is the end of the first direct way from another, among those that end where
something holds. -/
def FirstTo (ways : Ways) (ok : Place → Prop) (p q : Place) : Prop :=
  IsFirst (fun turns r => ways p turns r ∧ Turn.AreDirect turns ∧ ok r) q

theorem FirstTo.of_imp (h : first.FirstTo ok p q) (weaker : ∀ r, ok' r → ok r)
    (holds : ok' q) : first.FirstTo ok' p q := by
  obtain ⟨turns, ⟨way, direct, -⟩, least⟩ := h
  refine ⟨turns, ⟨way, direct, holds⟩, ?_⟩
  rintro others r ⟨way', direct', holds'⟩
  exact least others r ⟨way', direct', weaker r holds'⟩

theorem areWithin_turn (part choice : Nat) : (turn part choice).AreWithin part (part + 1) := by
  rintro p _ q ⟨rfl, -⟩
  exact List.forall_mem_singleton.2 ⟨Nat.le_refl part, Nat.lt_succ_self part⟩

theorem AreWithin.widen {lo' hi' : Nat} (h : AreWithin lo hi first) (below : lo' ≤ lo)
    (above : hi ≤ hi') : AreWithin lo' hi' first := by
  intro p turns q way turn member
  obtain ⟨least, most⟩ := h p turns q way turn member
  exact ⟨below.trans least, most.trans_le above⟩

theorem AreWithin.andThen (one : AreWithin lo mid first) (two : AreWithin mid hi second)
    (below : lo ≤ mid) (above : mid ≤ hi) : AreWithin lo hi (first.andThen second) := by
  rintro p _ q ⟨r, begin, rest, way, onward, rfl⟩
  exact List.forall_mem_append.2
    ⟨one.widen le_rfl above _ _ _ way, two.widen below le_rfl _ _ _ onward⟩

/-- Ways at the parts of different ranges. -/
def AreApart (first second : Ways) : Prop :=
  ∀ p turns q p' turns' q', first p turns q → second p' turns' q' →
    ∀ turn ∈ turns, ∀ turn' ∈ turns', turn.part ≠ turn'.part

theorem AreWithin.apart (one : AreWithin lo mid first) (two : AreWithin mid hi second) :
    AreApart first second := by
  intro p turns q p' turns' q' way way' turn member turn' member' same
  have below := (one p turns q way turn member).2
  have above := (two p' turns' q' way' turn' member').1
  omega

/-- The first way to where another can go on, and then the first of those. -/
theorem FirstTo.andThen (apart : AreApart first second)
    (one : first.FirstTo (fun r => ∃ turns q, second r turns q ∧ Turn.AreDirect turns ∧ ok q) p r)
    (two : second.FirstTo ok r q) : (first.andThen second).FirstTo ok p q := by
  obtain ⟨begin, ⟨way, direct, -⟩, least⟩ := one
  obtain ⟨rest, ⟨onward, direct', holds⟩, least'⟩ := two
  refine ⟨begin ++ rest, ⟨⟨r, begin, rest, way, onward, rfl⟩, ?_, holds⟩, ?_⟩
  · exact (Turn.areDirect_append_iff (apart _ _ _ _ _ _ way onward)).2 ⟨direct, direct'⟩
  · rintro _ s ⟨⟨r', begin', rest', way', onward', rfl⟩, straight, ends⟩
    obtain ⟨straight, straight'⟩ :=
      (Turn.areDirect_append_iff (apart _ _ _ _ _ _ way' onward')).1 straight
    -- Two ways part in their beginnings, or they begin alike and part in what follows.
    rcases least begin' r' ⟨way', straight, rest', s, onward', straight', ends⟩ with
      ⟨rfl, rfl⟩ | before
    · rcases least' rest' s ⟨onward', straight', ends⟩ with ⟨rfl, rfl⟩ | before
      · exact .inl ⟨rfl, rfl⟩
      · exact .inr (before.append_left begin')
    · exact .inr (before.append rest rest')

/-- The first way begins with the first of those that can go on. -/
theorem FirstTo.exists_andThen (apart : AreApart first second) (comparable : first.AreComparable)
    (h : (first.andThen second).FirstTo ok p q) :
    ∃ r, first.FirstTo (fun r => ∃ turns q, second r turns q ∧ Turn.AreDirect turns ∧ ok q) p r ∧
      second.FirstTo ok r q := by
  obtain ⟨_, ⟨⟨r, begin, rest, way, onward, rfl⟩, direct, holds⟩, least⟩ := h
  obtain ⟨straight, straight'⟩ :=
    (Turn.areDirect_append_iff (apart _ _ _ _ _ _ way onward)).1 direct
  refine ⟨r, ⟨begin, ⟨way, straight, rest, q, onward, straight', holds⟩, ?_⟩,
    ⟨rest, ⟨onward, straight', holds⟩, ?_⟩⟩
  · rintro begin' r' ⟨way', direct', rest', q', onward', direct'', holds'⟩
    have whole : Turn.AreDirect (begin' ++ rest') :=
      (Turn.areDirect_append_iff (apart _ _ _ _ _ _ way' onward')).2 ⟨direct', direct''⟩
    -- A way before this one would make a way before the whole one.
    rcases comparable p begin r begin' r' way way' with same | before | after
    · exact .inl same
    · exact .inr before
    · have behind := after.append rest' rest
      rcases least _ q' ⟨⟨r', begin', rest', way', onward', rfl⟩, whole, holds'⟩ with
        ⟨same, -⟩ | ahead
      · rw [same] at behind
        exact absurd behind behind.asymm
      · exact absurd behind ahead.asymm
  · rintro rest' q' ⟨onward', direct', holds'⟩
    -- With the same beginning, the whole ways are in the order of their rests.
    have whole : Turn.AreDirect (begin ++ rest') :=
      (Turn.areDirect_append_iff (apart _ _ _ _ _ _ way onward')).2 ⟨straight, direct'⟩
    rcases least _ q' ⟨⟨r, begin, rest', way, onward', rfl⟩, whole, holds'⟩ with
      ⟨same, ends⟩ | ahead
    · exact .inl ⟨List.append_cancel_left same, ends⟩
    · exact .inr (Turn.before_append_left_iff.1 ahead)

/-- If there is a first way of one kind and all of its ways come before those of another. -/
theorem FirstTo.either_left (h : first.FirstTo ok p q)
    (before : ∀ turns q others r, first p turns q → second p others r →
      Turn.Before turns others) : (either first second).FirstTo ok p q := by
  obtain ⟨turns, ⟨way, direct, holds⟩, least⟩ := h
  refine ⟨turns, ⟨.inl way, direct, holds⟩, ?_⟩
  rintro others r ⟨way' | way', direct', holds'⟩
  · exact least others r ⟨way', direct', holds'⟩
  · exact .inr (before _ _ _ _ way way')

theorem FirstTo.either_right (h : second.FirstTo ok p q)
    (none : ∀ turns q, ¬ first p turns q) : (either first second).FirstTo ok p q := by
  obtain ⟨turns, ⟨way, direct, holds⟩, least⟩ := h
  refine ⟨turns, ⟨.inr way, direct, holds⟩, ?_⟩
  rintro others r ⟨way' | way', direct', holds'⟩
  · exact absurd way' (none others r)
  · exact least others r ⟨way', direct', holds'⟩

theorem firstTo_turn {part choice : Nat} (holds : ok p) : (turn part choice).FirstTo ok p p := by
  refine ⟨_, ⟨⟨rfl, rfl⟩, List.pairwise_singleton _ _, holds⟩, ?_⟩
  rintro others r ⟨⟨rfl, rfl⟩, -, -⟩
  exact .inl ⟨rfl, rfl⟩

theorem areDirect_raise_iff {shift : Nat} {turns : List Turn} :
    Turn.AreDirect (turns.map (Turn.raise shift)) ↔ Turn.AreDirect turns := by
  rw [Turn.AreDirect, List.pairwise_map]
  simp [Turn.raise, Turn.AreDirect]

theorem before_raise {shift : Nat} {turns others : List Turn} (h : Turn.Before turns others) :
    Turn.Before (turns.map (Turn.raise shift)) (others.map (Turn.raise shift)) := by
  obtain ⟨shared, part, place, choice, later, rest, rest', less, rfl, rfl⟩ := h
  exact ⟨shared.map (Turn.raise shift), part + shift, place, choice, later, _, _, less,
    by rw [List.map_append]; rfl, by rw [List.map_append]; rfl⟩

/-- It does not matter where the numbers of the parts begin. -/
theorem FirstTo.raise (h : first.FirstTo ok p q) (shift : Nat) :
    (first.raise shift).FirstTo ok p q := by
  obtain ⟨turns, ⟨way, direct, holds⟩, least⟩ := h
  refine ⟨_, ⟨⟨turns, way, rfl⟩, areDirect_raise_iff.2 direct, holds⟩, ?_⟩
  rintro _ r ⟨⟨others, way', rfl⟩, direct', holds'⟩
  rcases least others r ⟨way', areDirect_raise_iff.1 direct', holds'⟩ with ⟨rfl, rfl⟩ | before
  · exact .inl ⟨rfl, rfl⟩
  · exact .inr (before_raise before)

end Ways

end Peg.Regex
