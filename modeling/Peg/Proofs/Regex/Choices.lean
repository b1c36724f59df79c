import Peg.Proofs.Regex.First

/-!
# The first way of what is put together

The first way through a concatenation leads through its beginning on the first way after
which the end matches, and then on the first way through the end. The first way through
an alternation is that of the first branch that matches at all.

In normal form a beginning that all branches share stands before the alternation of what
they have left. So the beginning is chosen before the branch. The order of the branches
is kept only if what is left of the first branch that matches goes on from where the
first way through the beginning leads.

## Main definitions

* `Expr.FirstOf`: the first of several expressions that matches, and its first way.
* `Expr.leftOver`: what branches have left behind the beginning that they share.
* `Expr.KeepsOrder`: the beginning leads to where the first branch that matches goes on.

## Main results

* `Expr.isFirst_concat_append_iff`, `Expr.isFirst_alternation_iff`: the first ways.
* `Expr.way_ofConcat`: the normal form of a concatenation has the same ways.
* `Expr.isFirst_ofAlternation_of_apart`, `Expr.isFirst_ofAlternation_of_shared`: the first
  way through the normal form of an alternation.
* `Expr.firstOf_of_isFirst_ofAlternation`: if order is kept, it is that of the first branch
  that matches.
-/

namespace Peg.Regex.Expr

variable {expr last : Expr} {beginning items choices : List Expr} {p q r : Place}
  {more : Place → Place → Prop}

theorem isFirst_directWay_iff : IsFirst (expr.DirectWay p) q ↔
    (expr.Way (fun _ _ => True) 0).FirstTo (fun _ => True) p q := by
  simp only [Ways.FirstTo, and_true]
  rfl

/-- An expression matches where it has a direct way, wherever its numbers begin. -/
theorem matches_iff_exists_way (inOrder : expr.Within .ordered) (base : Nat) :
    expr.Matches p q ↔
      ∃ turns, expr.Way (fun _ _ => True) base p turns q ∧ Turn.AreDirect turns := by
  rw [matches_iff_exists_directWay inOrder, ← Nat.zero_add base, ← raise_way]
  constructor
  · rintro ⟨turns, way, direct⟩
    exact ⟨_, ⟨turns, way, rfl⟩, Ways.areDirect_raise_iff.2 direct⟩
  · rintro ⟨_, ⟨turns, way, rfl⟩, direct⟩
    exact ⟨turns, way, Ways.areDirect_raise_iff.1 direct⟩

/-- The first way is the same one, wherever the numbers begin. -/
theorem firstTo_way_iff (inOrder : expr.Within .ordered) (base : Nat) :
    (expr.Way (fun _ _ => True) base).FirstTo (fun _ => True) p q ↔
      IsFirst (expr.DirectWay p) q := by
  have raised {r : Place} (first : IsFirst (expr.DirectWay p) r) :
      (expr.Way (fun _ _ => True) base).FirstTo (fun _ => True) p r := by
    have first := (isFirst_directWay_iff.1 first).raise base
    rwa [raise_way, Nat.zero_add] at first
  refine ⟨fun first => ?_, raised⟩
  -- Somewhere a first way ends, and it cannot be elsewhere.
  have ⟨turns, ⟨way, direct, _⟩, _⟩ := first
  have matched : expr.Matches p q := (matches_iff_exists_way inOrder base).2 ⟨turns, way, direct⟩
  obtain ⟨r, first'⟩ := matched.exists_isFirst inOrder
  rwa [first.unique (raised first')]

/-! ### Concatenations -/

theorem sizeAll_append (items more : List Expr) :
    sizeAll (items ++ more) = sizeAll items + sizeAll more := by
  induction items with
  | nil => simp [sizeAll]
  | cons item items ih => rw [List.cons_append, sizeAll, sizeAll, ih, Nat.add_assoc]

theorem allWay_append (base : Nat) (items others : List Expr) :
    AllWay more base (items ++ others) =
      (AllWay more base items).andThen (AllWay more (base + sizeAll items) others) := by
  induction items generalizing base with
  | nil => rw [List.nil_append, AllWay, Ways.stay_andThen, sizeAll, Nat.add_zero]
  | cons item items ih =>
    rw [List.cons_append, AllWay, AllWay, ih, Ways.andThen_assoc, sizeAll, Nat.add_assoc]

theorem allWay_singleton (base : Nat) (item : Expr) :
    AllWay more base [item] = item.Way more base := by
  rw [AllWay, AllWay, Ways.andThen_stay]

theorem readAll_append (base : Nat) (chars others : List Char) :
    Ways.readAll base (chars ++ others) =
      (Ways.readAll base chars).andThen (Ways.readAll (base + chars.length) others) := by
  induction chars generalizing base with
  | nil => rw [List.nil_append, Ways.readAll, Ways.stay_andThen, List.length_nil, Nat.add_zero]
  | cons c chars ih =>
    rw [List.cons_append, Ways.readAll, Ways.readAll, ih, Ways.andThen_assoc, List.length_cons,
      Nat.add_right_comm, Nat.add_assoc base]

theorem allWay_consLiteral (item : Expr) (row : List Expr) (base : Nat) :
    AllWay more base (item.consLiteral row) = AllWay more base (item :: row) ∧
      sizeAll (item.consLiteral row) = sizeAll (item :: row) := by
  unfold consLiteral
  split
  · next a b row =>
    constructor
    · simp only [AllWay, Way, size, readAll_append, Ways.andThen_assoc, List.length_append,
        Nat.add_assoc]
    · simp only [sizeAll, size, List.length_append, Nat.add_assoc]
  · exact ⟨rfl, rfl⟩

theorem allWay_parts (item : Expr) (base : Nat) :
    AllWay more base item.parts = item.Way more base ∧ sizeAll item.parts = item.size := by
  cases item with
  | concat items => exact ⟨rfl, rfl⟩
  | empty => exact ⟨rfl, rfl⟩
  | literal | set | look | repetition | capture | alternation =>
    exact ⟨allWay_singleton base _, Nat.add_zero _⟩

/-- Putting expressions together to a row does not change their ways. -/
theorem allWay_joined (items : List Expr) (base : Nat) :
    AllWay more base ((items.flatMap parts).foldr consLiteral []) = AllWay more base items ∧
      sizeAll ((items.flatMap parts).foldr consLiteral []) = sizeAll items := by
  have joined (row : List Expr) (base : Nat) :
      AllWay more base (row.foldr consLiteral []) = AllWay more base row ∧
        sizeAll (row.foldr consLiteral []) = sizeAll row := by
    induction row generalizing base with
    | nil => exact ⟨rfl, rfl⟩
    | cons item row ih =>
      obtain ⟨ways, sizes⟩ := @allWay_consLiteral more item (row.foldr consLiteral []) base
      rw [List.foldr_cons, ways, sizes, AllWay, AllWay, sizeAll, sizeAll]
      exact ⟨by rw [(ih _).1], by rw [(ih base).2]⟩
  obtain ⟨ways, sizes⟩ := joined (items.flatMap parts) base
  rw [ways, sizes]
  -- What is left to compare is a row of rows with the row of all their parts.
  clear joined ways sizes
  induction items generalizing base with
  | nil => exact ⟨rfl, rfl⟩
  | cons item items ih =>
    obtain ⟨ways, sizes⟩ := @allWay_parts more item base
    rw [List.flatMap_cons, allWay_append, sizeAll_append, ways, sizes, AllWay, sizeAll]
    exact ⟨by rw [(ih _).1], by rw [(ih base).2]⟩

theorem way_ofConcat (items : List Expr) (base : Nat) :
    (ofConcat items).Way more base = AllWay more base items := by
  rw [← (allWay_joined items base).1]
  exact ofConcat_cases
    (motive := fun row result => result.Way more base = AllWay more base row)
    rfl (fun item => (allWay_singleton base item).symm) (fun _ => rfl) items

theorem directWay_ofConcat (items : List Expr) :
    (ofConcat items).DirectWay = (concat items).DirectWay := by
  funext p turns q
  rw [DirectWay, DirectWay, way_ofConcat, Way]

/-- The first way through a beginning and one more expression leads through the beginning
on the first way after which the other matches. -/
theorem isFirst_concat_append_iff (inOrder : AllWithin .ordered (beginning ++ [last])) :
    IsFirst ((concat (beginning ++ [last])).DirectWay p) q ↔
      ∃ r, (AllWay (fun _ _ => True) 0 beginning).FirstTo (fun r => ∃ s, last.Matches r s) p r ∧
        IsFirst (last.DirectWay r) q := by
  have lastOrder : last.Within .ordered :=
    allWithin_iff.1 inOrder last (List.mem_append_right _ (List.mem_singleton_self last))
  have shape : (concat (beginning ++ [last])).Way (fun _ _ => True) 0 =
      (AllWay (fun _ _ => True) 0 beginning).andThen
        (last.Way (fun _ _ => True) (sizeAll beginning)) := by
    rw [Way, allWay_append, allWay_singleton, Nat.zero_add]
  have apart : Ways.AreApart (AllWay (fun _ _ => True) 0 beginning)
      (last.Way (fun _ _ => True) (sizeAll beginning)) := by
    have within := areWithin_way (concat beginning) 0
    rw [size, Nat.zero_add] at within
    exact within.apart (areWithin_way last _)
  -- The expression can go on where it matches.
  have goes : (fun r => ∃ turns s, last.Way (fun _ _ => True) (sizeAll beginning) r turns s ∧
      Turn.AreDirect turns ∧ True) = fun r => ∃ s, last.Matches r s := by
    funext r
    simp only [matches_iff_exists_way lastOrder (sizeAll beginning), and_true, eq_iff_iff]
    exact exists_comm
  rw [isFirst_directWay_iff, shape]
  constructor
  · intro first
    obtain ⟨r, one, two⟩ := first.exists_andThen apart (areComparable_way (concat beginning))
    rw [goes] at one
    exact ⟨r, one, (firstTo_way_iff lastOrder _).1 two⟩
  · rintro ⟨r, one, two⟩
    rw [← goes] at one
    exact one.andThen apart ((firstTo_way_iff lastOrder _).2 two)

/-! ### Alternations -/

/-- The first of several expressions that matches anything leads from one place to
another on its first way. -/
def FirstOf : List Expr → Place → Place → Prop
  | [], _, _ => False
  | branch :: choices, p, q =>
    IsFirst (branch.DirectWay p) q ∨ (∀ r, ¬ branch.Matches p r) ∧ FirstOf choices p q

theorem matches_of_isFirst (inOrder : expr.Within .ordered)
    (h : IsFirst (expr.DirectWay p) q) : expr.Matches p q := by
  obtain ⟨turns, way, -⟩ := h
  exact (matches_iff_exists_directWay inOrder).2 ⟨turns, way⟩

theorem FirstOf.anyMatches (inOrder : AllWithin .ordered choices) (h : FirstOf choices p q) :
    AnyMatches choices p q := by
  induction choices with
  | nil => exact h
  | cons branch choices ih =>
    rcases h with first | ⟨-, others⟩
    · exact .inl (matches_of_isFirst inOrder.1 first)
    · exact .inr (ih inOrder.2 others)

theorem FirstOf.unique (inOrder : AllWithin .ordered choices) (h : FirstOf choices p q)
    (h' : FirstOf choices p r) : q = r := by
  induction choices with
  | nil => exact h.elim
  | cons branch choices ih =>
    rcases h with first | ⟨none, others⟩
    · rcases h' with first' | ⟨none, -⟩
      · exact first.unique first'
      · exact absurd (matches_of_isFirst inOrder.1 first) (none q)
    · rcases h' with first' | ⟨-, others'⟩
      · exact absurd (matches_of_isFirst inOrder.1 first') (none r)
      · exact ih inOrder.2 others others'

theorem AnyMatches.exists_firstOf (inOrder : AllWithin .ordered choices)
    (h : AnyMatches choices p q) : ∃ r, FirstOf choices p r := by
  induction choices with
  | nil => exact h.elim
  | cons branch choices ih =>
    by_cases matched : ∃ r, branch.Matches p r
    · obtain ⟨r, matched⟩ := matched
      obtain ⟨s, first⟩ := matched.exists_isFirst inOrder.1
      exact ⟨s, .inl first⟩
    · have none : ∀ r, ¬ branch.Matches p r := fun r matched' => matched ⟨r, matched'⟩
      obtain ⟨r, first⟩ := ih inOrder.2 (h.resolve_left (none q))
      exact ⟨r, .inr ⟨none, first⟩⟩

theorem firstOf_append_iff {others : List Expr} : FirstOf (choices ++ others) p q ↔
    FirstOf choices p q ∨ (∀ r, ¬ AnyMatches choices p r) ∧ FirstOf others p q := by
  induction choices with
  | nil => simp [FirstOf, AnyMatches]
  | cons branch choices ih =>
    simp only [List.cons_append, FirstOf, ih, AnyMatches, not_or, forall_and]
    tauto

/-- The first way through branches is that of the first branch that has one. -/
theorem FirstOf.branchWay (inOrder : AllWithin .ordered choices) (h : FirstOf choices p q)
    {choice base : Nat} (index : Nat) (below : choice < base) :
    (BranchWay (fun _ _ => True) choice index base choices).FirstTo (fun _ => True) p q := by
  induction choices generalizing index base with
  | nil => exact h.elim
  | cons branch choices ih =>
    rcases h with first | ⟨none, others⟩
    · apply Ways.FirstTo.either_left
      · -- The branch stands between the turn that chooses it and the turn that leaves it.
        have within := areWithin_way branch base
        have ends := Ways.areWithin_turn (base + branch.size) 0
        have way := (firstTo_way_iff inOrder.1 base).2 first
        have taken : ((branch.Way (fun _ _ => True) base).andThen
            (.turn (base + branch.size) 0)).FirstTo (fun _ => True) p q := by
          apply (way.of_imp (fun _ _ => trivial) _).andThen (within.apart ends)
          · exact Ways.firstTo_turn trivial
          · exact ⟨_, q, ⟨rfl, rfl⟩, List.pairwise_singleton _ _, trivial⟩
        have further := within.andThen ends (Nat.le_add_right _ _) (Nat.le_succ _)
        have begins := (Ways.areWithin_turn choice index).widen (Nat.le_refl choice) below
        have ⟨turns, way', _⟩ := taken
        exact (Ways.firstTo_turn ⟨turns, q, way'⟩).andThen (begins.apart further) taken
      · -- A later branch is a later choice at the same part.
        intro turns q others r way way'
        obtain ⟨rest, rfl, -⟩ := Ways.turn_andThen_iff.1 way
        obtain ⟨taken, rest', rfl, later⟩ := exists_choice_of_branchWay way'
        exact ⟨[], choice, _, index, taken, rest, rest', later, rfl, rfl⟩
    · apply Ways.FirstTo.either_right
      · exact ih inOrder.2 others (index + 1) (by omega)
      · rintro turns r ⟨_, _, _, ⟨-, rfl⟩, ⟨s, _, _, way, -, -⟩, -⟩
        exact none s (way.matches inOrder.1)

/-- An alternation takes the first way of the first branch that matches. -/
theorem isFirst_alternation_iff (inOrder : AllWithin .ordered choices) :
    IsFirst ((alternation choices).DirectWay p) q ↔ FirstOf choices p q := by
  have chosen {r : Place} (first : FirstOf choices p r) :
      IsFirst ((alternation choices).DirectWay p) r :=
    isFirst_directWay_iff.2 (first.branchWay inOrder 0 Nat.zero_lt_one)
  refine ⟨fun first => ?_, chosen⟩
  have inside : (alternation choices).Within .ordered := inOrder
  have matched : AnyMatches choices p q := matches_of_isFirst inside first
  obtain ⟨r, first'⟩ := matched.exists_firstOf inOrder
  rwa [first.unique (chosen first')]

theorem firstOf_singleton_iff : FirstOf [expr] p q ↔ IsFirst (expr.DirectWay p) q := by
  simp [FirstOf]

theorem firstOf_branches_iff (inOrder : expr.Within .ordered) :
    FirstOf expr.branches p q ↔ IsFirst (expr.DirectWay p) q := by
  cases expr with
  | alternation choices => exact (isFirst_alternation_iff inOrder).symm
  | empty | literal | set | look | repetition | capture | concat => exact firstOf_singleton_iff

/-- The branches of alternatives are tried in the order of the alternatives. -/
theorem firstOf_flatMap_branches_iff (inOrder : AllWithin .ordered items) :
    FirstOf (items.flatMap Expr.branches) p q ↔ FirstOf items p q := by
  induction items with
  | nil => exact Iff.rfl
  | cons item items ih =>
    have none : (∀ r, ¬ AnyMatches item.branches p r) ↔ ∀ r, ¬ item.Matches p r := by
      simp only [anyMatches_branches]
    rw [List.flatMap_cons, firstOf_append_iff, firstOf_branches_iff inOrder.1, none, ih inOrder.2,
      FirstOf]

/-- If all that matches ends at one place, it does not matter which is the first. -/
theorem FirstOf.of_unique (inOrder : AllWithin .ordered choices) (h : AnyMatches choices p q)
    (unique : ∀ r, AnyMatches choices p r → r = q) : FirstOf choices p q := by
  obtain ⟨r, first⟩ := h.exists_firstOf inOrder
  rwa [← unique r (first.anyMatches inOrder)]

theorem isFirst_of_unique (inOrder : expr.Within .ordered) (h : expr.Matches p q)
    (unique : ∀ r, expr.Matches p r → r = q) : IsFirst (expr.DirectWay p) q := by
  obtain ⟨r, first⟩ := h.exists_isFirst inOrder
  rwa [← unique r (matches_of_isFirst inOrder first)]

/-! ### Alternatives that share a beginning -/

theorem allWithin_flatMap_branches {allowed : Allowed} (within : AllWithin allowed items) :
    AllWithin allowed (items.flatMap branches) := by
  refine allWithin_iff.2 fun branch member => ?_
  obtain ⟨item, member, inside⟩ := List.mem_flatMap.1 member
  exact forall_within_branches (allWithin_iff.1 within item member) branch inside

/-- Where branches share no beginning, the first of them that matches is taken. -/
theorem isFirst_ofAlternation_of_apart {rounds : Nat} (inOrder : AllWithin .ordered items)
    (apart : sharedBeginning (items.flatMap branches) = []) :
    IsFirst ((ofAlternation rounds items).DirectWay p) q ↔ FirstOf items p q := by
  rw [← firstOf_flatMap_branches_iff inOrder]
  have ordered := allWithin_flatMap_branches inOrder
  have whole := matches_ofAlternation rounds items
  have result : (ofAlternation rounds items).Within .ordered :=
    within_ofAlternation (allWithin_iff.1 inOrder) rounds
  rw [← anyMatches_flatMap_branches] at whole
  generalize row : items.flatMap branches = found at apart whole ordered
  match found with
  | [] =>
    refine ⟨fun first => ?_, False.elim⟩
    have matched := matches_of_isFirst result first
    rw [whole] at matched
    exact matched
  | [branch] => rw [ofAlternation_of_singleton row, firstOf_singleton_iff]
  | first :: second :: rest =>
    have several : 2 ≤ (first :: second :: rest).length := by simp
    cases alike : ((first :: second :: rest).mapM singleton?).or
        ((first :: second :: rest).mapM set?) with
    | none =>
      rw [ofAlternation_of_apart row several alike (.inr apart), isFirst_alternation_iff ordered]
    | some sets =>
      -- Each branch reads one character, whichever it is.
      have unique (r s : Place) (h : AnyMatches (first :: second :: rest) p r)
          (h' : AnyMatches (first :: second :: rest) p s) : r = s := by
        rw [← whole, ofAlternation_of_sets row several alike, matches_ofSet] at h h'
        obtain ⟨c, -, reads⟩ := h
        obtain ⟨d, -, reads'⟩ := h'
        exact reads.eq_of_single reads'
      constructor
      · intro first
        have matched := matches_of_isFirst result first
        rw [whole] at matched
        exact .of_unique ordered matched fun r other => unique r q other matched
      · intro first
        have matched := first.anyMatches ordered
        refine isFirst_of_unique result (by rwa [whole]) fun r other => ?_
        rw [whole] at other
        exact unique r q other matched

/-- What branches have left behind the beginning that they share. -/
def leftOver (row : List Expr) : List Expr :=
  row.map (dropParts (sharedBeginning row).length)

/-- Where branches share a beginning, the first way through it is taken after which
anything that is left of them matches, and then the first of what is left. -/
theorem isFirst_ofAlternation_of_shared {rounds : Nat} (inOrder : AllWithin .ordered items)
    (normal : ∀ item ∈ items, item.IsNormal) (several : 2 ≤ (items.flatMap branches).length)
    (some : sharedBeginning (items.flatMap branches) ≠ []) :
    IsFirst ((ofAlternation (rounds + 1) items).DirectWay p) q ↔
      ∃ r, (AllWay (fun _ _ => True) 0 (sharedBeginning (items.flatMap branches))).FirstTo
          (fun r => ∃ s, AnyMatches (leftOver (items.flatMap branches)) r s) p r ∧
        FirstOf (leftOver (items.flatMap branches)) r q := by
  have inside : ∀ branch ∈ items.flatMap branches, branch.IsNormal := by
    intro branch member
    obtain ⟨item, member, within⟩ := List.mem_flatMap.1 member
    exact (normal item member).branches branch within
  have ordered := allWithin_iff.1 (allWithin_flatMap_branches inOrder)
  generalize row : items.flatMap branches = found at *
  have left : AllWithin .ordered (leftOver found) := by
    refine allWithin_iff.2 (List.forall_mem_map.2 fun branch member => within_ofConcat ?_)
    intro part inside
    exact forall_within_parts (ordered branch member) part (List.mem_of_mem_drop inside)
  have whole : AllWithin .ordered
      (sharedBeginning found ++ [ofAlternation rounds (leftOver found)]) := by
    refine allWithin_iff.2 (List.forall_mem_append.2 ⟨?_, List.forall_mem_singleton.2
      (within_ofAlternation (allWithin_iff.1 left) rounds)⟩)
    obtain ⟨branch, member⟩ := List.exists_mem_of_length_pos (by omega : 0 < found.length)
    obtain ⟨tail, rfl⟩ := exists_tail_of_sharedBeginning some branch member
    exact (List.forall_mem_append.1 (allWithin_iff.1 (ordered _ member))).1
  rw [ofAlternation_of_shared row several some, directWay_ofConcat]
  refine (isFirst_concat_append_iff whole).trans ?_
  -- Nothing more is shared by what is left.
  have apart := sharedBeginning_dropParts inside some
  simp only [matches_ofAlternation, isFirst_ofAlternation_of_apart left apart]

/-- What is left of the first branch that matches goes on from where the first way through
the shared beginning leads, of those after which anything that is left matches. -/
def KeepsOrder (row : List Expr) (p : Place) : Prop :=
  ∀ r, (AllWay (fun _ _ => True) 0 (sharedBeginning row)).FirstTo
      (fun r => ∃ s, AnyMatches (leftOver row) r s) p r →
    ∀ front branch back, row = front ++ branch :: back →
      (∀ other ∈ front, ∀ q, ¬ other.Matches p q) → (∃ q, branch.Matches p q) →
        ∃ s, (branch.dropParts (sharedBeginning row).length).Matches r s

theorem directWay_concat_append (tail : List Expr) :
    (concat (beginning ++ tail)).DirectWay = (concat (beginning ++ [ofConcat tail])).DirectWay := by
  funext p turns q
  simp only [DirectWay, Way, allWay_append, allWay_singleton, way_ofConcat]

/-- If order is kept, the first of what is left is left of the first branch that matches. -/
theorem FirstOf.of_left {tails : List (List Expr)} {ok : Place → Prop}
    (inOrder : ∀ tail ∈ tails, AllWithin .ordered (beginning ++ tail))
    (leads : (AllWay (fun _ _ => True) 0 beginning).FirstTo ok p r)
    (goes : ∀ tail ∈ tails, ∀ r s, AllMatch tail r s → ok r)
    (keeps : ∀ front tail back, tails = front ++ tail :: back →
      (∀ other ∈ front, ∀ q, ¬ AllMatch (beginning ++ other) p q) →
        (∃ q, AllMatch (beginning ++ tail) p q) → ∃ s, AllMatch tail r s)
    (first : FirstOf (tails.map ofConcat) r q) :
    FirstOf (tails.map fun tail => concat (beginning ++ tail)) p q := by
  induction tails with
  | nil => exact first
  | cons tail tails ih =>
    obtain ⟨ordered, others⟩ := List.forall_mem_cons.1 inOrder
    have begins : AllWithin .ordered beginning :=
      allWithin_iff.2 (List.forall_mem_append.1 (allWithin_iff.1 ordered)).1
    have ends : ∀ item ∈ tail, item.Within .ordered :=
      (List.forall_mem_append.1 (allWithin_iff.1 ordered)).2
    by_cases matched : ∃ q, AllMatch (beginning ++ tail) p q
    · -- As order is kept, what is left of this branch goes on and so is the first to do so.
      obtain ⟨s, onward⟩ := keeps [] tail tails rfl (List.forall_mem_nil _) matched
      rcases first with first | ⟨none, -⟩
      · left
        have whole : AllWithin .ordered (beginning ++ [ofConcat tail]) :=
          allWithin_iff.2 (List.forall_mem_append.2
            ⟨allWithin_iff.1 begins, List.forall_mem_singleton.2 (within_ofConcat ends)⟩)
        rw [directWay_concat_append]
        refine (isFirst_concat_append_iff whole).2 ⟨r, leads.of_imp ?_ ⟨s, ?_⟩, first⟩
        · rintro r' ⟨s, found⟩
          rw [matches_ofConcat] at found
          exact goes tail List.mem_cons_self r' s found
        · rwa [matches_ofConcat]
      · rw [← matches_ofConcat] at onward
        exact absurd onward (none s)
    · -- The beginning leads on, so it is what is left of the branch that does not match.
      have nowhere : ∀ s, ¬ AllMatch tail r s := by
        intro s onward
        obtain ⟨turns, ⟨way, -⟩, -⟩ := leads
        exact matched ⟨s, allMatch_append_iff.2 ⟨r, way.allMatch begins, onward⟩⟩
      have none : ∀ q, ¬ AllMatch (beginning ++ tail) p q := fun q found => matched ⟨q, found⟩
      rcases first with first | ⟨-, later⟩
      · have found := matches_of_isFirst (within_ofConcat ends) first
        rw [matches_ofConcat] at found
        exact absurd found (nowhere q)
      · right
        refine ⟨none, ih others ?_ ?_ later⟩
        · exact (List.forall_mem_cons.1 goes).2
        · rintro front other back rfl before
          exact keeps (tail :: front) other back rfl (List.forall_mem_cons.2 ⟨none, before⟩)

/-- If order is kept, an alternation takes the first way of its first branch that matches. -/
theorem firstOf_of_isFirst_ofAlternation {rounds : Nat} (inOrder : AllWithin .ordered items)
    (normal : ∀ item ∈ items, item.IsNormal) (several : 2 ≤ (items.flatMap branches).length)
    (enough : rounds ≠ 0) (keeps : KeepsOrder (items.flatMap branches) p)
    (first : IsFirst ((ofAlternation rounds items).DirectWay p) q) : FirstOf items p q := by
  by_cases apart : sharedBeginning (items.flatMap branches) = []
  · exact (isFirst_ofAlternation_of_apart inOrder apart).1 first
  · obtain ⟨fewer, rfl⟩ := Nat.exists_eq_succ_of_ne_zero enough
    obtain ⟨r, leads, later⟩ :=
      (isFirst_ofAlternation_of_shared inOrder normal several apart).1 first
    rw [← firstOf_flatMap_branches_iff inOrder]
    have ordered := allWithin_flatMap_branches inOrder
    have begins := exists_tail_of_sharedBeginning apart
    generalize items.flatMap branches = row at *
    generalize beginning : sharedBeginning row = shared at *
    -- The branches are the beginning and what is left of each.
    obtain ⟨tails, rfl⟩ : ∃ tails : List (List Expr), row = tails.map fun tail =>
        concat (shared ++ tail) := by
      clear keeps leads later ordered several beginning
      induction row with
      | nil => exact ⟨[], rfl⟩
      | cons branch row ih =>
        obtain ⟨⟨tail, rfl⟩, others⟩ := List.forall_mem_cons.1 begins
        obtain ⟨tails, rfl⟩ := ih others
        exact ⟨tail :: tails, rfl⟩
    have left : leftOver (tails.map fun tail => concat (shared ++ tail)) = tails.map ofConcat := by
      rw [leftOver, beginning, List.map_map]
      refine List.map_congr_left fun tail _ => ?_
      simp [dropParts, parts]
    rw [left] at leads later
    refine .of_left ?_ leads ?_ ?_ later
    · intro tail member
      exact allWithin_iff.1 ordered _ (List.mem_map_of_mem member)
    · intro tail member r s found
      refine ⟨s, anyMatches_iff.2 ⟨_, List.mem_map_of_mem member, ?_⟩⟩
      rwa [matches_ofConcat]
    · rintro front tail back rfl before matched
      have onward := keeps r (by rw [beginning, left]; exact leads)
        (front.map fun tail => concat (shared ++ tail)) (concat (shared ++ tail))
        (back.map fun tail => concat (shared ++ tail)) (by simp)
        (List.forall_mem_map.2 before) matched
      rwa [beginning, dropParts, parts, List.drop_left, matches_ofConcat] at onward

theorem keepsOrder_of_apart {row : List Expr} (apart : sharedBeginning row = []) :
    KeepsOrder row p := by
  rintro r ⟨turns, ⟨way, -⟩, -⟩ front branch back - - ⟨q, matched⟩
  rw [apart] at way ⊢
  obtain ⟨-, rfl⟩ := way
  refine ⟨q, ?_⟩
  rwa [dropParts, List.length_nil, List.drop_zero, matches_ofConcat, allMatch_parts]

/-- Order is kept where the shared beginning leads to one place at most. -/
theorem keepsOrder_of_unique {row : List Expr} (inOrder : AllWithin .ordered (sharedBeginning row))
    (unique : ∀ r s, AllMatch (sharedBeginning row) p r → AllMatch (sharedBeginning row) p s →
      r = s) : KeepsOrder row p := by
  by_cases apart : sharedBeginning row = []
  · exact keepsOrder_of_apart apart
  · rintro r ⟨turns, ⟨way, -⟩, -⟩ front branch back same - ⟨q, matched⟩
    have begins : AllMatch (sharedBeginning row) p r := way.allMatch inOrder
    obtain ⟨tail, rfl⟩ := exists_tail_of_sharedBeginning apart branch (by simp [same])
    obtain ⟨s, begins', onward⟩ := allMatch_append_iff.1 matched
    obtain rfl := unique r s begins begins'
    refine ⟨q, ?_⟩
    rwa [dropParts, matches_ofConcat, parts, List.drop_left]

end Peg.Regex.Expr
