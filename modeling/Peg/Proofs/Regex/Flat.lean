import Peg.Proofs.Regex.Contents

/-!
# What is normal about a normal form

In a normal form a concatenation is flat: its parts are no concatenations themselves, and
no two literals stand side by side. The branches of an alternation share no beginning,
since it would have been put before them, and doing that once is enough.

## Main definitions

* `Expr.IsFlat`: a row of parts that cannot be joined further.
* `Expr.IsNormal`: an expression all of whose parts are as they should be.

## Main results

* `Expr.prefix_sharedBeginning`: nothing longer than the shared beginning is shared.
* `Expr.sharedBeginning_dropParts`: behind the shared beginning nothing is shared.
* `Switches.isNormal_expr?`: normal forms are normal.
-/

namespace Peg.Regex

namespace Expr

/-! ### The longest shared beginning -/

mutual

theorem same_self (a : Expr) : a.same a = true := by
  match a with
  | .empty => rfl
  | .literal _ | .set _ _ | .look _ => simp [same]
  | .repetition _ _ _ body | .capture _ body => simp [same, same_self body]
  | .concat items | .alternation items => simp [same, sameAll_self items]

theorem sameAll_self (as : List Expr) : sameAll as as = true := by
  match as with
  | [] => rfl
  | a :: as => simp [sameAll, same_self a, sameAll_self as]

end

theorem prefix_sharedPrefix {common as bs : List Expr} (left : common <+: as)
    (right : common <+: bs) : common <+: sharedPrefix as bs := by
  induction common generalizing as bs with
  | nil => exact List.nil_prefix
  | cons item common ih =>
    obtain ⟨as, rfl⟩ := left
    obtain ⟨bs, rfl⟩ := right
    rw [List.cons_append, List.cons_append, sharedPrefix, if_pos (same_self item)]
    refine (List.prefix_cons_inj item).2 (ih ⟨as, rfl⟩ ⟨bs, rfl⟩)

/-- What begins all branches begins what they share. -/
theorem prefix_sharedBeginning {common : List Expr} {row : List Expr} (some : row ≠ [])
    (begins : ∀ branch ∈ row, ∃ rest, branch = concat (common ++ rest)) :
    common <+: sharedBeginning row := by
  have rows : ∃ rows : List (List Expr), row = rows.map concat ∧ ∀ row ∈ rows, common <+: row := by
    clear some
    induction row with
    | nil => exact ⟨[], rfl, List.forall_mem_nil _⟩
    | cons branch row ih =>
      obtain ⟨⟨rest, rfl⟩, others⟩ := List.forall_mem_cons.1 begins
      obtain ⟨rows, rfl, each⟩ := ih others
      exact ⟨(common ++ rest) :: rows, rfl, List.forall_mem_cons.2 ⟨⟨rest, rfl⟩, each⟩⟩
  obtain ⟨rows, rfl, each⟩ := rows
  match rows with
  | [] => exact absurd rfl some
  | head :: others =>
    obtain ⟨first, others'⟩ := List.forall_mem_cons.1 each
    rw [sharedBeginning, mapM_concat?_map]
    clear some begins each
    simp only
    induction others generalizing head with
    | nil => exact first
    | cons other others ih =>
      obtain ⟨second, rest⟩ := List.forall_mem_cons.1 others'
      exact ih _ (prefix_sharedPrefix first second) rest

/-! ### Flat rows -/

/-- A row of expressions none of which is a row itself, without neighbouring literals. -/
def IsFlat : List Expr → Prop
  | [] => True
  | item :: row => item.parts = [item] ∧ item.consLiteral row = item :: row ∧ IsFlat row

namespace IsFlat

variable {item : Expr} {items row : List Expr}

theorem single (h : IsFlat row) : ∀ item ∈ row, item.parts = [item] := by
  induction row with
  | nil => exact List.forall_mem_nil _
  | cons item row ih => exact List.forall_mem_cons.2 ⟨h.1, ih h.2.2⟩

theorem drop (h : IsFlat row) (count : Nat) : IsFlat (row.drop count) := by
  induction row generalizing count with
  | nil =>
    rw [List.drop_nil]
    trivial
  | cons item row ih =>
    cases count with
    | zero => exact h
    | succ count => exact ih h.2.2 count

theorem of_single (h : item.parts = [item]) : IsFlat [item] := by
  refine ⟨h, ?_, trivial⟩
  cases item <;> rfl

theorem consLiteral (h : IsFlat row) (single : item.parts = [item]) :
    IsFlat (item.consLiteral row) := by
  unfold Expr.consLiteral
  split
  · next a b rest =>
    -- Two literals become one. Behind the second there was no third.
    obtain ⟨-, apart, flat⟩ := h
    refine ⟨rfl, ?_, flat⟩
    match rest with
    | [] => rfl
    | .literal c :: rest => simp [Expr.consLiteral] at apart
    | .empty :: _ | .set _ _ :: _ | .look _ :: _ | .repetition .. :: _ | .capture .. :: _
    | .concat _ :: _ | .alternation _ :: _ => rfl
  · next rest other =>
    refine ⟨single, ?_, h⟩
    unfold Expr.consLiteral
    split
    · exact absurd rfl (other _ _ _ rfl)
    · rfl

/-- A flat row is joined already. -/
theorem foldr_eq (h : IsFlat row) : (row.flatMap parts).foldr Expr.consLiteral [] = row := by
  induction row with
  | nil => rfl
  | cons item row ih =>
    obtain ⟨single, apart, flat⟩ := h
    rw [List.flatMap_cons, single, List.singleton_append, List.foldr_cons, ih flat, apart]

end IsFlat

/-! ### Normal expressions -/

mutual

/-- An expression all of whose concatenations are flat, and whose alternations have two
or more branches that share no beginning. -/
def IsNormal : Expr → Prop
  | .concat items => AllNormal items ∧ IsFlat items
  | .alternation branches =>
    AllNormal branches ∧ 2 ≤ branches.length ∧ sharedBeginning branches = []
  | .repetition _ _ _ body | .capture _ body => body.IsNormal
  | .empty | .literal _ | .set _ _ | .look _ => True

/-- The same for several expressions. -/
def AllNormal : List Expr → Prop
  | [] => True
  | item :: items => item.IsNormal ∧ AllNormal items

end

theorem allNormal_iff {items : List Expr} : AllNormal items ↔ ∀ item ∈ items, item.IsNormal := by
  induction items with
  | nil => simp [AllNormal]
  | cons item items ih => simp [AllNormal, ih]

theorem isNormal_ofSet (kind : SetKind) (chars : CharSet) : (ofSet kind chars).IsNormal :=
  ofSet_cases (fun _ => trivial) (fun _ _ => trivial) kind chars

theorem isNormal_ofRepetition {body : Expr} (normal : body.IsNormal) (min : Nat)
    (max : Option Nat) (greedy : Bool) : (ofRepetition min max greedy body).IsNormal :=
  ofRepetition_cases (motive := fun _ _ result => result.IsNormal) greedy trivial normal
    (fun _ _ => normal) (fun _ _ _ _ clamped => clamped) min max

theorem IsNormal.parts {item : Expr} (normal : item.IsNormal) :
    (∀ part ∈ item.parts, part.IsNormal) ∧ IsFlat item.parts := by
  cases item with
  | concat items => exact ⟨allNormal_iff.1 normal.1, normal.2⟩
  | empty => exact ⟨List.forall_mem_nil _, trivial⟩
  | literal | set | look | repetition | capture | alternation =>
    exact ⟨List.forall_mem_singleton.2 normal, .of_single rfl⟩

/-- The parts of a row of normal expressions, joined, are normal and flat. -/
theorem isNormal_foldr {items : List Expr} (normal : ∀ item ∈ items, item.IsNormal) :
    (∀ part ∈ (items.flatMap parts).foldr consLiteral [], part.IsNormal) ∧
      IsFlat ((items.flatMap parts).foldr consLiteral []) := by
  have inside : ∀ part ∈ items.flatMap parts, part.IsNormal ∧ part.parts = [part] := by
    intro part member
    obtain ⟨item, member, inside⟩ := List.mem_flatMap.1 member
    obtain ⟨each, flat⟩ := (normal item member).parts
    exact ⟨each part inside, flat.single part inside⟩
  generalize items.flatMap parts = row at inside
  induction row with
  | nil => exact ⟨List.forall_mem_nil _, trivial⟩
  | cons part row ih =>
    obtain ⟨⟨first, single⟩, rest⟩ := List.forall_mem_cons.1 inside
    obtain ⟨others, flat⟩ := ih rest
    refine ⟨?_, flat.consLiteral single⟩
    rw [List.foldr_cons, consLiteral.eq_def]
    split
    · next same =>
      rw [same] at others
      exact List.forall_mem_cons.2 ⟨trivial, (List.forall_mem_cons.1 others).2⟩
    · exact List.forall_mem_cons.2 ⟨first, others⟩

theorem isNormal_ofConcat {items : List Expr} (normal : ∀ item ∈ items, item.IsNormal) :
    (ofConcat items).IsNormal :=
  ofConcat_cases
    (motive := fun row result => (∀ part ∈ row, part.IsNormal) ∧ IsFlat row → result.IsNormal)
    (fun _ => trivial) (fun _ row => List.forall_mem_singleton.1 row.1)
    (fun _ row => ⟨allNormal_iff.2 row.1, row.2⟩) items (isNormal_foldr normal)

theorem IsNormal.dropParts {branch : Expr} (normal : branch.IsNormal) (count : Nat) :
    (branch.dropParts count).IsNormal :=
  isNormal_ofConcat fun part member => normal.parts.1 part (List.mem_of_mem_drop member)

theorem IsNormal.branches {item : Expr} (normal : item.IsNormal) :
    ∀ branch ∈ item.branches, branch.IsNormal := by
  cases item with
  | alternation branches => exact allNormal_iff.1 normal.1
  | empty | literal | set | look | repetition | capture | concat =>
    exact List.forall_mem_singleton.2 normal

theorem IsNormal.branches_ne_nil {item : Expr} (normal : item.IsNormal) : item.branches ≠ [] := by
  rintro none
  cases item with
  | alternation choices =>
    obtain rfl : choices = [] := none
    exact absurd normal.2.1 (by decide)
  | empty | literal | set | look | repetition | capture | concat => cases none

/-- A flat row is a concatenation, if it is more than one expression. -/
theorem eq_of_ofConcat_eq {row items : List Expr} (flat : IsFlat row)
    (h : ofConcat row = concat items) : row = items := by
  rw [ofConcat, flat.foldr_eq] at h
  match row with
  | [] => cases h
  | [item] =>
    have single := flat.1
    rw [show item = concat items from h, Expr.parts] at single
    have sizes := congrArg sizeOf single
    simp at sizes
    omega
  | first :: second :: rest => exact concat.inj h

/-- What branches share begins each of them. -/
theorem exists_tail_of_sharedBeginning {row : List Expr} (some : sharedBeginning row ≠ []) :
    ∀ branch ∈ row, ∃ tail, branch = concat (sharedBeginning row ++ tail) := by
  obtain ⟨head, others, rows, shared⟩ := exists_rows_of_sharedBeginning some
  intro branch member
  rw [rows] at member
  obtain ⟨items, inside, rfl⟩ := List.mem_map.1 member
  obtain ⟨tail, rfl⟩ := foldl_sharedPrefix_isPrefix head others items inside
  exact ⟨tail, by rw [shared]⟩

/-- Once what branches share is put before them, what is left of them shares nothing. -/
theorem sharedBeginning_dropParts {row : List Expr} (normal : ∀ branch ∈ row, branch.IsNormal)
    (some : sharedBeginning row ≠ []) :
    sharedBeginning ((row.map (dropParts (sharedBeginning row).length)).flatMap branches) = [] := by
  by_contra more
  obtain ⟨item, shared, begins⟩ := List.exists_cons_of_ne_nil more
  have each := exists_tail_of_sharedBeginning more
  rw [begins] at each
  -- What is left of a branch is one branch itself: the branches of an alternation share nothing.
  have alone : ∀ branch ∈ row, ∃ tail,
      branch.dropParts (sharedBeginning row).length = concat (item :: tail) := by
    intro branch member
    have left := (normal branch member).dropParts (sharedBeginning row).length
    have inside : ∀ other ∈ (branch.dropParts (sharedBeginning row).length).branches,
        ∃ tail, other = concat (item :: (shared ++ tail)) := fun other within =>
      each other (List.mem_flatMap.2 ⟨_, List.mem_map_of_mem member, within⟩)
    generalize branch.dropParts (sharedBeginning row).length = rest at left inside
    cases rest with
    | alternation inner =>
      obtain ⟨-, several, apart⟩ := left
      have nonempty : inner ≠ [] := by
        rintro rfl
        simp at several
      have common : [item] <+: sharedBeginning inner := by
        apply prefix_sharedBeginning nonempty
        intro other within
        obtain ⟨tail, same⟩ := inside other within
        exact ⟨shared ++ tail, same⟩
      rw [apart, List.prefix_nil] at common
      cases common
    | empty | literal | set | look | repetition | capture | concat =>
      obtain ⟨tail, same⟩ := inside _ (List.mem_singleton_self _)
      exact ⟨_, same⟩
  -- So the branches share one part more than they do.
  have longer : sharedBeginning row ++ [item] <+: sharedBeginning row := by
    apply prefix_sharedBeginning
    · rintro rfl
      exact some rfl
    · intro branch member
      obtain ⟨tail, same⟩ := exists_tail_of_sharedBeginning some branch member
      obtain ⟨rest, left⟩ := alone branch member
      have flat : IsFlat tail := by
        have whole := (normal branch member).parts.2.drop (sharedBeginning row).length
        rwa [same, Expr.parts, List.drop_left] at whole
      rw [dropParts, same, Expr.parts, List.drop_left] at left
      rw [same, eq_of_ofConcat_eq flat left]
      exact ⟨rest, by simp⟩
  have lengths := longer.length_le
  rw [List.length_append, List.length_singleton] at lengths
  omega

theorem isNormal_ofAlternation {rounds : Nat} {items : List Expr}
    (normal : ∀ item ∈ items, item.IsNormal)
    (enough : rounds ≠ 0 ∨ sharedBeginning (items.flatMap branches) = []) :
    (ofAlternation rounds items).IsNormal := by
  induction rounds using Nat.strongRecOn generalizing items with
  | ind rounds ih =>
    have inside : ∀ branch ∈ items.flatMap branches, branch.IsNormal := by
      intro branch member
      obtain ⟨item, member, within⟩ := List.mem_flatMap.1 member
      exact (normal item member).branches branch within
    generalize row : items.flatMap branches = found at inside enough
    match found with
    | [] =>
      rw [ofAlternation_of_nil row]
      trivial
    | [branch] =>
      rw [ofAlternation_of_singleton row]
      exact List.forall_mem_singleton.1 inside
    | first :: second :: rest =>
      have several : 2 ≤ (first :: second :: rest).length := by simp
      cases alike : ((first :: second :: rest).mapM singleton?).or
          ((first :: second :: rest).mapM set?) with
      | some sets =>
        rw [ofAlternation_of_sets row several alike]
        exact isNormal_ofSet _ _
      | none =>
        by_cases apart : sharedBeginning (first :: second :: rest) = []
        · rw [ofAlternation_of_apart row several alike (.inr apart)]
          exact ⟨allNormal_iff.2 inside, several, apart⟩
        · obtain ⟨fewer, rfl⟩ := Nat.exists_eq_succ_of_ne_zero (enough.resolve_right apart)
          rw [ofAlternation_of_shared row several apart]
          obtain ⟨tail, same⟩ :=
            exists_tail_of_sharedBeginning apart first List.mem_cons_self
          have beginning : ∀ part ∈ sharedBeginning (first :: second :: rest), part.IsNormal := by
            have parts := (inside first List.mem_cons_self).parts.1
            rw [same] at parts
            exact (List.forall_mem_append.1 parts).1
          -- What is left shares nothing, so that no further round is needed.
          have left := ih fewer (Nat.lt_succ_self fewer)
            (List.forall_mem_map.2 fun branch member => (inside branch member).dropParts _)
            (.inr (sharedBeginning_dropParts inside apart))
          exact isNormal_ofConcat (List.forall_mem_append.2
            ⟨beginning, List.forall_mem_singleton.2 left⟩)

theorem weightAll_pos {items : List Expr} (some : items ≠ []) : weightAll items ≠ 0 := by
  obtain ⟨item, items, rfl⟩ := List.exists_cons_of_ne_nil some
  have positive : item.weight ≠ 0 := by cases item <;> simp [weight]
  rw [weightAll]
  omega

end Expr

/-- Normal forms are normal. -/
theorem Switches.isNormal_expr? {switches after : Switches} {tree : Syntax} {expr : Expr}
    (h : switches.expr? tree = some (expr, after)) : expr.IsNormal := by
  have each {trees : List Syntax} {items : List Expr}
      (all : List.Forall₂ (fun _ (expr : Expr) => expr.IsNormal) trees items) :
      ∀ item ∈ items, item.IsNormal := by
    induction all with
    | nil => exact List.forall_mem_nil _
    | cons first _ ih => exact List.forall_mem_cons.2 ⟨first, ih⟩
  have hereditary : Hereditary fun _ expr => expr.IsNormal :=
    { empty := trivial
      flags := fun _ => trivial
      set := fun _ kind chars => Expr.isNormal_ofSet kind chars
      look := fun _ _ => trivial
      repetition := fun min max _ _ inner => Expr.isNormal_ofRepetition inner min max _
      capture := fun _ => id
      plain := fun _ => id
      concat := fun all => Expr.isNormal_ofConcat (each all)
      alternation := fun {_ items} all => by
        refine Expr.isNormal_ofAlternation (each all) ?_
        by_cases none : items = []
        · subst none
          exact .inr rfl
        · exact .inl (Expr.weightAll_pos none) }
  exact hereditary.expr? h

end Peg.Regex
