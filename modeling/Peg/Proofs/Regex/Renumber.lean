import Peg.Proofs.Regex.NormalForm
import Peg.Proofs.Regex.Ways
import Peg.Regex.Meaning

/-!
# Numbers of groups

Behind other groups the groups of an expression have higher numbers. The numbers
tell groups apart, and nothing else: an expression whose groups are renumbered has
the normal form with its captures renumbered, and the same ways.

## Main definitions

* `Token.renumber`, `Syntax.renumber`, `Expr.renumber`: higher numbers for all groups.

## Main results

* `Switches.expr?_renumber`: the normal form is made in the same way.
* `Expr.way_renumber`: the ways are the same.
-/

namespace Peg.Regex

/-- Every number of a group is raised. -/
def GroupKind.renumber (shift : Nat) : GroupKind → GroupKind
  | .capturing index => .capturing (index + shift)
  | .plain change => .plain change

namespace Syntax

mutual

/-- Every number of a group is raised. -/
def renumber (shift : Nat) : Syntax → Syntax
  | .empty => .empty
  | .flags change => .flags change
  | .literal char => .literal char
  | .dot => .dot
  | .anchor kind => .anchor kind
  | .short kind negated => .short kind negated
  | .property name negated => .property name negated
  | .bracketed negated set => .bracketed negated set
  | .repetition min max greedy body => .repetition min max greedy (body.renumber shift)
  | .group kind body => .group (kind.renumber shift) (body.renumber shift)
  | .concat items => .concat (renumberAll shift items)
  | .alternation branches => .alternation (renumberAll shift branches)

/-- The same for several expressions. -/
def renumberAll (shift : Nat) : List Syntax → List Syntax
  | [] => []
  | item :: items => item.renumber shift :: renumberAll shift items

end

theorem renumberAll_eq_map (shift : Nat) (items : List Syntax) :
    renumberAll shift items = items.map (renumber shift) := by
  induction items with
  | nil => rfl
  | cons item items ih => simp [renumberAll, ih]

end Syntax

/-- Every number of a group is raised. -/
def Token.renumber (shift : Nat) : Token → Token
  | .atom part => .atom (part.renumber shift)
  | .repeats min max greedy => .repeats min max greedy
  | .flags change => .flags change
  | .opening kind => .opening (kind.renumber shift)
  | .closing => .closing
  | .bar => .bar

namespace Expr

mutual

/-- Every number of a capture is raised. -/
def renumber (shift : Nat) : Expr → Expr
  | .empty => .empty
  | .literal chars => .literal chars
  | .set kind chars => .set kind chars
  | .look place => .look place
  | .repetition min max greedy body => .repetition min max greedy (body.renumber shift)
  | .capture index body => .capture (index + shift) (body.renumber shift)
  | .concat items => .concat (renumberAll shift items)
  | .alternation branches => .alternation (renumberAll shift branches)

/-- The same for several expressions. -/
def renumberAll (shift : Nat) : List Expr → List Expr
  | [] => []
  | item :: items => item.renumber shift :: renumberAll shift items

end

variable {shift : Nat}

theorem renumberAll_eq_map (items : List Expr) :
    renumberAll shift items = items.map (renumber shift) := by
  induction items with
  | nil => rfl
  | cons item items ih => simp [renumberAll, ih]

/-! ### What numbers do not change -/

mutual

theorem same_renumber (a b : Expr) : (a.renumber shift).same (b.renumber shift) = a.same b := by
  match a with
  | .empty | .literal _ | .set _ _ | .look _ => cases b <;> rfl
  | .repetition min max greedy body =>
    cases b with
    | repetition min' max' greedy' body' => simp [renumber, same, same_renumber body]
    | _ => rfl
  | .capture index body =>
    cases b with
    | capture index' body' =>
      have raised : (index + shift == index' + shift) = (index == index') := by
        rw [Bool.eq_iff_iff, beq_iff_eq, beq_iff_eq, Nat.add_right_cancel_iff]
      simp [renumber, same, same_renumber body, raised]
    | _ => rfl
  | .concat items =>
    cases b with
    | concat items' => simp [renumber, same, sameAll_renumber items]
    | _ => rfl
  | .alternation items =>
    cases b with
    | alternation items' => simp [renumber, same, sameAll_renumber items]
    | _ => rfl

theorem sameAll_renumber (as bs : List Expr) :
    sameAll (renumberAll shift as) (renumberAll shift bs) = sameAll as bs := by
  match as, bs with
  | [], [] | [], _ :: _ | _ :: _, [] => rfl
  | a :: as, b :: bs => simp [renumberAll, sameAll, same_renumber a b, sameAll_renumber as bs]

end

mutual

@[simp]
theorem maxLength_renumber (expr : Expr) : (expr.renumber shift).maxLength = expr.maxLength := by
  match expr with
  | .empty | .literal _ | .set _ _ | .look _ => rfl
  | .repetition _ max _ body => simp only [renumber, maxLength, maxLength_renumber body]
  | .capture _ body => exact maxLength_renumber body
  | .concat items => exact maxLengthSum_renumberAll items
  | .alternation branches => exact maxLengthMax_renumberAll branches

theorem maxLengthSum_renumberAll (items : List Expr) :
    maxLengthSum (renumberAll shift items) = maxLengthSum items := by
  match items with
  | [] => rfl
  | item :: items =>
    simp only [renumberAll, maxLengthSum, maxLength_renumber item, maxLengthSum_renumberAll items]

theorem maxLengthMax_renumberAll (items : List Expr) :
    maxLengthMax (renumberAll shift items) = maxLengthMax items := by
  match items with
  | [] => rfl
  | item :: items =>
    simp only [renumberAll, maxLengthMax, maxLength_renumber item, maxLengthMax_renumberAll items]

end

mutual

@[simp]
theorem weight_renumber (expr : Expr) : (expr.renumber shift).weight = expr.weight := by
  match expr with
  | .empty | .literal _ | .set _ _ | .look _ => rfl
  | .repetition _ _ _ body | .capture _ body => simp only [renumber, weight, weight_renumber body]
  | .concat items | .alternation items => simp only [renumber, weight, weightAll_renumberAll items]

theorem weightAll_renumberAll (items : List Expr) :
    weightAll (renumberAll shift items) = weightAll items := by
  match items with
  | [] => rfl
  | item :: items =>
    simp only [renumberAll, weightAll, weight_renumber item, weightAll_renumberAll items]

end

mutual

@[simp]
theorem size_renumber (expr : Expr) : (expr.renumber shift).size = expr.size := by
  match expr with
  | .empty | .literal _ | .set _ _ | .look _ => rfl
  | .repetition min (some max) _ body => simp only [renumber, size, size_renumber body]
  | .repetition 0 none _ body => simp only [renumber, size, size_renumber body]
  | .repetition (min + 1) none _ body => simp only [renumber, size, size_renumber body]
  | .capture _ body => exact size_renumber body
  | .concat items => exact sizeAll_renumberAll items
  | .alternation branches =>
    have length : (renumberAll shift branches).length = branches.length := by
      rw [renumberAll_eq_map, List.length_map]
    simp only [renumber, size, sizeAll_renumberAll branches, length]

theorem sizeAll_renumberAll (items : List Expr) :
    sizeAll (renumberAll shift items) = sizeAll items := by
  match items with
  | [] => rfl
  | item :: items => simp only [renumberAll, sizeAll, size_renumber item, sizeAll_renumberAll items]

end

section Ways

variable {more : Place → Place → Prop}

mutual

/-- The ways of an expression do not depend on the numbers of its groups. -/
theorem way_renumber (expr : Expr) (base : Nat) :
    (expr.renumber shift).Way more base = expr.Way more base := by
  match expr with
  | .empty | .literal _ | .set _ _ | .look _ => rfl
  | .repetition min (some max) greedy body =>
    simp only [renumber, Way, size_renumber, way_renumber body]
  | .repetition 0 none greedy body =>
    simp only [renumber, Way, size_renumber, way_renumber body]
  | .repetition (min + 1) none greedy body =>
    simp only [renumber, Way, size_renumber, way_renumber body]
  | .capture _ body => exact way_renumber body base
  | .concat items => exact allWay_renumberAll items base
  | .alternation branches => exact branchWay_renumberAll branches base 0 (base + 1)

/-- The same for expressions one after another. -/
theorem allWay_renumberAll (items : List Expr) (base : Nat) :
    AllWay more base (renumberAll shift items) = AllWay more base items := by
  match items with
  | [] => rfl
  | item :: items =>
    simp only [renumberAll, AllWay, size_renumber, way_renumber item, allWay_renumberAll items]

/-- The same for branches. -/
theorem branchWay_renumberAll (branches : List Expr) (choice index base : Nat) :
    BranchWay more choice index base (renumberAll shift branches) =
      BranchWay more choice index base branches := by
  match branches with
  | [] => rfl
  | branch :: branches =>
    simp only [renumberAll, BranchWay, size_renumber, way_renumber branch,
      branchWay_renumberAll branches]

end

end Ways

theorem directWay_renumber (expr : Expr) : (expr.renumber shift).DirectWay = expr.DirectWay := by
  funext p turns q
  rw [DirectWay, DirectWay, way_renumber]

mutual

theorem within_renumber {allowed : Allowed} (expr : Expr) :
    (expr.renumber shift).Within allowed ↔ expr.Within allowed := by
  match expr with
  | .empty | .literal _ | .set _ _ | .look _ => exact Iff.rfl
  | .repetition min max _ body => simp only [renumber, Within, within_renumber body]
  | .capture _ body => exact within_renumber body
  | .concat items => exact allWithin_renumberAll items
  | .alternation branches => exact allWithin_renumberAll branches

theorem allWithin_renumberAll {allowed : Allowed} (items : List Expr) :
    AllWithin allowed (renumberAll shift items) ↔ AllWithin allowed items := by
  match items with
  | [] => exact Iff.rfl
  | item :: items =>
    simp only [renumberAll, AllWithin, within_renumber item, allWithin_renumberAll items]

end

/-- What an expression matches does not depend on the numbers of its groups. -/
theorem matches_renumber {expr : Expr} (inOrder : expr.Within .ordered) :
    (expr.renumber shift).Matches = expr.Matches := by
  have always : ∀ p q : Place, (fun _ _ => True) p q := fun _ _ => trivial
  -- Where anything is matched there is a way, and no way depends on the numbers.
  funext p q
  rw [eq_iff_iff]
  constructor
  · intro matched
    obtain ⟨turns, way⟩ := matched.exists_way always ((within_renumber expr).2 inOrder) 0
    rw [way_renumber] at way
    exact way.matches inOrder
  · intro matched
    obtain ⟨turns, way⟩ := matched.exists_way always inOrder 0
    rw [← way_renumber expr] at way
    exact way.matches ((within_renumber expr).2 inOrder)

/-! ### The normal form -/

theorem renumber_ofSet (kind : SetKind) (chars : CharSet) :
    (ofSet kind chars).renumber shift = ofSet kind chars :=
  ofSet_cases (motive := fun expr => expr.renumber shift = expr) (fun _ => rfl) (fun _ _ => rfl)
    kind chars

theorem renumber_ofRepetition (min : Nat) (max : Option Nat) (greedy : Bool) (body : Expr) :
    (ofRepetition min max greedy body).renumber shift =
      ofRepetition min max greedy (body.renumber shift) := by
  have shape (min : Nat) (max : Option Nat) :
      (if min = 0 ∧ max = some 0 then .empty
        else if min = 1 ∧ max = some 1 then body
          else .repetition min max greedy body : Expr).renumber shift =
      if min = 0 ∧ max = some 0 then .empty
        else if min = 1 ∧ max = some 1 then body.renumber shift
          else .repetition min max greedy (body.renumber shift) := by
    split
    · rfl
    · split <;> rfl
  unfold ofRepetition
  rw [maxLength_renumber]
  exact shape _ _

theorem parts_renumber (item : Expr) :
    (item.renumber shift).parts = item.parts.map (renumber shift) := by
  cases item with
  | concat items => exact renumberAll_eq_map items
  | _ => rfl

theorem consLiteral_renumber (item : Expr) (rest : List Expr) :
    consLiteral (item.renumber shift) (rest.map (renumber shift)) =
      (consLiteral item rest).map (renumber shift) := by
  cases item with
  | literal chars =>
    match rest with
    | [] => rfl
    | first :: rest => cases first <;> rfl
  | _ => rfl

theorem renumber_ofConcat (items : List Expr) :
    (ofConcat items).renumber shift = ofConcat (items.map (renumber shift)) := by
  have row : ((items.map (renumber shift)).flatMap parts).foldr consLiteral [] =
      ((items.flatMap parts).foldr consLiteral []).map (renumber shift) := by
    have flat : (items.map (renumber shift)).flatMap parts =
        (items.flatMap parts).map (renumber shift) := by
      rw [List.flatMap_map, List.map_flatMap]
      simp only [parts_renumber]
    rw [flat]
    induction items.flatMap parts with
    | nil => rfl
    | cons item row ih =>
      rw [List.map_cons, List.foldr_cons, List.foldr_cons, ih, consLiteral_renumber]
  unfold ofConcat
  rw [row]
  match (items.flatMap parts).foldr consLiteral [] with
  | [] => rfl
  | [item] => rfl
  | first :: second :: rest => simp [renumber, renumberAll_eq_map]

theorem branches_renumber (item : Expr) :
    (item.renumber shift).branches = item.branches.map (renumber shift) := by
  cases item with
  | alternation branches => exact renumberAll_eq_map branches
  | _ => rfl

theorem singleton?_renumber (item : Expr) : (item.renumber shift).singleton? = item.singleton? := by
  cases item <;> rfl

theorem set?_renumber (item : Expr) : (item.renumber shift).set? = item.set? := by
  cases item <;> rfl

theorem mapM_concat?_renumber (items : List Expr) :
    (items.map (renumber shift)).mapM concat? =
      (items.mapM concat?).map (List.map (List.map (renumber shift))) := by
  induction items with
  | nil => rfl
  | cons item items ih =>
    rw [List.map_cons, List.mapM_cons, List.mapM_cons, ih]
    cases item with
    | concat row =>
      simp only [renumber, renumberAll_eq_map, concat?]
      cases items.mapM concat? <;> rfl
    | _ => rfl

theorem sharedPrefix_renumber (as bs : List Expr) :
    sharedPrefix (as.map (renumber shift)) (bs.map (renumber shift)) =
      (sharedPrefix as bs).map (renumber shift) := by
  induction as generalizing bs with
  | nil => rfl
  | cons a as ih =>
    cases bs with
    | nil => rfl
    | cons b bs =>
      simp only [List.map_cons, sharedPrefix, same_renumber, ih]
      split <;> rfl

theorem foldl_sharedPrefix_renumber (head : List Expr) (others : List (List Expr)) :
    (others.map (List.map (renumber shift))).foldl sharedPrefix (head.map (renumber shift)) =
      (others.foldl sharedPrefix head).map (renumber shift) := by
  induction others generalizing head with
  | nil => rfl
  | cons other others ih =>
    rw [List.map_cons, List.foldl_cons, List.foldl_cons, sharedPrefix_renumber, ih]

theorem mapM_renumber {β : Type} {view : Expr → Option β}
    (same : ∀ item : Expr, view (item.renumber shift) = view item) (items : List Expr) :
    (items.map (renumber shift)).mapM view = items.mapM view := by
  induction items with
  | nil => rfl
  | cons item items ih => rw [List.map_cons, List.mapM_cons, List.mapM_cons, ih, same]

theorem sharedBeginning_renumber (row : List Expr) :
    sharedBeginning (row.map (renumber shift)) = (sharedBeginning row).map (renumber shift) := by
  unfold sharedBeginning
  rw [mapM_concat?_renumber]
  match row.mapM concat? with
  | none | some [] => rfl
  | some (head :: others) => exact foldl_sharedPrefix_renumber head others

theorem dropParts_renumber (count : Nat) (branch : Expr) :
    dropParts count (branch.renumber shift) = (dropParts count branch).renumber shift := by
  rw [dropParts, dropParts, renumber_ofConcat, parts_renumber, List.map_drop]

theorem renumber_ofAlternation (rounds : Nat) (items : List Expr) :
    (ofAlternation rounds items).renumber shift =
      ofAlternation rounds (items.map (renumber shift)) := by
  induction rounds using Nat.strongRecOn generalizing items with
  | ind rounds ih =>
    have flat : (items.map (renumber shift)).flatMap branches =
        (items.flatMap branches).map (renumber shift) := by
      rw [List.flatMap_map, List.map_flatMap]
      simp only [branches_renumber]
    generalize row : items.flatMap branches = found at flat
    match found with
    | [] =>
      rw [ofAlternation_of_nil row, ofAlternation_of_nil flat]
      rfl
    | [branch] => rw [ofAlternation_of_singleton row, ofAlternation_of_singleton flat]
    | first :: second :: rest =>
      have several : 2 ≤ (first :: second :: rest).length := by simp
      have several' : 2 ≤ ((first :: second :: rest).map (renumber shift)).length := by simp
      -- What decides between the cases is the same for both lists.
      have same : (((first :: second :: rest).map (renumber shift)).mapM singleton?).or
          (((first :: second :: rest).map (renumber shift)).mapM set?) =
          ((first :: second :: rest).mapM singleton?).or ((first :: second :: rest).mapM set?) := by
        rw [mapM_renumber singleton?_renumber, mapM_renumber set?_renumber]
      cases alike : ((first :: second :: rest).mapM singleton?).or
          ((first :: second :: rest).mapM set?) with
      | some sets =>
        rw [ofAlternation_of_sets row several alike,
          ofAlternation_of_sets flat several' (same.trans alike), renumber_ofSet]
      | none =>
        by_cases apart : rounds = 0 ∨ sharedBeginning (first :: second :: rest) = []
        · have apart' : rounds = 0 ∨
              sharedBeginning ((first :: second :: rest).map (renumber shift)) = [] := by
            rwa [sharedBeginning_renumber, List.map_eq_nil_iff]
          rw [ofAlternation_of_apart row several alike apart,
            ofAlternation_of_apart flat several' (same.trans alike) apart', renumber,
            renumberAll_eq_map]
        · obtain ⟨some, begins⟩ := not_or.1 apart
          obtain ⟨fewer, rfl⟩ := Nat.exists_eq_succ_of_ne_zero some
          have begins' : sharedBeginning ((first :: second :: rest).map (renumber shift)) ≠ [] := by
            rwa [sharedBeginning_renumber, Ne, List.map_eq_nil_iff]
          rw [ofAlternation_of_shared row several begins,
            ofAlternation_of_shared flat several' begins', renumber_ofConcat, List.map_append,
            List.map_singleton, ih fewer (Nat.lt_succ_self fewer), sharedBeginning_renumber,
            List.map_map, List.map_map, List.length_map]
          simp only [Function.comp_def, dropParts_renumber]

end Expr

namespace Switches

variable {shift : Nat}

/-- What a set becomes has no number. -/
theorem renumber_literal? {switches : Switches} {char : Literal} {expr : Expr}
    (h : switches.literal? char = some expr) : expr.renumber shift = expr := by
  unfold literal? at h
  split at h
  · cases h
  · cases h
    exact Expr.renumber_ofSet _ _

mutual

/-- The normal form of an expression with higher numbers is made in the same way. -/
theorem expr?_renumber {switches after : Switches} {tree : Syntax} {expr : Expr}
    (h : switches.expr? tree = some (expr, after)) :
    switches.expr? (tree.renumber shift) = some (expr.renumber shift, after) := by
  match tree with
  | .empty | .flags _ | .anchor _ =>
    cases h
    rfl
  | .literal char =>
    obtain ⟨result, read, same⟩ := Option.bind_eq_some_iff.1 h
    cases same
    rw [renumber_literal? read]
    exact h
  | .dot | .short _ _ | .property _ _ =>
    obtain ⟨chars, -, same⟩ := Option.bind_eq_some_iff.1 h
    cases same
    rw [Expr.renumber_ofSet]
    exact h
  | .bracketed negated set =>
    obtain ⟨set, -, next⟩ := Option.bind_eq_some_iff.1 h
    obtain ⟨chars, -, same⟩ := Option.bind_eq_some_iff.1 next
    cases same
    rw [Expr.renumber_ofSet]
    exact h
  | .repetition min max greedy body =>
    obtain ⟨⟨inner, later⟩, made, same⟩ := Option.bind_eq_some_iff.1 h
    cases same
    rw [Syntax.renumber, expr?, expr?_renumber made, Expr.renumber_ofRepetition]
    rfl
  | .group (.capturing index) body | .group (.plain change) body =>
    obtain ⟨⟨inner, later⟩, made, same⟩ := Option.bind_eq_some_iff.1 h
    cases same
    rw [Syntax.renumber, GroupKind.renumber, expr?, expr?_renumber made]
    rfl
  | .concat items =>
    obtain ⟨⟨inner, later⟩, made, same⟩ := Option.bind_eq_some_iff.1 h
    cases same
    rw [Syntax.renumber, expr?, exprs?_renumber made, Expr.renumber_ofConcat]
    rfl
  | .alternation items =>
    obtain ⟨⟨inner, later⟩, made, same⟩ := Option.bind_eq_some_iff.1 h
    cases same
    -- As many rounds are made, since the numbers of captures have no weight.
    have weights : Expr.weightAll (inner.map (Expr.renumber shift)) = Expr.weightAll inner := by
      rw [← Expr.renumberAll_eq_map, Expr.weightAll_renumberAll]
    rw [Syntax.renumber, expr?, exprs?_renumber made, Expr.renumber_ofAlternation, ← weights]
    rfl

/-- The same for several expressions. -/
theorem exprs?_renumber {switches after : Switches} {trees : List Syntax} {exprs : List Expr}
    (h : switches.exprs? trees = some (exprs, after)) :
    switches.exprs? (Syntax.renumberAll shift trees) =
      some (exprs.map (Expr.renumber shift), after) := by
  match trees with
  | [] =>
    cases h
    rfl
  | tree :: trees =>
    obtain ⟨⟨first, middle⟩, made, next⟩ := Option.bind_eq_some_iff.1 h
    obtain ⟨⟨others, last⟩, later, same⟩ := Option.bind_eq_some_iff.1 next
    cases same
    rw [Syntax.renumberAll, exprs?, expr?_renumber made]
    simp only [Option.bind_eq_bind, Option.bind_some, exprs?_renumber later]
    rfl

end

end Switches

end Peg.Regex
