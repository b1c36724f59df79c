import Peg.Proofs.Regex.Contents
import Peg.Regex.Search

/-!
# Expressions without conditions on places

An expression that is written without anchors has a normal form without
conditions on places, and its program never looks at the characters around a
place. What such a program matches depends on what follows alone.

## Main definitions

* `Syntax.IsAnchorFree`, `Expr.IsLookFree`, `Program.IsLookFree`: no anchors, no
  conditions on places, and no instructions that check one.

## Main results

* `Switches.isLookFree_expr?`: without anchors there are no conditions.
* `Expr.isLookFree_ofExpr`: without conditions there are no such instructions.
* `Program.IsLookFree.search_eq`: a search depends on what follows alone.
-/

namespace Peg.Regex

/-- An expression in which no place is named. -/
def Syntax.IsAnchorFree (tree : Syntax) : Prop :=
  tree.Within .placeless

/-- An expression without conditions on places. -/
def Expr.IsLookFree (expr : Expr) : Prop :=
  expr.Within .placeless

/-- The normal form of an expression without anchors has no conditions on places. -/
theorem Switches.isLookFree_expr? {switches after : Switches} {tree : Syntax} {expr : Expr}
    (free : tree.IsAnchorFree) (h : switches.expr? tree = some (expr, after)) :
    expr.IsLookFree :=
  within_expr? Allowed.atMostOnce_placeless free h

/-! ### Programs -/

/-- No instruction of a program checks a place. -/
def Program.IsLookFree (program : Program) : Prop :=
  ∀ place, .check place ∉ program.code.toList

section Code

variable {code : Nat → List Inst} {place : Look}

theorem check_notMem_copies (free : ∀ base, .check place ∉ code base) (size count base : Nat) :
    .check place ∉ copies size code count base := by
  induction count generalizing base with
  | zero => exact List.not_mem_nil
  | succ count ih => simp [copies, free, ih]

theorem check_notMem_options (free : ∀ base, .check place ∉ code base) (greedy : Bool)
    (size stop count base : Nat) : .check place ∉ options greedy size stop code count base := by
  induction count generalizing base with
  | zero => exact List.not_mem_nil
  | succ count ih => simp [options, choice, free, ih]

theorem check_notMem_loop (free : ∀ base, .check place ∉ code base) (greedy : Bool)
    (size base : Nat) : .check place ∉ loop greedy size code base := by
  simp [loop, choice, free]

end Code

namespace Expr

mutual

/-- The code of an expression without conditions checks no place. -/
theorem check_notMem_code {expr : Expr} (free : expr.IsLookFree) (place : Look) (base : Nat) :
    .check place ∉ expr.code base := by
  match expr with
  | .empty => exact List.not_mem_nil
  | .literal chars => simp [code]
  | .set _ chars => simp [code]
  | .look place => exact absurd free id
  | .repetition min (some max) greedy body =>
    have inner := check_notMem_code (show body.IsLookFree from free.2) place
    simp [code, check_notMem_copies inner, check_notMem_options inner]
  | .repetition 0 none greedy body =>
    have inner := check_notMem_code (show body.IsLookFree from free.2) place
    simp [code, choice, check_notMem_loop inner]
  | .repetition (min + 1) none greedy body =>
    have inner := check_notMem_code (show body.IsLookFree from free.2) place
    simp [code, check_notMem_copies inner, check_notMem_loop inner]
  | .capture index body => exact check_notMem_code (show body.IsLookFree from free) place base
  | .concat items => exact check_notMem_codeAll free place base
  | .alternation branches =>
    have inner := check_notMem_codeBranches free place
    simp [code, inner]

/-- The same for expressions one after another. -/
theorem check_notMem_codeAll {items : List Expr} (free : AllWithin .placeless items) (place : Look)
    (base : Nat) : .check place ∉ codeAll base items := by
  match items with
  | [] => exact List.not_mem_nil
  | item :: items =>
    simp [codeAll, check_notMem_code free.1 place, check_notMem_codeAll free.2 place]

/-- The same for branches. -/
theorem check_notMem_codeBranches {branches : List Expr} (free : AllWithin .placeless branches)
    (place : Look) (base stop : Nat) : .check place ∉ codeBranches base stop branches := by
  match branches with
  | [] => exact List.not_mem_nil
  | branch :: branches =>
    simp [codeBranches, check_notMem_code free.1 place, check_notMem_codeBranches free.2 place]

end

theorem isLookFree_ofExpr {expr : Expr} (free : expr.IsLookFree) :
    (Program.ofExpr expr).IsLookFree :=
  fun place => check_notMem_code free place 0

end Expr

namespace Program.IsLookFree

variable {program : Program}

/-- Without checks, the characters around a place do not decide where ways lead. -/
theorem enter_eq (free : program.IsLookFree) (before before' after after' : Option Char)
    (depth address : Nat) (frontier : Frontier) :
    Frontier.enter program.code before after depth frontier address =
      Frontier.enter program.code before' after' depth frontier address := by
  induction depth generalizing frontier address with
  | zero => rfl
  | succ depth ih =>
    have same : Frontier.enter program.code before after depth =
        Frontier.enter program.code before' after' depth :=
      funext fun frontier => funext fun address => ih address frontier
    simp only [Frontier.enter]
    split
    · rfl
    · split
      · rw [same]
      · next place check =>
        exact absurd (Array.mem_toList_iff.2 (Array.mem_of_getElem? check)) (free place)
      · rfl
      · rfl

theorem ofAddresses_eq (free : program.IsLookFree) (before before' after after' : Option Char)
    (addresses : List Nat) :
    Frontier.ofAddresses program.code before after addresses =
      Frontier.ofAddresses program.code before' after' addresses := by
  have same : Frontier.enter program.code before after (program.code.size + 1) =
      Frontier.enter program.code before' after' (program.code.size + 1) :=
    funext fun frontier => funext fun address =>
      free.enter_eq before before' after after' _ address frontier
  rw [Frontier.ofAddresses, same, Frontier.ofAddresses]

/-- A search depends on what follows alone, and ends as far behind its beginning
wherever it begins. -/
theorem search_eq (free : program.IsLookFree) (shift : Nat) (before before' : Option Char)
    (offset : Nat) (addresses : List Nat) (best : Option Nat) (after : List Char) :
    program.search before (shift + offset) addresses (best.map (shift + ·)) after =
      (program.search before' offset addresses best after).map (shift + ·) := by
  induction after generalizing before before' offset addresses best with
  | nil =>
    simp only [search]
    rw [free.ofAddresses_eq before before' none none]
    split <;> rfl
  | cons c after ih =>
    simp only [search]
    rw [free.ofAddresses_eq before before' (some c) (some c)]
    generalize Frontier.ofAddresses program.code before' (some c) addresses = waiting
    -- The match that is known so far moves along.
    have known : (if waiting.contains program.code.size then some (shift + offset)
        else best.map (shift + ·)) =
        (if waiting.contains program.code.size then some offset else best).map (shift + ·) := by
      split <;> rfl
    rw [known]
    split
    · rfl
    · rw [Nat.add_assoc]
      exact ih (some c) (some c) _ _ _

theorem matchEnd?_eq (free : program.IsLookFree) (front before after : List Char)
    (shift offset : Nat) :
    program.matchEnd? (front ++ before) after (shift + offset) =
      (program.matchEnd? before after offset).map (shift + ·) :=
  free.search_eq shift _ _ offset [0] none after

end Program.IsLookFree

end Peg.Regex
