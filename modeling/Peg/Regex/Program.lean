import Peg.Regex.Expr

/-!
# Programs

An expression is laid out as a row of instructions. An address is a place in
the row; the address after the last instruction accepts. A fork leads to
several addresses, the preferred one first.

## Main definitions

* `Inst`, `Program`.
* `Expr.size`: the number of instructions of an expression.
* `Expr.code`: the instructions of an expression that begins at an address.
* `Program.ofExpr`.

## Main results

* `Expr.length_code`: the code of an expression has its size.
-/

namespace Peg.Regex

/-- An instruction: read a character of a set, check a place, or go on at
several addresses. The first two go on at the next address. -/
inductive Inst where
  | read (chars : CharSet)
  | check (place : Look)
  | fork (targets : List Nat)
  deriving DecidableEq, Repr

/-- A row of instructions, to be run from its beginning. -/
structure Program where
  code : Array Inst
  deriving DecidableEq, Repr

/-- Two addresses, the first of them preferred if the choice is greedy. -/
def choice (greedy : Bool) (more stop : Nat) : Inst :=
  .fork (if greedy then [more, stop] else [stop, more])

/-- A body of `size` instructions a fixed number of times. -/
def copies (size : Nat) (body : Nat → List Inst) : Nat → Nat → List Inst
  | 0, _ => []
  | count + 1, base => body base ++ copies size body count (base + size)

/-- A body of `size` instructions at most so many times. Before each time there
is a way to the address `stop`. -/
def options (greedy : Bool) (size stop : Nat) (body : Nat → List Inst) : Nat → Nat → List Inst
  | 0, _ => []
  | count + 1, base =>
    choice greedy (base + 1) stop :: body (base + 1) ++
      options greedy size stop body count (base + 1 + size)

/-- A body of `size` instructions once or more. -/
def loop (greedy : Bool) (size : Nat) (body : Nat → List Inst) (base : Nat) : List Inst :=
  body base ++ [choice greedy base (base + size + 1)]

namespace Expr

mutual

/-- The number of instructions of an expression. -/
def size : Expr → Nat
  | .empty => 0
  | .literal chars => chars.length
  | .set _ _ | .look _ => 1
  | .repetition min (some max) _ body => min * body.size + (max - min) * (body.size + 1)
  | .repetition 0 none _ body => body.size + 2
  | .repetition (min + 1) none _ body => min * body.size + (body.size + 1)
  | .capture _ body => body.size
  | .concat items => sizeAll items
  | .alternation branches => sizeAll branches + branches.length + 1

/-- The number of instructions of several expressions. -/
def sizeAll : List Expr → Nat
  | [] => 0
  | item :: items => item.size + sizeAll items

end

/-- The addresses of the branches of an alternation, each of which ends with a fork. -/
def branchStarts (base : Nat) : List Expr → List Nat
  | [] => []
  | branch :: branches => base :: branchStarts (base + branch.size + 1) branches

mutual

/-- The instructions of an expression that begins at the address `base`. A
repetition without bound that may not happen at all is a repetition of once or
more behind a choice, so that a body that matches the empty text is left in the
same way on the first round as on later ones. -/
def code (base : Nat) : Expr → List Inst
  | .empty => []
  | .literal chars => chars.map fun c => .read (.singleton c)
  | .set _ chars => [.read chars]
  | .look place => [.check place]
  | .repetition min (some max) greedy body =>
    copies body.size (fun base => code base body) min base ++
      options greedy body.size
        (base + min * body.size + (max - min) * (body.size + 1))
        (fun base => code base body) (max - min) (base + min * body.size)
  | .repetition 0 none greedy body =>
    choice greedy (base + 1) (base + body.size + 2) ::
      loop greedy body.size (fun base => code base body) (base + 1)
  | .repetition (min + 1) none greedy body =>
    copies body.size (fun base => code base body) min base ++
      loop greedy body.size (fun base => code base body) (base + min * body.size)
  | .capture _ body => code base body
  | .concat items => codeAll base items
  | .alternation branches =>
    .fork (branchStarts (base + 1) branches) ::
      codeBranches (base + 1) (base + 1 + sizeAll branches + branches.length) branches

/-- The instructions of several expressions one after another. -/
def codeAll (base : Nat) : List Expr → List Inst
  | [] => []
  | item :: items => code base item ++ codeAll (base + item.size) items

/-- The instructions of several branches, each followed by a way to the address `stop`. -/
def codeBranches (base stop : Nat) : List Expr → List Inst
  | [] => []
  | branch :: branches =>
    code base branch ++ .fork [stop] :: codeBranches (base + branch.size + 1) stop branches

end

end Expr

/-- The program of an expression. -/
def Program.ofExpr (expr : Expr) : Program :=
  ⟨(expr.code 0).toArray⟩

section Length

variable {size : Nat} {body : Nat → List Inst}

theorem length_copies (h : ∀ base, (body base).length = size) (count base : Nat) :
    (copies size body count base).length = count * size := by
  induction count generalizing base with
  | zero => simp [copies]
  | succ count ih => simp [copies, h, ih, Nat.succ_mul, Nat.add_comm]

theorem length_options (h : ∀ base, (body base).length = size) (greedy : Bool)
    (stop count base : Nat) :
    (options greedy size stop body count base).length = count * (size + 1) := by
  induction count generalizing base with
  | zero => simp [options]
  | succ count ih => simp [options, h, ih, Nat.succ_mul]; omega

theorem length_loop (h : ∀ base, (body base).length = size) (greedy : Bool) (base : Nat) :
    (loop greedy size body base).length = size + 1 := by
  simp [loop, h]

end Length

namespace Expr

mutual

/-- The code of an expression has its size, wherever it begins. -/
theorem length_code (expr : Expr) (base : Nat) : (expr.code base).length = expr.size := by
  match expr with
  | .empty => rfl
  | .literal chars => simp [code, size]
  | .set _ _ => rfl
  | .look _ => rfl
  | .repetition min (some max) greedy body =>
    have body_length := length_code body
    simp [code, size, length_copies body_length, length_options body_length]
  | .repetition 0 none greedy body =>
    have body_length := length_code body
    simp [code, size, length_loop body_length]
  | .repetition (min + 1) none greedy body =>
    have body_length := length_code body
    simp [code, size, length_copies body_length, length_loop body_length]
  | .capture _ body =>
    simpa [code, size] using length_code body base
  | .concat items =>
    simpa [code, size] using length_codeAll items base
  | .alternation branches =>
    have all := length_codeBranches branches (base + 1)
      (base + 1 + sizeAll branches + branches.length)
    simp [code, size, all]

/-- The code of several expressions has their sizes together. -/
theorem length_codeAll (items : List Expr) (base : Nat) :
    (codeAll base items).length = sizeAll items := by
  match items with
  | [] => rfl
  | item :: items => simp [codeAll, sizeAll, length_code item, length_codeAll items]

/-- The code of several branches has their sizes together, and one more for each. -/
theorem length_codeBranches (branches : List Expr) (base stop : Nat) :
    (codeBranches base stop branches).length = sizeAll branches + branches.length := by
  match branches with
  | [] => rfl
  | branch :: branches =>
    simp [codeBranches, sizeAll, length_code branch, length_codeBranches branches]
    omega

end

end Expr

end Peg.Regex
