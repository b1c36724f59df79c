import Peg.Regex.Token

/-!
# Expressions from tokens

Tokens are put together from left to right. A level holds the finished branches
and the parts of the current branch of one group; the levels around it wait on
a stack.

## Main definitions

* `Level`, `Stack`.
* `Stack.push?`: one more token.
* `Syntax.ofTokens?`: the expression that some tokens make.
* `Syntax.parse?`: the expression that a text writes.
-/

namespace Peg.Regex

/-- The branches of a group before the current one, and the parts of the
current one, both in reverse order. -/
structure Level where
  branches : List Syntax
  items : List Syntax
  deriving Repr

namespace Level

/-- A group of which nothing is read yet. -/
def empty : Level :=
  ⟨[], []⟩

/-- One more part of the current branch. -/
def add (level : Level) (item : Syntax) : Level :=
  { level with items := item :: level.items }

/-- The current branch ends, and another begins. -/
def endBranch (level : Level) : Level :=
  ⟨.ofItems level.items.reverse :: level.branches, []⟩

/-- The expression of a level whose last branch ends here. -/
def body (level : Level) : Syntax :=
  match level.branches with
  | [] => .ofItems level.items.reverse
  | _ => .alternation level.endBranch.branches.reverse

/-- The last part of the current branch is repeated. There has to be one, and it
must not be a mere change of switches. -/
def repeat? (level : Level) (min : Nat) (max : Option Nat) (greedy : Bool) : Option Level :=
  match level.items with
  | [] | .flags _ :: _ | .empty :: _ => none
  | item :: items => some { level with items := .repetition min max greedy item :: items }

end Level

/-- The current level, and the open groups around it with theirs. -/
structure Stack where
  top : Level
  outer : List (GroupKind × Level)
  deriving Repr

namespace Stack

/-- No token read yet. -/
def start : Stack :=
  ⟨.empty, []⟩

/-- One more token. A repetition without anything to repeat and a closing
bracket without an open group are refused. -/
def push? (stack : Stack) : Token → Option Stack
  | .atom part => some { stack with top := stack.top.add part }
  | .flags change => some { stack with top := stack.top.add (.flags change) }
  | .repeats min max greedy => do
    let top ← stack.top.repeat? min max greedy
    return { stack with top }
  | .bar => some { stack with top := stack.top.endBranch }
  | .opening kind => some ⟨.empty, (kind, stack.top) :: stack.outer⟩
  | .closing =>
    match stack.outer with
    | [] => none
    | (kind, level) :: outer => some ⟨level.add (.group kind stack.top.body), outer⟩

end Stack

namespace Syntax

/-- The expression that some tokens make. Every group has to be closed. -/
def ofTokens? (tokens : List Token) : Option Syntax := do
  let stack ← tokens.foldlM Stack.push? Stack.start
  guard stack.outer.isEmpty
  return stack.top.body

/-- The expression that a text writes, if it is well formed and not nested too deeply. -/
def parse? (text : String) : Option Syntax := do
  let tokens ← tokens? text.toList
  let tree ← ofTokens? tokens
  guard (tree.depth ≤ nestLimit)
  return tree

end Syntax

end Peg.Regex
