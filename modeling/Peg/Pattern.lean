import Peg.Outcome
import Peg.Regex.Meaning
import Peg.Regex.Search
import Peg.Text.Offset

/-!
# Patterns

A pattern is a regular expression that is matched where the parser stands and
nowhere later. Places such as the start of a line are judged by the whole text.

## Main definitions

* `Pattern`, `PatternError`.
* `Pattern.compile`: the pattern of an expression, or what is wrong with it.
* `Pattern.matchEnd?`: the offset at which the match at a position ends.
-/

namespace Peg

/-- A regular expression together with its program. -/
structure Pattern where
  expr : String
  program : Regex.Program
  deriving DecidableEq, Repr

/-- An expression that is not well formed. -/
structure PatternError where
  expr : String
  deriving DecidableEq, Repr

namespace PatternError

/-- What the error says. -/
def message (error : PatternError) : String :=
  "invalid pattern `" ++ error.expr ++ "`"

/-- What lies behind the error: the only expression there is cannot be read. -/
def source (_ : PatternError) : String :=
  "error parsing pattern 0"

end PatternError

namespace Pattern

/-- The pattern of an expression. -/
def compile (expr : String) : Except PatternError Pattern :=
  match Regex.Expr.parse? expr with
  | some normal => .ok ⟨expr, .ofExpr normal⟩
  | none => .error ⟨expr⟩

/-- The offset at which the preferred match ends that begins at a position. A
position that does not fall between characters has no match. -/
def matchEnd? (pattern : Pattern) (input : List Char) (position : Nat) : Option Nat :=
  (Text.splitAt? input position).bind fun (before, after) =>
    pattern.program.matchEnd? before after position

theorem matchEnd?_eq_some_iff {pattern : Pattern} {input : List Char} {position stop : Nat} :
    pattern.matchEnd? input position = some stop ↔
      ∃ before after, input = before ++ after ∧ Text.size before = position ∧
        pattern.program.matchEnd? before after position = some stop := by
  simp [matchEnd?, Option.bind_eq_some_iff, Text.splitAt?_eq_some_iff, and_assoc]

theorem matchEnd?_eq_none_iff {pattern : Pattern} {input : List Char} {position : Nat} :
    pattern.matchEnd? input position = none ↔
      ∀ before after, input = before ++ after → Text.size before = position →
        pattern.program.matchEnd? before after position = none := by
  simp [matchEnd?, Option.bind_eq_none_iff, Text.splitAt?_eq_some_iff]

end Pattern

end Peg
