import Peg.Regex.Expr
import Peg.Regex.Switches
import Peg.Regex.Tree

/-!
# The meaning of an expression as it is written

Reading an expression from left to right, each part is put into normal form
under the switches that hold where it stands. A switch that is set holds to the
end of the group around it.

## Main definitions

* `Switches.look`: the condition that a place denotes.
* `Switches.setKind`: what sets are written as.
* `Switches.expr?`: the normal form of an expression.
* `Expr.parse?`: the normal form of the expression that a text writes.
-/

namespace Peg.Regex

namespace Switches

/-- The condition on the neighbours of a place, under the switches `m`, `R` and `u`. -/
def look (switches : Switches) : Anchor → Look
  | .caret =>
    if switches.multiLine then
      if switches.crlf then .lineStartCrlf else .lineStart
    else .textStart
  | .dollar =>
    if switches.multiLine then
      if switches.crlf then .lineEndCrlf else .lineEnd
    else .textEnd
  | .textStart => .textStart
  | .textEnd => .textEnd
  | .wordBoundary => .word .boundary switches.unicode
  | .notWordBoundary => .word .inside switches.unicode
  | .wordStart => .word .start switches.unicode
  | .wordEnd => .word .stop switches.unicode
  | .wordStartHalf => .word .startHalf switches.unicode
  | .wordEndHalf => .word .stopHalf switches.unicode

/-- Sets are of characters with `u`, and of bytes without. -/
def setKind (switches : Switches) : SetKind :=
  if switches.unicode then .chars else .bytes

/-- The characters that the dot matches, which exist only with `u`. -/
def dot? (switches : Switches) : Option CharSet :=
  if !switches.unicode then none
  else if switches.dotAll then some .all
  else if switches.crlf then some (setOfChars [('\n', '\n'), ('\r', '\r')]).complement
  else some (CharSet.singleton '\n').complement

/-- A character, in both cases where case does not count. Two hexadecimal
digits denote a byte when `u` is off, and bytes outside ASCII are refused. -/
def literal? (switches : Switches) (literal : Literal) : Option Expr :=
  if !switches.unicode && literal.isByte && decide (128 ≤ literal.char.toNat) then none
  else some (.ofSet switches.setKind (switches.close (.singleton literal.char)))

mutual

/-- The normal form of an expression under some switches, and the switches that
hold after it. -/
def expr? (switches : Switches) : Syntax → Option (Expr × Switches)
  | .empty => some (.empty, switches)
  | .flags change => some (.empty, switches.change change)
  | .literal char => do return (← switches.literal? char, switches)
  | .dot => do return (.ofSet switches.setKind (← switches.dot?), switches)
  | .anchor kind => some (.look (switches.look kind), switches)
  | .short kind negated => do
    return (.ofSet switches.setKind (← switches.short? kind negated), switches)
  | .property name negated => do
    return (.ofSet switches.setKind (← switches.property? name negated), switches)
  | .bracketed negated set => do
    let chars ← switches.finish? negated (← switches.classSet? set)
    return (.ofSet switches.setKind chars, switches)
  | .repetition min max greedy body => do
    let (body, switches) ← expr? switches body
    return (.ofRepetition min max (greedy != switches.swapGreed) body, switches)
  | .group (.capturing index) body => do
    let (body, _) ← expr? switches body
    return (.capture index body, switches)
  | .group (.plain change) body => do
    let (body, _) ← expr? (switches.change change) body
    return (body, switches)
  | .concat items => do
    let (items, switches) ← exprs? switches items
    return (.ofConcat items, switches)
  | .alternation branches => do
    let (branches, switches) ← exprs? switches branches
    return (.ofAlternation (Expr.weightAll branches) branches, switches)

/-- The normal forms of several expressions, each under the switches that hold
after the one before. -/
def exprs? (switches : Switches) : List Syntax → Option (List Expr × Switches)
  | [] => some ([], switches)
  | item :: items => do
    let (item, switches) ← expr? switches item
    let (items, switches) ← exprs? switches items
    return (item :: items, switches)

end

end Switches

/-- The normal form of the expression that a text writes. -/
def Expr.parse? (text : String) : Option Expr := do
  let tree ← Syntax.parse? text
  let (expr, _) ← Switches.default.expr? tree
  return expr

end Peg.Regex
