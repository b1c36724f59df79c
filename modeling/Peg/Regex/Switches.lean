import Peg.Regex.Syntax
import Peg.Unicode.CaseFolding
import Peg.Unicode.Property

/-!
# Switches, and the classes that depend on them

The switches decide which characters a class holds: those of Unicode or only
those of ASCII, and whether the other case of each letter belongs to it. With
the switch `u` off a class may hold ASCII characters only.

## Main definitions

* `Switches`, with `Switches.change`.
* `Switches.close`: a set under the case of letters.
* `Switches.classSet?`: the characters of a class in brackets.
-/

namespace Peg.Regex

/-- The positions of the switches that matter for matching. -/
structure Switches where
  ignoreCase : Bool
  multiLine : Bool
  dotAll : Bool
  swapGreed : Bool
  unicode : Bool
  crlf : Bool
  deriving DecidableEq, Repr

namespace Switches

/-- The positions at the beginning of an expression: only `u` is on. -/
def default : Switches :=
  ⟨false, false, false, false, true, false⟩

/-- One switch put in a position. -/
def set (switches : Switches) : Flag × Bool → Switches
  | (.ignoreCase, on) => { switches with ignoreCase := on }
  | (.multiLine, on) => { switches with multiLine := on }
  | (.dotAll, on) => { switches with dotAll := on }
  | (.swapGreed, on) => { switches with swapGreed := on }
  | (.unicode, on) => { switches with unicode := on }
  | (.crlf, on) => { switches with crlf := on }
  | (.verbose, _) => switches

/-- Some switches put in new positions. -/
def change (switches : Switches) (change : FlagChange) : Switches :=
  change.foldl set switches

/-- A set with the other case of its letters, where case does not count. -/
def close (switches : Switches) (chars : CharSet) : CharSet :=
  if switches.ignoreCase then
    if switches.unicode then chars.foldCase else chars.foldAsciiCase
  else chars

/-- A set or its complement. Complements hold characters outside ASCII. -/
def negate? (switches : Switches) (negated : Bool) (chars : CharSet) : Option CharSet :=
  if !negated then some chars
  else if switches.unicode then some chars.complement
  else none

/-- A set closed under case, or the complement of that. Case is looked at first. -/
def finish? (switches : Switches) (negated : Bool) (chars : CharSet) : Option CharSet :=
  switches.negate? negated (switches.close chars)

end Switches

/-- The set of some ranges between characters. -/
def setOfChars (ranges : List (Char × Char)) : CharSet :=
  .ofRanges (ranges.map fun (lo, hi) => ⟨lo.toNat, hi.toNat⟩)

/-- The characters of a class that is written between colons. -/
def AsciiClass.chars : AsciiClass → CharSet
  | .alnum => setOfChars [('0', '9'), ('A', 'Z'), ('a', 'z')]
  | .alpha => setOfChars [('A', 'Z'), ('a', 'z')]
  | .ascii => setOfChars [('\x00', '\x7f')]
  | .blank => setOfChars [('\t', '\t'), (' ', ' ')]
  | .cntrl => setOfChars [('\x00', '\x1f'), ('\x7f', '\x7f')]
  | .digit => setOfChars [('0', '9')]
  | .graph => setOfChars [('!', '~')]
  | .lower => setOfChars [('a', 'z')]
  | .print => setOfChars [(' ', '~')]
  | .punct => setOfChars [('!', '/'), (':', '@'), ('[', '\x60'), ('\x7b', '~')]
  | .space => setOfChars [('\t', '\r'), (' ', ' ')]
  | .upper => setOfChars [('A', 'Z')]
  | .word => setOfChars [('0', '9'), ('A', 'Z'), ('_', '_'), ('a', 'z')]
  | .xdigit => setOfChars [('0', '9'), ('A', 'F'), ('a', 'f')]

/-- The word characters, all of them or those of ASCII. -/
def wordChars (unicode : Bool) : CharSet :=
  if unicode then Unicode.word else AsciiClass.word.chars

/-- The characters of a short class, all of them or those of ASCII. -/
def ShortClass.chars (unicode : Bool) : ShortClass → CharSet
  | .digit => if unicode then Unicode.decimalNumber else AsciiClass.digit.chars
  | .space => if unicode then Unicode.whiteSpace else AsciiClass.space.chars
  | .word => wordChars unicode

/-- The characters with a property. -/
def PropertyName.chars? : PropertyName → Option CharSet
  | .plain name => Unicode.property? name
  | .valued name value => Unicode.propertyValue? name value

/-- The characters that an operation leaves of two sets. -/
def SetOp.apply : SetOp → CharSet → CharSet → CharSet
  | .inter => CharSet.inter
  | .diff => CharSet.diff
  | .symmDiff => CharSet.symmDiff

namespace Switches

/-- A short class or its complement. It is closed under case as it is. -/
def short? (switches : Switches) (kind : ShortClass) (negated : Bool) : Option CharSet :=
  switches.negate? negated (kind.chars switches.unicode)

/-- The characters with a property, or those without. Only `u` gives properties a meaning. -/
def property? (switches : Switches) (name : PropertyName) (negated : Bool) :
    Option CharSet := do
  guard switches.unicode
  switches.finish? negated (← name.chars?)

/-- The code point of a character in a class, which has to be ASCII without `u`. -/
def classCode? (switches : Switches) (literal : Literal) : Option Nat :=
  if switches.unicode || decide (literal.char.toNat < 128) then some literal.char.toNat
  else none

mutual

/-- The characters of a part of a class. -/
def itemSet? (switches : Switches) : ClassItem → Option CharSet
  | .literal char => do
    let code ← switches.classCode? char
    return ⟨[⟨code, code⟩]⟩
  | .range lo hi => do
    let first ← switches.classCode? lo
    let last ← switches.classCode? hi
    return ⟨[⟨first, last⟩]⟩
  | .ascii kind negated => switches.finish? negated kind.chars
  | .short kind negated => switches.short? kind negated
  | .property name negated => switches.property? name negated
  | .bracketed negated set => do switches.finish? negated (← classSet? switches set)
  | .union items => unionSet? switches items

/-- The characters of the contents of brackets. Both sides of an operation are
closed under case before it. -/
def classSet? (switches : Switches) : ClassSet → Option CharSet
  | .item item => itemSet? switches item
  | .op kind left right => do
    let left ← classSet? switches left
    let right ← classSet? switches right
    return kind.apply (switches.close left) (switches.close right)

/-- The characters of any of several parts of a class. -/
def unionSet? (switches : Switches) : List ClassItem → Option CharSet
  | [] => some .empty
  | item :: items => do
    let first ← itemSet? switches item
    let rest ← unionSet? switches items
    return first.union rest

end

end Switches

end Peg.Regex
