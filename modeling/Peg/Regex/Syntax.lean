/-!
# Syntax of regular expressions

The tree of a regular expression as it is written: groups and flags are kept,
and classes name the sets that they are made of.

## Main definitions

* `Flag`, `FlagChange`: the switches `i m s U u R x`.
* `ClassItem`, `ClassSet`: what stands between brackets.
* `Syntax`: a regular expression.
* `Syntax.depth`: how deeply its parts are nested, and `Syntax.nestLimit`, the
  depth up to which an expression is accepted.
-/

namespace Peg.Regex

/-- A switch that an expression can set for the rest of its group. -/
inductive Flag where
  /-- `i`: letters match in either case. -/
  | ignoreCase
  /-- `m`: `^` and `$` match at lines. -/
  | multiLine
  /-- `s`: the dot matches a line feed too. -/
  | dotAll
  /-- `U`: repetitions are lazy, and greedy with a question mark. -/
  | swapGreed
  /-- `u`: classes hold all characters of their kind and not only those of ASCII. -/
  | unicode
  /-- `R`: lines may end with a carriage return. -/
  | crlf
  /-- `x`: blanks and comments are skipped. -/
  | verbose
  deriving DecidableEq, Repr

/-- The letter by which a switch is written. -/
def Flag.ofChar? : Char → Option Flag
  | 'i' => some .ignoreCase
  | 'm' => some .multiLine
  | 's' => some .dotAll
  | 'U' => some .swapGreed
  | 'u' => some .unicode
  | 'R' => some .crlf
  | 'x' => some .verbose
  | _ => none

/-- Switches together with the positions that they are put in. -/
abbrev FlagChange :=
  List (Flag × Bool)

/-- The position that a change puts a switch in, if it names the switch. -/
def FlagChange.find? (change : FlagChange) (flag : Flag) : Option Bool :=
  (List.find? (·.1 = flag) change).map (·.2)

/-- A condition on a place between two characters. -/
inductive Anchor where
  | caret
  | dollar
  | textStart
  | textEnd
  | wordBoundary
  | notWordBoundary
  | wordStart
  | wordEnd
  | wordStartHalf
  | wordEndHalf
  deriving DecidableEq, Repr

/-- A character as it is written. `isByte` marks the form of two hexadecimal digits. -/
structure Literal where
  char : Char
  isByte : Bool
  deriving DecidableEq, Repr

/-- The classes of digits, blanks and word characters. -/
inductive ShortClass where
  | digit
  | space
  | word
  deriving DecidableEq, Repr

/-- The classes of ASCII characters that are written between colons. -/
inductive AsciiClass where
  | alnum
  | alpha
  | ascii
  | blank
  | cntrl
  | digit
  | graph
  | lower
  | print
  | punct
  | space
  | upper
  | word
  | xdigit
  deriving DecidableEq, Repr

/-- The class that a name between colons denotes. -/
def AsciiClass.ofName? : String → Option AsciiClass
  | "alnum" => some .alnum
  | "alpha" => some .alpha
  | "ascii" => some .ascii
  | "blank" => some .blank
  | "cntrl" => some .cntrl
  | "digit" => some .digit
  | "graph" => some .graph
  | "lower" => some .lower
  | "print" => some .print
  | "punct" => some .punct
  | "space" => some .space
  | "upper" => some .upper
  | "word" => some .word
  | "xdigit" => some .xdigit
  | _ => none

/-- A property of characters, by its name alone or with a value. -/
inductive PropertyName where
  | plain (name : String)
  | valued (name value : String)
  deriving DecidableEq, Repr

/-- An operation on two sets between brackets. -/
inductive SetOp where
  | inter
  | diff
  | symmDiff
  deriving DecidableEq, Repr

mutual

/-- A part of a class in brackets. -/
inductive ClassItem where
  | literal (char : Literal)
  | range (lo hi : Literal)
  | ascii (kind : AsciiClass) (negated : Bool)
  | short (kind : ShortClass) (negated : Bool)
  | property (name : PropertyName) (negated : Bool)
  | bracketed (negated : Bool) (set : ClassSet)
  | union (items : List ClassItem)
  deriving Repr

/-- The contents of a pair of brackets. -/
inductive ClassSet where
  | item (item : ClassItem)
  | op (kind : SetOp) (left right : ClassSet)
  deriving Repr

end

/-- How a group is written. Capturing groups are numbered from one. -/
inductive GroupKind where
  | capturing (index : Nat)
  | plain (change : FlagChange)
  deriving DecidableEq, Repr

/-- A regular expression as it is written. -/
inductive Syntax where
  | empty
  | flags (change : FlagChange)
  | literal (char : Literal)
  | dot
  | anchor (kind : Anchor)
  | short (kind : ShortClass) (negated : Bool)
  | property (name : PropertyName) (negated : Bool)
  | bracketed (negated : Bool) (set : ClassSet)
  | repetition (min : Nat) (max : Option Nat) (greedy : Bool) (body : Syntax)
  | group (kind : GroupKind) (body : Syntax)
  | concat (items : List Syntax)
  | alternation (branches : List Syntax)
  deriving Repr

mutual

/-- The nesting depth of a part of a class. -/
def ClassItem.depth : ClassItem → Nat
  | .bracketed _ set => set.depth + 1
  | .union [] => 0
  | .union (item :: items) => max item.depth (ClassItem.depthAll items) + 1
  | _ => 0

/-- The nesting depth of the contents of brackets. -/
def ClassSet.depth : ClassSet → Nat
  | .item item => item.depth
  | .op _ left right => max left.depth right.depth + 1

/-- The greatest nesting depth of several parts. -/
def ClassItem.depthAll : List ClassItem → Nat
  | [] => 0
  | item :: items => max item.depth (ClassItem.depthAll items)

end

namespace Syntax

/-- Several expressions one after another. -/
def ofItems : List Syntax → Syntax
  | [] => .empty
  | [item] => item
  | items => .concat items

mutual

/-- The nesting depth of an expression. Single characters and places have none. -/
def depth : Syntax → Nat
  | .bracketed _ set => set.depth + 1
  | .repetition _ _ _ body => body.depth + 1
  | .group _ body => body.depth + 1
  | .concat items => depthAll items + 1
  | .alternation branches => depthAll branches + 1
  | _ => 0

/-- The greatest nesting depth of several expressions. -/
def depthAll : List Syntax → Nat
  | [] => 0
  | item :: items => max item.depth (depthAll items)

end

/-- The greatest nesting depth that is accepted. -/
def nestLimit : Nat :=
  250

end Syntax

end Peg.Regex
