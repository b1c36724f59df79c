import Peg.Regex.Escape

/-!
# Classes in brackets

A class lists characters, ranges, named classes and further classes. Three
operations on sets, written `&&`, `--` and `~~`, take all that stands before
them as their left side.

## Main definitions

* `readAsciiClass`: a named class between colons.
* `openBracket`: what a bracket begins with.
* `readBody`: the rest of a class up to its closing bracket.
* `readBrackets`: a whole class.
-/

namespace Peg.Regex

/-- A named class such as `[:alpha:]`, given the characters after its bracket.
Anything else is left for an ordinary class. -/
def readAsciiClass (cs : List Char) : Option (ClassItem × List Char) :=
  match cs with
  | ':' :: rest => do
    let (negated, rest) :=
      match rest with
      | '^' :: rest => (true, rest)
      | rest => (false, rest)
    let name := rest.takeWhile (· != ':')
    let kind ← AsciiClass.ofName? (String.ofList name)
    match rest.drop name.length with
    | ':' :: ']' :: rest => some (.ascii kind negated, rest)
    | _ => none
  | _ => none

/-- A part of a class that an expression can stand for, too. Places between
characters cannot be in a class. -/
def ClassItem.ofSyntax? : Syntax → Option ClassItem
  | .literal char => some (.literal char)
  | .short kind negated => some (.short kind negated)
  | .property name negated => some (.property name negated)
  | _ => none

/-- The character that an expression is, as an end of a range. -/
def literalOf? : Syntax → Option Literal
  | .literal char => some char
  | _ => none

/-- One character of a class, or an escape. -/
def readPrimitive (verbose : Bool) : List Char → Option (Syntax × List Char)
  | [] => none
  | '\\' :: rest => readEscape verbose rest
  | c :: rest => some (verbatim c, rest)

/-- A character, an escape or a range. A hyphen before the closing bracket or
before another hyphen makes no range. -/
def readRange (verbose : Bool) (cs : List Char) : Option (ClassItem × List Char) := do
  let (first, rest) ← readPrimitive verbose cs
  match skipBlank verbose rest with
  -- An expression must not end inside a class.
  | [] => none
  | '-' :: after =>
    let beyond := peekPast verbose after
    if beyond = some ']' ∨ beyond = some '-' then
      return (← ClassItem.ofSyntax? first, '-' :: after)
    else
      let (last, rest) ← readPrimitive verbose (skipBlank verbose after)
      let lo ← literalOf? first
      let hi ← literalOf? last
      guard (lo.char ≤ hi.char)
      return (.range lo hi, rest)
  | rest => return (← ClassItem.ofSyntax? first, rest)

/-- Leading hyphens stand for themselves. -/
def leadingHyphens (verbose : Bool) (cs : List Char) : List ClassItem × List Char :=
  let (row, rest) := takeLoose verbose (· == '-') cs.length cs
  (row.map fun c => .literal ⟨c, false⟩, rest)

/-- What a class begins with: whether it is negated, and the hyphens or the
closing bracket that stand for themselves because they come first. -/
def openBracket (verbose : Bool) (cs : List Char) :
    Option (Bool × List ClassItem × List Char) := do
  let start := skipBlank verbose cs
  let (negated, start) :=
    match start with
    | '^' :: rest => (true, skipBlank verbose rest)
    | rest => (false, rest)
  let (hyphens, rest) := leadingHyphens verbose start
  match hyphens, rest with
  | _, [] => none
  | [], ']' :: rest => return (negated, [.literal ⟨']', false⟩], skipBlank verbose rest)
  | hyphens, rest => return (negated, hyphens, rest)

/-- The parts of a class, given in reverse order, as one part. -/
def unionOfReversed : List ClassItem → ClassItem
  | [item] => item
  | items => .union items.reverse

/-- The set on the left of an operation, or the whole class: the parts read so
far, put to an operation that is still open. -/
def closeOperand (pending : Option (SetOp × ClassSet)) (items : List ClassItem) : ClassSet :=
  match pending with
  | none => .item (unionOfReversed items)
  | some (kind, left) => .op kind left (.item (unionOfReversed items))

/-- The rest of a class up to its closing bracket. `pending` is an operation
whose left side is known, and `items` holds in reverse order the parts read
since. Each round takes at least one character, and `rounds` bounds their number. -/
def readBody (verbose : Bool) (rounds : Nat) (pending : Option (SetOp × ClassSet))
    (items : List ClassItem) (cs : List Char) : Option (ClassSet × List Char) :=
  match rounds with
  | 0 => none
  | rounds + 1 =>
    match skipBlank verbose cs with
    | [] => none
    | ']' :: rest => some (closeOperand pending items, rest)
    | '[' :: rest =>
      -- A name between colons is tried first; what is no such name is a nested class.
      match readAsciiClass rest with
      | some (item, rest) => readBody verbose rounds pending (item :: items) rest
      | none => do
        let (negated, first, rest) ← openBracket verbose rest
        let (set, rest) ← readBody verbose rounds none first.reverse rest
        readBody verbose rounds pending (.bracketed negated set :: items) rest
    | '&' :: '&' :: rest =>
      readBody verbose rounds (some (.inter, closeOperand pending items)) [] rest
    | '-' :: '-' :: rest =>
      readBody verbose rounds (some (.diff, closeOperand pending items)) [] rest
    | '~' :: '~' :: rest =>
      readBody verbose rounds (some (.symmDiff, closeOperand pending items)) [] rest
    | start => do
      let (item, rest) ← readRange verbose start
      readBody verbose rounds pending (item :: items) rest

/-- A class, given the characters after its opening bracket. -/
def readBrackets (verbose : Bool) (cs : List Char) : Option (Syntax × List Char) := do
  let (negated, first, rest) ← openBracket verbose cs
  let (set, rest) ← readBody verbose (rest.length + 1) none first.reverse rest
  return (.bracketed negated set, rest)

end Peg.Regex
