import Peg.Regex.Cursor
import Peg.Regex.Syntax

/-!
# Escapes

What a backslash begins: a character that stands for itself, a character by its
code point, a class, or a place between characters.

## Main definitions

* `isMeta`: the characters that mean something else without a backslash.
* `readEscape`: the part of an expression after a backslash.

## Main results

* `readEscape_isMeta`: a special character after a backslash is itself.
-/

namespace Peg.Regex

/-- The characters with a meaning of their own in an expression. -/
def isMeta (c : Char) : Bool :=
  "\\.+*?()|[]\x7b\x7d^$#&-~".toList.contains c

/-- A character other than a letter, a digit or an angle bracket may be escaped
even if it has no meaning of its own. -/
def isEscapable (c : Char) : Bool :=
  isMeta c || (decide (c.toNat < 128) && !c.isAlphanum && c != '<' && c != '>')

/-- A character as an expression. -/
def verbatim (c : Char) : Syntax :=
  .literal ⟨c, false⟩

/-- A code point after `x`, `u` or `U`: hexadecimal digits in braces, or a
number of digits that the letter fixes. -/
def readHex (verbose : Bool) (digits : Nat) (cs : List Char) : Option (Syntax × List Char) :=
  match skipBlank verbose cs with
  | '\x7b' :: rest => do
    let start := skipBlank verbose rest
    let (row, rest) := takeLoose verbose (· != '\x7d') start.length start
    let rest ← rest.tail?
    let char ← charOfHex? row
    return (verbatim char, skipBlank verbose rest)
  | start => do
    let (row, rest) := takeLoose verbose isHexDigit digits start
    guard (row.length = digits)
    let char ← charOfHex? row
    return (.literal ⟨char, digits == 2⟩, rest)

/-- The parts of a text before and after the first place where `mark` stands. -/
def splitAtMark (mark : List Char) : List Char → Option (List Char × List Char)
  | [] => none
  | c :: cs =>
    if mark.isPrefixOf (c :: cs) then some ([], (c :: cs).drop mark.length)
    else (splitAtMark mark cs).map fun (before, after) => (c :: before, after)

/-- The property that the text between braces names. An inequality turns the
property around. -/
def propertyOf (body : List Char) (negated : Bool) : Syntax :=
  match splitAtMark ['!', '='] body with
  | some (name, value) =>
    .property (.valued (String.ofList name) (String.ofList value)) (!negated)
  | none =>
    match (splitAtMark [':'] body).or (splitAtMark ['='] body) with
    | some (name, value) =>
      .property (.valued (String.ofList name) (String.ofList value)) negated
    | none => .property (.plain (String.ofList body)) negated

/-- A property after `p` or `P`: one letter, or a name in braces. -/
def readProperty (verbose negated : Bool) (cs : List Char) : Option (Syntax × List Char) :=
  match skipBlank verbose cs with
  | '\x7b' :: rest => do
    let start := skipBlank verbose rest
    let (body, rest) := takeLoose verbose (· != '\x7d') start.length start
    let rest ← rest.tail?
    return (propertyOf body negated, rest)
  | c :: rest =>
    if c == '\\' then none
    else some (.property (.plain (String.singleton c)) negated, skipBlank verbose rest)
  | [] => none

/-- The places that `\b` can name in braces. -/
def namedBoundary? : String → Option Anchor
  | "start" => some .wordStart
  | "end" => some .wordEnd
  | "start-half" => some .wordStartHalf
  | "end-half" => some .wordEndHalf
  | _ => none

/-- The place that `\b` denotes. Braces that do not begin with a letter or a
hyphen are left for a repetition. -/
def readBoundary (verbose : Bool) (cs : List Char) : Option (Syntax × List Char) :=
  let isName := fun c : Char => c.isAlpha || c == '-'
  match cs with
  | '\x7b' :: rest =>
    match skipBlank verbose rest with
    | [] => none
    | c :: start =>
      if isName c then do
        let (name, rest) := takeLoose verbose isName (start.length + 1) (c :: start)
        guard (rest.head? = some '\x7d')
        let place ← namedBoundary? (String.ofList name)
        return (.anchor place, rest.tail)
      else some (.anchor .wordBoundary, cs)
  | _ => some (.anchor .wordBoundary, cs)

/-- What a backslash begins, given the characters after it. -/
def readEscape (verbose : Bool) : List Char → Option (Syntax × List Char)
  | [] => none
  | c :: cs =>
    if isEscapable c then some (verbatim c, cs)
    else
      match c with
      | 'x' => readHex verbose 2 cs
      | 'u' => readHex verbose 4 cs
      | 'U' => readHex verbose 8 cs
      | 'p' => readProperty verbose false cs
      | 'P' => readProperty verbose true cs
      | 'd' => some (.short .digit false, cs)
      | 's' => some (.short .space false, cs)
      | 'w' => some (.short .word false, cs)
      | 'D' => some (.short .digit true, cs)
      | 'S' => some (.short .space true, cs)
      | 'W' => some (.short .word true, cs)
      | 'a' => some (verbatim '\x07', cs)
      | 'f' => some (verbatim '\x0c', cs)
      | 't' => some (verbatim '\t', cs)
      | 'n' => some (verbatim '\n', cs)
      | 'r' => some (verbatim '\r', cs)
      | 'v' => some (verbatim '\x0b', cs)
      | 'A' => some (.anchor .textStart, cs)
      | 'z' => some (.anchor .textEnd, cs)
      | 'b' => readBoundary verbose cs
      | 'B' => some (.anchor .notWordBoundary, cs)
      | '<' => some (.anchor .wordStart, cs)
      | '>' => some (.anchor .wordEnd, cs)
      | _ => none

/-- A special character after a backslash stands for itself. -/
theorem readEscape_isMeta {c : Char} (h : isMeta c = true) (verbose : Bool) (cs : List Char) :
    readEscape verbose (c :: cs) = some (verbatim c, cs) := by
  simp [readEscape, isEscapable, h]

end Peg.Regex
