import Peg.Unicode.Binary

/-!
# Reading characters, with or without blanks

In verbose mode an expression may hold white space, and comments from `#` to
the end of the line, between its parts. Every reader here takes the mode as its
first argument.

## Main definitions

* `skipBlank`: the characters after blanks and comments.
* `takeLoose`: a run of characters with blanks between them.
* `peekPast`: a look beyond the next character.
* `readDecimal`: a decimal number with blanks around it.
-/

namespace Peg.Regex

/-- The characters after white space and comments. `comment` tells whether they
begin inside a comment. -/
def dropBlank (comment : Bool) : List Char → List Char
  | [] => []
  | c :: cs =>
    if comment then dropBlank (c != '\n') cs
    else if Unicode.isWhiteSpace c then dropBlank false cs
    else if c == '#' then dropBlank true cs
    else c :: cs

/-- The characters after blanks, where blanks count for nothing. -/
def skipBlank (verbose : Bool) (cs : List Char) : List Char :=
  if verbose then dropBlank false cs else cs

@[simp]
theorem skipBlank_false (cs : List Char) : skipBlank false cs = cs :=
  rfl

/-- At most `count` leading characters that satisfy a test, and the rest. Blanks
after each of them are skipped. -/
def takeLoose (verbose : Bool) (test : Char → Bool) : Nat → List Char → List Char × List Char
  | 0, cs => ([], cs)
  | _ + 1, [] => ([], [])
  | count + 1, c :: cs =>
    if test c then
      let (taken, rest) := takeLoose verbose test count (skipBlank verbose cs)
      (c :: taken, rest)
    else ([], c :: cs)

/-- The first character that is neither white space nor the sign of a comment.
The words of a comment are not skipped. -/
def firstSolid (comment : Bool) : List Char → Option Char
  | [] => none
  | c :: cs =>
    if Unicode.isWhiteSpace c then firstSolid comment cs
    else if !comment && c == '#' then firstSolid true cs
    else some c

/-- A look at the character after the current one. In verbose mode blanks
before it do not count, unless nothing else follows. -/
def peekPast (verbose : Bool) (after : List Char) : Option Char :=
  if verbose then (firstSolid false after).or after.head? else after.head?

/-- A number in decimal digits below `2 ^ 32`, with white space around it. -/
def readDecimal (verbose : Bool) (cs : List Char) : Option (Nat × List Char) :=
  let start := cs.dropWhile Unicode.isWhiteSpace
  let (row, rest) := takeLoose verbose Char.isDigit start.length start
  let number := row.foldl (fun number digit => number * 10 + (digit.toNat - '0'.toNat)) 0
  if row.isEmpty || decide (0x100000000 ≤ number) then none
  else some (number, rest.dropWhile Unicode.isWhiteSpace)

/-- A hexadecimal digit. -/
def isHexDigit (c : Char) : Bool :=
  c.isDigit || ('a' ≤ c && c ≤ 'f') || ('A' ≤ c && c ≤ 'F')

/-- The value of a hexadecimal digit. -/
def hexValue (c : Char) : Nat :=
  if c.isDigit then c.toNat - '0'.toNat
  else if 'a' ≤ c then c.toNat - 'a'.toNat + 10
  else c.toNat - 'A'.toNat + 10

/-- The character whose code point some hexadecimal digits denote. -/
def charOfHex? (row : List Char) : Option Char :=
  let code := row.foldl (fun code digit => code * 16 + hexValue digit) 0
  if row.isEmpty || !row.all isHexDigit then none
  else if code.isValidChar then some (Char.ofNat code)
  else none

end Peg.Regex
