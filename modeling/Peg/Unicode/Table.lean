import Peg.CharSet

/-!
# Coded tables

A table of ranges is written as a row of numbers, two for each range: how many
code points lie between it and the range before, and how many it holds beyond
its first. A number is written with one closing digit, `0` to `9` or `a` to `z`
for 0 to 35, after capital letters for its multiples of 36, `A` to `Z` for 0 to
25 in base 26. Line breaks and blanks are skipped.

## Main definitions

* `CharSet.ofCode`: the set that a row of numbers describes.
* `NamedSet`: a set together with the names by which it is looked up.
-/

namespace Peg

namespace Unicode

/-- The numbers of a coded row. `high` is what the capital letters read so far denote. -/
def readNumbers (high : Nat) : List Char → List Nat
  | [] => []
  | c :: cs =>
    if c.isUpper then readNumbers (high * 26 + (c.toNat - 'A'.toNat)) cs
    else if c.isDigit then (high * 36 + (c.toNat - '0'.toNat)) :: readNumbers 0 cs
    else if c.isLower then (high * 36 + 10 + (c.toNat - 'a'.toNat)) :: readNumbers 0 cs
    else readNumbers high cs

/-- The ranges that a row of numbers describes, the first of them counted from `start`. -/
def readRanges (start : Nat) : List Nat → List CodeRange
  | gap :: extra :: rest =>
    ⟨start + gap, start + gap + extra⟩ :: readRanges (start + gap + extra + 1) rest
  | _ => []

/-- A set of characters and the names by which it is known, in small letters
and without blanks, hyphens and underscores. -/
structure NamedSet where
  names : List String
  set : CharSet
  deriving Repr

/-- The first set of a table that goes by a name. -/
def lookup? (table : List NamedSet) (name : String) : Option CharSet :=
  (table.find? (·.names.contains name)).map (·.set)

end Unicode

/-- The set that a coded row describes. -/
def CharSet.ofCode (code : String) : CharSet :=
  ⟨Unicode.readRanges 0 (Unicode.readNumbers 0 code.toList)⟩

end Peg
