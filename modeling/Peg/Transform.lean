import Peg.Outcome
import Peg.Value

/-!
# Transformations of values

A grammar that is given as data names the functions that it maps over values.
Each of them is meant for one kind of value and passes every other kind through
unchanged.

## Main definitions

* `Transform`: the functions that can be named.
* `Transform.apply`: the value that a function gives, or the fault of cutting
  out a span that is no slice of its source.
* `Transform.readUInt32`: decimal text as a number of 32 bits.
-/

namespace Peg

/-- A function on values that a grammar can name. -/
inductive Transform where
  | identity
  | constant (value : Value)
  | length
  | uppercase
  | uint32
  | increment
  | pick (index : Nat)
  | join
  | sum
  | digits
  | tag (name : String)
  | spanText
  | spanStart
  | spanSource
  deriving Repr

namespace Transform

/-- The number that a nonempty row of decimal digits denotes. -/
def readDigits (row : List Char) : Option Nat :=
  if row.isEmpty || !row.all Char.isDigit then none
  else some (row.foldl (fun number digit => number * 10 + (digit.toNat - '0'.toNat)) 0)

/-- Decimal text, optionally after one plus sign, as a number below `2 ^ 32`.
Any other text counts as zero. -/
def readUInt32 (s : String) : UInt64 :=
  let row :=
    match s.toList with
    | '+' :: rest => rest
    | plain => plain
  match readDigits row with
  | some number => if number < 0x100000000 then UInt64.ofNat number else 0
  | none => 0

/-- The text of a span, or the fault of a range that does not fall between characters. -/
def spanTextOf (span : Span) : Except Fault Value :=
  match span.text? with
  | some s => .ok (.text s)
  | none => .error .notASlice

/-- The value of a named function. A kind of value that the function is not
meant for is left as it is. -/
def apply : Transform → Value → Except Fault Value
  | .identity, value => .ok value
  | .constant value, _ => .ok value
  | .length, .text s => .ok (.number (UInt64.ofNat s.utf8ByteSize))
  | .length, .list elements => .ok (.number (UInt64.ofNat elements.length))
  | .uppercase, .text s => .ok (.text (s.map Char.toUpper))
  | .uint32, .text s => .ok (.number (readUInt32 s))
  | .increment, .number n => .ok (.number (n + 1))
  | .pick index, .list elements => .ok (elements[index]?.getD .unit)
  | .join, value => .ok (.text value.join)
  | .sum, value => .ok (.number value.sum)
  | .digits, .list elements =>
    .ok (.number (elements.foldl (fun number element => number * 10 + element.sum) 0))
  | .tag name, value => .ok (.tagged name value)
  | .spanText, .spanned _ span => spanTextOf span
  | .spanStart, .spanned _ span => .ok (.number (UInt64.ofNat span.start))
  | .spanSource, .spanned _ span => .ok (.text span.source)
  | _, value => .ok value

end Transform

end Peg
