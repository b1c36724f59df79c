import Peg.Span

/-!
# Values

Parsers of a grammar that is built while the program runs all produce values of
one type: nothing, a number, a text, a list, a value under a tag, or a value
together with the span it was read from.

## Main definitions

* `Value`.
* `Value.join`: the texts inside a value, put together from left to right.
* `Value.sum`: the numbers inside a value, added up.
-/

namespace Peg

/-- A value that a parser produces. Numbers are words of 64 bits. -/
inductive Value where
  | unit
  | number (n : UInt64)
  | text (s : String)
  | list (elements : List Value)
  | tagged (tag : String) (value : Value)
  | spanned (value : Value) (span : Span)
  deriving Repr

namespace Value

mutual

/-- All texts inside a value, depth first. A number counts as its decimal digits. -/
def join : Value → String
  | .unit => ""
  | .number n => toString n.toNat
  | .text s => s
  | .list elements => joinAll elements
  | .tagged _ value => value.join
  | .spanned value _ => value.join

/-- The texts of several values, one after another. -/
def joinAll : List Value → String
  | [] => ""
  | value :: values => value.join ++ joinAll values

end

mutual

/-- The sum of all numbers inside a value, modulo `2 ^ 64`. -/
def sum : Value → UInt64
  | .unit | .text _ => 0
  | .number n => n
  | .list elements => sumAll elements
  | .tagged _ value => value.sum
  | .spanned value _ => value.sum

/-- The sum over several values, modulo `2 ^ 64`. -/
def sumAll : List Value → UInt64
  | [] => 0
  | value :: values => value.sum + sumAll values

end

end Value

end Peg
