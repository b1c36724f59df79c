import Peg.Parser.Basic
import Peg.Text.Offset

/-!
# Functions as parsers

Some functions to be used as parsers. A few of them report a start other than the
position, or an end past the input or before the position, which the combinators
have to cope with.

## Main definitions

* `Function.anyChar`, `Function.digit`: read one character.
* `Function.accept`, `Function.rewind`, `Function.refuse`: outcomes fixed in advance.
-/

namespace Peg.Function

/-- The character at a position that falls between characters. -/
def charAt? (input : String) (position : Nat) : Option Char :=
  (Text.dropBytes? input.toList position).bind List.head?

/-- A function with the assertion on the ranges of its successes. -/
def asserting (run : String → Nat → Outcome Value) : Function where
  run input position := (run input position).asserted
  ordered input position := (run input position).isOrdered_asserted

/-- Any character, as text. -/
def anyChar : Function :=
  asserting fun input position =>
    match charAt? input position with
    | some c => .success ⟨.text (String.singleton c), position, position + c.utf8Size⟩
    | none => .failure (.expected "any character" position)

/-- A decimal digit, as a number. -/
def digit : Function :=
  asserting fun input position =>
    match charAt? input position with
    | some c =>
      if c.isDigit then
        .success ⟨.number (UInt64.ofNat (c.toNat - '0'.toNat)), position, position + 1⟩
      else .failure (.expected "digit" position)
    | none => .failure (.expected "digit" position)

/-- A value over a range that is given relative to the position, which has to
lie within the input. -/
def accept (value : Value) (start stop : Nat) : Function :=
  asserting fun input position =>
    if position ≤ input.utf8ByteSize then
      .success ⟨value, position + start, position + stop⟩
    else .failure ⟨"Past the end", position⟩

/-- Nothing, at a place before the position. -/
def rewind (distance : Nat) : Function :=
  asserting fun _ position =>
    if distance ≤ position then
      .success ⟨.unit, position - distance, position - distance⟩
    else .failure ⟨"Cannot rewind", position⟩

/-- A failure at a place after the position. -/
def refuse (message : String) (distance : Nat) : Function :=
  asserting fun _ position => .failure ⟨message, position + distance⟩

end Peg.Function
