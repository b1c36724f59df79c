import Peg.Text.Offset

/-!
# Spans

A span is a part of an input, kept as the whole input and two byte offsets.
Its text is cut out only on request, and there is none when an offset lies past
the end or inside a character.

## Main definitions

* `Span`, with `Span.length`, `Span.isEmpty` and `Span.text?`.
-/

namespace Peg

/-- A part of `source` between two byte offsets. -/
structure Span where
  source : String
  start : Nat
  stop : Nat
  deriving DecidableEq, Repr

namespace Span

/-- The number of bytes that a span covers. -/
def length (span : Span) : Nat :=
  span.stop - span.start

/-- A span is empty when its two offsets agree. -/
def isEmpty (span : Span) : Bool :=
  span.start == span.stop

/-- The text that a span covers. -/
def text? (span : Span) : Option String :=
  (Text.slice? span.source.toList span.start span.stop).map String.ofList

end Span

end Peg
