import Peg.Parser.Run
import Peg.Text.Quoted

/-!
# Running over a whole input, with a report

A parser is run from the beginning of an input, and what happens is reported as
it happens. Patterns that cannot be compiled are reported as well. So are the name of
a parser and the version of the library, on request.

## Main definitions

* `Event`: what is reported.
* `Parser.parseAll`: the reply of a parser at the beginning of an input.
* `Parser.parseAllEvents`: what that run reports.
* `PatternError.events`: what a pattern that cannot be compiled reports.
* `Parser.display`: a parser in one line.
* `version`: the version of the library.
-/

namespace Peg

/-- How much a report matters. -/
inductive Level where
  | trace
  | debug
  deriving DecidableEq, Repr

/-- A detail of a report, under a name. -/
inductive Field where
  | text (name value : String)
  | number (name : String) (value : Nat)
  deriving DecidableEq, Repr

/-- A report: a phase is announced, begins or ends, or something is said in it. -/
inductive Event where
  | phase (name : String) (level : Level) (fields : List Field)
  | enter
  | note (level : Level) (fields : List Field)
  | exit
  deriving DecidableEq, Repr

/-- What is said about an outcome. A fault goes unmentioned. -/
def Outcome.events {α : Type} : Outcome α → List Event
  | .success result =>
    [.note .trace [.text "message" "parse succeeded", .number "end" result.stop]]
  | .failure reason =>
    [.note .trace [.text "message" "parse failed", .number "position" reason.position,
      .text "message" reason.message]]
  | .fault _ => []

/-- What a pattern that cannot be compiled reports. -/
def PatternError.events (error : PatternError) : List Event :=
  [.note .debug [.text "message" "failed to compile pattern", .text "expr" error.expr,
    .text "error" error.source]]

namespace Parser

/-- The reply of a parser at the beginning of an input. The input need not be
read to its end. -/
def parseAll (rules : Rules) (parser : Parser) (input : String) : Option (Reply Value) :=
  parser.runAt rules input 0

/-- What a run with the given outcome reports. -/
def parseAllEvents (parser : Parser) (input : String) (outcome : Outcome Value) : List Event :=
  [.phase "parse_all" .trace
    [.text "parser" parser.name, .number "len" input.utf8ByteSize], .enter] ++
    outcome.events ++ [.exit]

/-- A parser in one line, which shows its name alone. -/
def display (parser : Parser) : String :=
  "Parser \x7b name: " ++ Text.quote parser.name ++ ", .. \x7d"

end Parser

/-- The version of the library. -/
def version : String :=
  "0.1.0"

end Peg
