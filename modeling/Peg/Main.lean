import Peg.NestedList

/-!
# Command line

Parses each argument as a nested list of words, or a few samples if there are
no arguments, and prints one line for each.
-/

/-- Prints the report on the arguments. -/
def main (args : List String) : IO Unit :=
  (Peg.NestedList.report args).forM IO.println
