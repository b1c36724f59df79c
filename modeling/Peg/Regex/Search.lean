import Peg.Regex.Program
import Peg.Regex.Switches
import Peg.Text.Offset

/-!
# Running a program

All ways through a program are followed side by side, one character at a time
and in order of preference. Between two characters each address is entered at
most once: a way that comes to an address where a preferred one has been is
given up, even if the preferred one is still being followed. A way that accepts
ends all those behind it.

## Main definitions

* `Look.holds`: whether a condition holds between two characters.
* `Frontier`, `Frontier.enter`: the addresses reached without reading.
* `Program.search`: the offset at which the preferred match ends.
* `Program.matchEnd?`: the same for a place in a text.

## Main results

* `Program.exists_append_of_matchEnd?`: a match ends between characters.
-/

namespace Peg.Regex

/-- A neighbour that is a word character. A missing one is none. -/
def isWordAt (unicode : Bool) (neighbour : Option Char) : Bool :=
  neighbour.any (wordChars unicode).contains

/-- A condition on the kinds of the two neighbours. -/
def WordEdge.holds (before after : Bool) : WordEdge → Bool
  | .boundary => before != after
  | .inside => before == after
  | .start => !before && after
  | .stop => before && !after
  | .startHalf => !before
  | .stopHalf => !after

/-- Whether a condition holds between two characters, where a missing one is an
end of the text. A carriage return with a line feed after it is one line end. -/
def Look.holds (before after : Option Char) : Look → Bool
  | .textStart => before.isNone
  | .textEnd => after.isNone
  | .lineStart => before.all (· == '\n')
  | .lineEnd => after.all (· == '\n')
  | .lineStartCrlf => before.all fun c => c == '\n' || (c == '\r' && after != some '\n')
  | .lineEndCrlf => after.all fun c => c == '\r' || (c == '\n' && before != some '\r')
  | .word edge unicode => edge.holds (isWordAt unicode before) (isWordAt unicode after)

/-- The addresses entered between two characters: all of them, and in reverse
order of preference those where a character is to be read or the program accepts. -/
structure Frontier where
  entered : List Nat
  waiting : List Nat
  deriving Repr

namespace Frontier

/-- No address entered yet. -/
def empty : Frontier :=
  ⟨[], []⟩

/-- An address is entered, unless it has been before, and so are in turn those
that can be reached from it without reading. `depth` bounds the length of such
a way, which is at most the number of addresses. -/
def enter (code : Array Inst) (before after : Option Char) :
    Nat → Frontier → Nat → Frontier
  | 0, frontier, _ => frontier
  | depth + 1, frontier, address =>
    if frontier.entered.contains address then frontier
    else
      let frontier := { frontier with entered := address :: frontier.entered }
      match code[address]? with
      | some (.fork targets) => targets.foldl (enter code before after depth) frontier
      | some (.check place) =>
        if place.holds before after then enter code before after depth frontier (address + 1)
        else frontier
      | some (.read _) | none => { frontier with waiting := address :: frontier.waiting }

/-- The addresses where ways wait that begin at some addresses, preferred ones first. -/
def ofAddresses (code : Array Inst) (before after : Option Char) (addresses : List Nat) :
    List Nat :=
  (addresses.foldl (enter code before after (code.size + 1)) empty).waiting.reverse

end Frontier

/-- The next address of a way that waits at an address, if it reads a character. -/
def Inst.next? (c : Char) (address : Nat) : Option Inst → Option Nat
  | some (.read chars) => if chars.contains c then some (address + 1) else none
  | _ => none

namespace Program

/-- The offset at which the preferred match ends, among the ways at `addresses`
between the character `before` and the rest of the text. `best` is the end of a
match that they are preferred to. -/
def search (program : Program) (before : Option Char) (offset : Nat)
    (addresses : List Nat) (best : Option Nat) : List Char → Option Nat
  | [] =>
    let waiting := Frontier.ofAddresses program.code before none addresses
    if waiting.contains program.code.size then some offset else best
  | c :: rest =>
    let waiting := Frontier.ofAddresses program.code before (some c) addresses
    let best := if waiting.contains program.code.size then some offset else best
    -- The ways behind one that accepts are given up.
    let next := (waiting.takeWhile (· != program.code.size)).filterMap fun address =>
      Inst.next? c address program.code[address]?
    if next.isEmpty then best
    else search program (some c) (offset + c.utf8Size) next best rest

/-- The offset at which the preferred match ends that begins between two parts
of a text. -/
def matchEnd? (program : Program) (before after : List Char) (offset : Nat) : Option Nat :=
  program.search before.getLast? offset [0] none after

variable {program : Program}

/-- What a search finds is the match it knew of, or ends after some of the
characters that it was given. -/
theorem search_eq_some {before : Option Char} {offset stop : Nat} {addresses : List Nat}
    {best : Option Nat} {after : List Char}
    (h : program.search before offset addresses best after = some stop) :
    best = some stop ∨ ∃ found rest, after = found ++ rest ∧ stop = offset + Text.size found := by
  induction after generalizing before offset addresses best with
  | nil =>
    simp only [search] at h
    split at h
    · exact .inr ⟨[], [], rfl, (Option.some.inj h).symm⟩
    · exact .inl h
  | cons c after ih =>
    have here (h : (if (Frontier.ofAddresses program.code before (some c) addresses).contains
        program.code.size then some offset else best) = some stop) :
        best = some stop ∨
          ∃ found rest, c :: after = found ++ rest ∧ stop = offset + Text.size found := by
      split at h
      · exact .inr ⟨[], c :: after, rfl, (Option.some.inj h).symm⟩
      · exact .inl h
    simp only [search] at h
    split at h
    · exact here h
    · obtain known | ⟨found, rest, rfl, rfl⟩ := ih h
      · exact here known
      · exact .inr ⟨c :: found, rest, rfl, by simp [Nat.add_assoc]⟩

/-- A match takes some of the characters that follow, and ends after them. -/
theorem exists_append_of_matchEnd? {before after : List Char} {offset stop : Nat}
    (h : program.matchEnd? before after offset = some stop) :
    ∃ found rest, after = found ++ rest ∧ stop = offset + Text.size found := by
  obtain known | found := search_eq_some h
  · cases known
  · exact found

end Program

end Peg.Regex
