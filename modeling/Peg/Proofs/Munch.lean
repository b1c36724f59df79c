import Peg.Regex.Search

/-!
# Repetitions of one set of characters

A greedy repetition without bound takes all characters of its set that follow,
and leaves the first character outside it. Only how a program goes round
matters: after a character it either reads the next one or accepts.

## Main results

* `Program.matchEnd?_star`: a repetition that may be empty always matches.
* `Program.matchEnd?_plus`: one that may not matches where it has a character.
-/

namespace Peg.Regex.Program

variable {program : Program} {chars : CharSet} {reading : Nat}

section Rounds

variable (reads : program.code[reading]? = some (.read chars))
  (again : ∀ before after, Frontier.ofAddresses program.code before after [reading + 1] =
    [reading, program.code.size])

include reads

theorem reading_ne_size : reading ≠ program.code.size := by
  obtain ⟨within, -⟩ := Array.getElem?_eq_some_iff.1 reads
  exact Nat.ne_of_lt within

include again

/-- From addresses that lead to an instruction that reads and to the end, a
program that comes back to both after each character takes the longest run. -/
theorem search_round {addresses : List Nat}
    (round : ∀ before after, Frontier.ofAddresses program.code before after addresses =
      [reading, program.code.size])
    (before : Option Char) (offset : Nat) (best : Option Nat) (after : List Char) :
    program.search before offset addresses best after =
      some (offset + Text.size (after.takeWhile chars.contains)) := by
  have inside := reading_ne_size reads
  induction after generalizing addresses before offset best with
  | nil => simp [search, round]
  | cons c after ih =>
    -- The way that accepts stands behind the one that reads, and ends nothing.
    by_cases member : chars.contains c
    · simp [search, round, inside, reads, Inst.next?, member, ih again, Nat.add_assoc]
    · simp [search, round, inside, reads, Inst.next?, member]

/-- From addresses that lead to the instruction alone, there has to be a character first. -/
theorem search_first {addresses : List Nat}
    (first : ∀ before after, Frontier.ofAddresses program.code before after addresses = [reading])
    (before : Option Char) (offset : Nat) (after : List Char) :
    program.search before offset addresses none after =
      if after.takeWhile chars.contains = [] then none
      else some (offset + Text.size (after.takeWhile chars.contains)) := by
  have inside := reading_ne_size reads
  cases after with
  | nil => simp [search, first, inside.symm]
  | cons c after =>
    by_cases member : chars.contains c
    · simp [search, first, inside, inside.symm, reads, Inst.next?, member,
        search_round reads again again, Nat.add_assoc]
    · simp [search, first, inside, inside.symm, reads, Inst.next?, member]

end Rounds

/-- A repetition that may be empty takes the longest run of its characters. -/
theorem matchEnd?_star (chars : CharSet) (before after : List Char) (offset : Nat) :
    (ofExpr (.repetition 0 none true (.set .chars chars))).matchEnd? before after offset =
      some (offset + Text.size (after.takeWhile chars.contains)) :=
  search_round (show _[1]? = _ from rfl) (fun _ _ => rfl) (fun _ _ => rfl) _ _ _ _

/-- A repetition that may not be empty takes the longest run of its characters,
if there is one at all. -/
theorem matchEnd?_plus (chars : CharSet) (before after : List Char) (offset : Nat) :
    (ofExpr (.repetition 1 none true (.set .chars chars))).matchEnd? before after offset =
      if after.takeWhile chars.contains = [] then none
      else some (offset + Text.size (after.takeWhile chars.contains)) :=
  search_first (show _[0]? = _ from rfl) (fun _ _ => rfl) (fun _ _ => rfl) _ _ _

end Peg.Regex.Program
