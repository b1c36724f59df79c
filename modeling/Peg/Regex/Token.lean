import Peg.Regex.Brackets

/-!
# Tokens of a regular expression

An expression is cut into atoms, repetitions, brackets of groups, bars and
switches. Which blanks count depends on the switch `x`, so the reader keeps the
setting of every group that is open.

## Main definitions

* `Token`.
* `Scan`: what the reader remembers between tokens.
* `Scan.token?`: the next token.
* `tokens?`: all tokens of an expression.

## Main results

* `Scan.tokens?_succ`, `Scan.tokens?_eq_some`: one token is read after another.
-/

namespace Peg.Regex

/-- A part of an expression that is read in one go. -/
inductive Token where
  | atom (part : Syntax)
  | repeats (min : Nat) (max : Option Nat) (greedy : Bool)
  | flags (change : FlagChange)
  | opening (kind : GroupKind)
  | closing
  | bar
  deriving Repr

/-- What the reader remembers: whether blanks are skipped, here and around each
open group, the names of the groups so far, and their number. -/
structure Scan where
  verbose : Bool
  outer : List Bool
  names : List (List Char)
  groups : Nat
  deriving Repr

namespace Scan

/-- Nothing read yet. -/
def start : Scan :=
  ⟨false, [], [], 0⟩

/-- A new group begins, with the switches that it sets for itself. -/
def enter (scan : Scan) (change : FlagChange) : Scan :=
  { scan with
    verbose := (change.find? .verbose).getD scan.verbose
    outer := scan.verbose :: scan.outer }

/-- A group ends. -/
def leave (scan : Scan) : Scan :=
  match scan.outer with
  | [] => scan
  | verbose :: outer => { scan with verbose, outer }

/-- A capturing group begins. -/
def capture (scan : Scan) (rest : List Char) : Token × Scan × List Char :=
  (.opening (.capturing (scan.groups + 1)), { scan.enter [] with groups := scan.groups + 1 }, rest)

/-- A capturing group begins with its name. Names are not given twice. -/
def namedCapture (scan : Scan) (cs : List Char) : Option (Token × Scan × List Char) := do
  let name := cs.takeWhile (· != '>')
  let rest ← (cs.drop name.length).tail?
  let head ← name.head?
  guard (head == '_' || Unicode.isAlphabetic head)
  guard (name.tail.all fun c => "_.[]".toList.contains c || Unicode.isAlphanumeric c)
  guard (!scan.names.contains name)
  return { scan with names := name :: scan.names }.capture rest

/-- The switches up to the colon or the bracket that ends them, which is given
too. A hyphen turns off those after it; it stands once and not at the end. No
switch stands twice. -/
def readFlags (on hyphen : Bool) (change : FlagChange) :
    List Char → Option (FlagChange × Char × List Char)
  | [] => none
  | c :: cs =>
    if c == ':' || c == ')' then
      if hyphen then none else some (change.reverse, c, cs)
    else if c == '-' then
      if on then readFlags false true change cs else none
    else
      match Flag.ofChar? c with
      | none => none
      | some flag =>
        if change.any (·.1 = flag) then none
        else readFlags on false ((flag, on) :: change) cs

/-- What an opening bracket begins: a group, or switches for the rest of the
group around it. -/
def readOpening (scan : Scan) (cs : List Char) : Option (Token × Scan × List Char) :=
  match skipBlank scan.verbose cs with
  -- Looking ahead or behind by an expression is not supported.
  | '?' :: '=' :: _ | '?' :: '!' :: _ | '?' :: '<' :: '=' :: _ | '?' :: '<' :: '!' :: _ => none
  | '?' :: 'P' :: '<' :: rest | '?' :: '<' :: rest => scan.namedCapture rest
  | '?' :: rest => do
    let (change, last, rest) ← readFlags true false [] rest
    if last == ')' then
      -- A question mark alone would be a repetition of nothing.
      guard (!change.isEmpty)
      let verbose := (change.find? .verbose).getD scan.verbose
      return (.flags change, { scan with verbose }, rest)
    else return (.opening (.plain change), scan.enter change, rest)
  | rest => some (scan.capture rest)

/-- A question mark right after a repetition makes it lazy. -/
def readLazy : List Char → Bool × List Char
  | '?' :: rest => (false, rest)
  | rest => (true, rest)

/-- A repetition with bounds, given the characters after its opening brace. -/
def readBounds (verbose : Bool) (cs : List Char) : Option (Token × List Char) := do
  let (min, rest) ← readDecimal verbose (skipBlank verbose cs)
  let (max, rest) ←
    match rest with
    | ',' :: rest =>
      match skipBlank verbose rest with
      | '\x7d' :: rest => some (none, '\x7d' :: rest)
      | rest => (readDecimal verbose rest).map fun (max, rest) => (some max, rest)
    | rest => some (some min, rest)
  match rest with
  | '\x7d' :: rest =>
    let (greedy, rest) := readLazy (skipBlank verbose rest)
    guard (max.all (min ≤ ·))
    return (.repeats min max greedy, rest)
  | _ => none

/-- The next token of an expression that does not begin with a blank. -/
def token? (scan : Scan) : List Char → Option (Token × Scan × List Char)
  | [] => none
  | c :: cs =>
    let atom := fun (part, rest) => (Token.atom part, scan, rest)
    let repeats := fun (min : Nat) (max : Option Nat) =>
      let (greedy, rest) := readLazy cs
      some (Token.repeats min max greedy, scan, rest)
    match c with
    | '(' => scan.readOpening cs
    | ')' => some (.closing, scan.leave, cs)
    | '|' => some (.bar, scan, cs)
    | '[' => (readBrackets scan.verbose cs).map atom
    | '?' => repeats 0 (some 1)
    | '*' => repeats 0 none
    | '+' => repeats 1 none
    | '\x7b' => (readBounds scan.verbose cs).map fun (token, rest) => (token, scan, rest)
    | '\\' => (readEscape scan.verbose cs).map atom
    | '.' => some (atom (.dot, cs))
    | '^' => some (atom (.anchor .caret, cs))
    | '$' => some (atom (.anchor .dollar, cs))
    | c => some (atom (verbatim c, cs))

/-- All tokens from here on. Each takes at least one character, and `rounds`
bounds their number. -/
def tokens? (scan : Scan) (rounds : Nat) (cs : List Char) : Option (List Token) :=
  match rounds, skipBlank scan.verbose cs with
  | _, [] => some []
  | 0, _ :: _ => none
  | rounds + 1, start@(_ :: _) => do
    let (token, scan, rest) ← scan.token? start
    let more ← scan.tokens? rounds rest
    return token :: more

@[simp]
theorem tokens?_nil (scan : Scan) (rounds : Nat) : scan.tokens? rounds [] = some [] := by
  have blank : skipBlank scan.verbose [] = [] := by
    cases verbose : scan.verbose <;> rfl
  rw [tokens?.eq_def, blank]

/-- A token that is read is followed by the tokens of what is left. -/
theorem tokens?_succ {scan later : Scan} {c : Char} {cs start rest : List Char} {token : Token}
    (solid : skipBlank scan.verbose start = c :: cs)
    (read : scan.token? (c :: cs) = some (token, later, rest)) (rounds : Nat) :
    scan.tokens? (rounds + 1) start = (later.tokens? rounds rest).map (token :: ·) := by
  rw [tokens?.eq_def]
  simp only [solid, read, Option.bind_eq_bind, Option.bind_some]
  cases later.tokens? rounds rest <;> rfl

/-- The tokens are none, where nothing but blanks is left, or one token and those after it. -/
theorem tokens?_eq_some {scan : Scan} {rounds : Nat} {cs : List Char} {tokens : List Token}
    (h : scan.tokens? rounds cs = some tokens) :
    skipBlank scan.verbose cs = [] ∧ tokens = [] ∨
      ∃ fewer token later rest more, scan.token? (skipBlank scan.verbose cs) =
        some (token, later, rest) ∧ later.tokens? fewer rest = some more ∧
          tokens = token :: more := by
  rw [tokens?.eq_def] at h
  generalize skipBlank scan.verbose cs = start at h ⊢
  match start, rounds with
  | [], _ =>
    cases h
    exact .inl ⟨rfl, rfl⟩
  | _ :: _, 0 => cases h
  | _ :: _, rounds + 1 =>
    obtain ⟨⟨token, later, rest⟩, read, next⟩ := Option.bind_eq_some_iff.1 h
    obtain ⟨more, others, same⟩ := Option.bind_eq_some_iff.1 next
    cases same
    exact .inr ⟨rounds, token, later, rest, more, read, others, rfl⟩

end Scan

/-- The tokens of an expression. -/
def tokens? (cs : List Char) : Option (List Token) :=
  Scan.start.tokens? cs.length cs

end Peg.Regex
