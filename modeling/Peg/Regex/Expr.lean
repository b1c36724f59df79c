import Peg.CharSet

/-!
# Expressions in normal form

An expression without names and switches: what it may match is spelled out as
sets of characters and conditions on places. The functions that put expressions
together keep a normal form, in which neighbouring characters are one literal,
concatenations and alternations are flat, alternatives of single characters are
one set, and a prefix that all alternatives share stands before them.

Whether a set was written as one of characters or as one of bytes makes no
difference to what it matches. The two are never the same part of a prefix, though.

## Main definitions

* `Look`: a condition on the characters before and after a place.
* `SetKind`: what the members of a set were written as.
* `Expr`.
* `Expr.ofSet`, `Expr.ofRepetition`, `Expr.ofConcat`, `Expr.ofAlternation`.
* `Expr.same`: equality of expressions. Captures differ from each other by number.
-/

namespace Peg.Regex

/-- A condition on the word characters at the two sides of a place. -/
inductive WordEdge where
  | boundary
  | inside
  | start
  | stop
  | startHalf
  | stopHalf
  deriving DecidableEq, Repr

/-- A condition on the characters before and after a place. -/
inductive Look where
  | textStart
  | textEnd
  | lineStart
  | lineEnd
  | lineStartCrlf
  | lineEndCrlf
  | word (edge : WordEdge) (unicode : Bool)
  deriving DecidableEq, Repr

/-- What a set was written as: characters, or bytes, which have to be ASCII. -/
inductive SetKind where
  | chars
  | bytes
  deriving DecidableEq, Repr

/-- A regular expression in normal form. -/
inductive Expr where
  | empty
  | literal (chars : List Char)
  | set (kind : SetKind) (chars : CharSet)
  | look (place : Look)
  | repetition (min : Nat) (max : Option Nat) (greedy : Bool) (body : Expr)
  | capture (index : Nat) (body : Expr)
  | concat (items : List Expr)
  | alternation (branches : List Expr)
  deriving Repr

namespace Expr

mutual

/-- Two expressions are the same, number for number and set for set. -/
def same : Expr → Expr → Bool
  | .empty, .empty => true
  | .literal a, .literal b => a == b
  | .set kind a, .set kind' b => kind == kind' && a == b
  | .look a, .look b => a == b
  | .repetition min max greedy a, .repetition min' max' greedy' b =>
    min == min' && max == max' && greedy == greedy' && a.same b
  | .capture index a, .capture index' b => index == index' && a.same b
  | .concat a, .concat b => sameAll a b
  | .alternation a, .alternation b => sameAll a b
  | _, _ => false

/-- Two lists of expressions are the same. -/
def sameAll : List Expr → List Expr → Bool
  | [], [] => true
  | a :: as, b :: bs => a.same b && sameAll as bs
  | _, _ => false

end

mutual

/-- The number of characters in the longest match, if there is a bound and a match. -/
def maxLength : Expr → Option Nat
  | .empty | .look _ => some 0
  | .literal chars => some chars.length
  | .set _ chars => if chars.isEmpty then none else some 1
  | .repetition _ max _ body =>
    max.bind fun max => body.maxLength.map fun length => length * max
  | .capture _ body => body.maxLength
  | .concat items => maxLengthSum items
  | .alternation branches => maxLengthMax branches

/-- The longest match of several expressions one after another. -/
def maxLengthSum : List Expr → Option Nat
  | [] => some 0
  | item :: items =>
    item.maxLength.bind fun length => (maxLengthSum items).map fun rest => length + rest

/-- The longest match of any of several expressions. -/
def maxLengthMax : List Expr → Option Nat
  | [] => some 0
  | item :: items =>
    item.maxLength.bind fun length => (maxLengthMax items).map fun rest => max length rest

end

mutual

/-- The number of parts of an expression. -/
def weight : Expr → Nat
  | .repetition _ _ _ body | .capture _ body => body.weight + 1
  | .concat items | .alternation items => weightAll items + 1
  | _ => 1

/-- The number of parts of several expressions. -/
def weightAll : List Expr → Nat
  | [] => 0
  | item :: items => item.weight + weightAll items

end

/-- The expression that no text matches. -/
def never : Expr :=
  .set .bytes .empty

/-- A set of one character is that character, and a set without characters is always
the same one. -/
def ofSet (kind : SetKind) (chars : CharSet) : Expr :=
  match chars.single? with
  | some c => .literal [c]
  | none => if chars.isEmpty then never else .set kind chars

/-- A repetition. What matches only the empty text is repeated at most once;
no repetition at all is the empty expression, and a single one is the body. -/
def ofRepetition (min : Nat) (max : Option Nat) (greedy : Bool) (body : Expr) : Expr :=
  let (min, max) :=
    if body.maxLength = some 0 then (min.min 1, some ((max.getD 1).min 1)) else (min, max)
  if min = 0 ∧ max = some 0 then .empty
  else if min = 1 ∧ max = some 1 then body
  else .repetition min max greedy body

/-- The parts of an expression as a concatenation. -/
def parts : Expr → List Expr
  | .concat items => items
  | .empty => []
  | item => [item]

/-- An expression before others, joined with the first if both are literals. -/
def consLiteral : Expr → List Expr → List Expr
  | .literal a, .literal b :: rest => .literal (a ++ b) :: rest
  | item, rest => item :: rest

/-- A concatenation, flat and with neighbouring literals joined. -/
def ofConcat (items : List Expr) : Expr :=
  match (items.flatMap parts).foldr consLiteral [] with
  | [] => .empty
  | [item] => item
  | items => .concat items

/-- The branches of an expression as an alternation. -/
def branches : Expr → List Expr
  | .alternation branches => branches
  | branch => [branch]

/-- The set of a literal of one character. -/
def singleton? : Expr → Option CharSet
  | .literal [c] => some (.singleton c)
  | _ => none

/-- The characters of the set that an expression is. -/
def set? : Expr → Option CharSet
  | .set _ chars => some chars
  | _ => none

/-- The parts of a concatenation of two or more. -/
def concat? : Expr → Option (List Expr)
  | .concat items => some items
  | _ => none

/-- The longest beginning that two lists share. -/
def sharedPrefix : List Expr → List Expr → List Expr
  | a :: as, b :: bs => if a.same b then a :: sharedPrefix as bs else []
  | _, _ => []

/-- An alternation. Alternatives that are all single characters, or all sets,
are one set. A beginning that all alternatives share, where each of them is a
concatenation, is put before the alternation of what is left. `rounds` bounds
how often that is done. -/
def ofAlternation (rounds : Nat) (items : List Expr) : Expr :=
  match items.flatMap branches with
  | [] => never
  | [branch] => branch
  | first :: rest =>
    let all := first :: rest
    match (all.mapM singleton?).or (all.mapM set?) with
    | some sets => ofSet .chars (sets.foldl CharSet.union .empty)
    | none =>
      match rounds, all.mapM concat? with
      | rounds + 1, some (head :: others) =>
        let shared := others.foldl sharedPrefix head
        if shared.isEmpty then .alternation all
        else
          let left := (head :: others).map fun items => ofConcat (items.drop shared.length)
          ofConcat (shared ++ [ofAlternation rounds left])
      | _, _ => .alternation all

end Expr

end Peg.Regex
