import Peg.Unicode.Table

/-!
# Case folding

Simple case folding, by the Unicode standard, version 16.0, puts the characters
that differ in case alone into one orbit, of two to four characters.

## Main definitions

* `caseOrbits`: the orbits.
* `CharSet.foldCase`: a set with the orbits of all its characters.
* `CharSet.foldAsciiCase`: the same for the letters of ASCII alone.
-/

namespace Peg

namespace Unicode

/-- The orbits of `size` characters each that a row of numbers describes. The
first character of an orbit is counted from that of the orbit before, every
other one from the character before it. `orbit` holds those read so far. -/
def readOrbits (size first : Nat) (orbit : List Nat) : List Nat → List (List Nat)
  | [] => []
  | step :: steps =>
    match orbit with
    | [] => readOrbits size (first + step) [first + step] steps
    | last :: _ =>
      let longer := (last + step) :: orbit
      if longer.length < size then readOrbits size first longer steps
      else longer :: readOrbits size first [] steps

/-- The orbits of `size` characters each that a coded row describes. -/
def orbitsOfCode (size : Nat) (code : String) : List (List Nat) :=
  readOrbits size 0 [] (readNumbers 0 code.toList)

/-- The orbits of simple case folding, as code points. -/
def caseOrbits : List (List Nat) :=
  orbitsOfCode 2 "Btw1w1w1w1w1w1w1w1w1w2w1w1w1w1w1w1w2w1w1w1w1w1w1wCuw1w1w1w1w2w1w1w1w1w1w1w1w1w1w1w1w1w1w1w1w
    1w2w1w1w1w1w1w1w1IDjwDd112121212121212121212121212121212121212121212121412121312121212121212
    131212121212121212121212121212121212121212121213121213Ff1Fu11212Fq112Fp1Fp113C71Fm1Fn112Fp1F
    r1Cp1Fv1Ft112Ej1BTM91Fv1Fx1Dm1Fy1121212G2112G2312G2112G11G111212G311413Bke121212121212121312
    1212121212121216141212121212121212121212121212121212121214121212121212121218LNv113LNs1LOf1LO
    f113Bx1Bz11212121212LNj1LNg1LNiaBTFj5BTFf3BTG71BTEg1BTF84BTF81LMf1BTF55LMlcLLz5BTF75BTEimBTD
    x1BTDuFu121415Dm1Dm1Dm2D87B22B11B11B12Bs2Br1Br1HSz1w2w1w2w1w4w2w1w1w5w1w2w1w2w1w5HSjv8912121
    2121212121212121214751316C81C81C81C81C81C81C81C81C81C81C81C81C81C81C81C81w1w2w2w1w1w1w1w1w1w
    1w1w2w1w3w1w1w1w1w1w1w2w1w1w1w1wBd1412121212121212121212121212121a12121212121212121212121212
    1212121212121212121212121212f112121212121213121212121212121212121212121212121212121212121212
    121212121212121212121212121212121212121212121213Bc1Bc1Bc1Bc1Bc1Bc1Bc1Bc1Bc1Bc1Bc1Bc1Bc1Bc1Bc
    1Bc1Bc1Bc1Bc1Bc1Bc1Bc1Bc1Bc1Bc1Bc1Bc1Bc1Bc1Bc1Bc1Bc1Bc1Bc1Bc1Bc1Bc1BcDCaHTs1HTs1HTs1HTs1HTs1
    HTs1HTs1HTs1HTs1HTs1HTs1HTs1HTs1HTs1HTs1HTs1HTs1HTs1HTs1HTs1HTs1HTs1HTs1HTs1HTs1HTs1HTs1HTs1
    HTs1HTs1HTs1HTs1HTs1HTs1HTs1HTs1HTs1HTs2HTs6HTs3DFk1DFk1DFk1DFk1DFk1DFk1DFk1DFk1DFk1DFk1DFk1
    DFk1DFk1DFk1DFk1DFk1DFk1DFk1DFk1DFk1DFk1DFk1DFk1DFk1DFk1DFk1DFk1DFk1DFk1DFk1DFk1DFk1DFk1DFk1
    DFk1DFk1DFk1DFk1DFk1DFk1DFk1DFk1DFk3DFk1DFk1DFkSpBPNk1BPNk1BPNk1BPNk1BPNk1BPNk1BPNk1BPNk1BPN
    k1BPNk1BPNk1BPNk1BPNk1BPNk1BPNk1BPNk1BPNk1BPNk1BPNk1BPNk1BPNk1BPNk1BPNk1BPNk1BPNk1BPNk1BPNk1
    BPNk1BPNk1BPNk1BPNk1BPNk1BPNk1BPNk1BPNk1BPNk1BPNk1BPNk1BPNk1BPNk1BPNk1BPNk1BPNk1BPNk1BPNk1BP
    Nk1BPNk1BPNk1BPNk1BPNk1BPNk1BPNk1BPNk1BPNk1BPNk1BPNk1BPNk1BPNk1BPNk1BPNk1BPNk1BPNk1BPNk1BPNk
    1BPNk1BPNk1BPNk1BPNk1BPNk1BPNk1BPNk1BPNk1BPNk1BPNk1BPNk1BPNk1BPNk1BPNk1BPNk1BPNk181818181818
    CJ01GoBLTg4EByhBLUwD612121212121212121212121212121212121212121212121212121212121212121212121
    2121212121212121212121214121212121212121212121212121212121212121212121212121c121212121212121
    21212121212121212121212121212121212121212121212121212121212121212121212121212121281818181818
    1818981818181818b8181818181818189818181818181818981818181818c828282898181818181818189C21C21C
    e1Ce1Ce1Ce1Cs1Cs1Dk1Dk1D41D41Di1Di381818181818181898181818181818189818181818181818981829g9d8
    18f81847e9IvsBag1g1g1g1g1g1g1g1g1g1g1g1g1g1g1gk1Wrq1q1q1q1q1q1q1q1q1q1q1q1q1q1q1q1q1q1q1q1q1
    q1q1q1q1qBZ5Bc1Bc1Bc1Bc1Bc1Bc1Bc1Bc1Bc1Bc1Bc1Bc1Bc1Bc1Bc1Bc1Bc1Bc1Bc1Bc1Bc1Bc1Bc1Bc1Bc1Bc1Bc
    1Bc1Bc1Bc1Bc1Bc1Bc1Bc1Bc1Bc1Bc1Bc1Bc1Bc1Bc1Bc1Bc1Bc1Bc1Bc1Bc1BcBd17121217131b121212121212121
    212121212121212121212121212121212121212121212121212121212121212121212121212121212121912151BH
    Em1212121214121212121212121212121212121212121k121212121212121212121212121Ds12121212121214121
    2121212121212121212121212121212121212121212121212121212121b12131212121215151212Bc21212121212
    121212121bZs112121212121212151213141612121r1WSo1BD8w1w1w1w1w1w1w1w1w1w1w1w1w1w1w1w1w1w1w1w1w
    1w1w1w1w1wBHyB41B41B41B41B41B41B41B41B41B41B41B41B41B41B41B41B41B41B41B41B41B41B41B41B41B41B
    41B41B41B41B41B41B41B41B41B41B41B41B41B4DtB41B41B41B41B41B41B41B41B41B41B41B41B41B41B41B41B4
    1B41B41B41B41B41B41B41B41B41B41B41B41B41B41B41B41B41B41B4EdB31B31B31B31B31B31B31B31B31B31B32
    B31B31B31B31B31B31B31B31B31B31B31B31B31B31B32B31B31B31B31B31B31B32B31B3BX7Bs1Bs1Bs1Bs1Bs1Bs1
    Bs1Bs1Bs1Bs1Bs1Bs1Bs1Bs1Bs1Bs1Bs1Bs1Bs1Bs1Bs1Bs1Bs1Bs1Bs1Bs1Bs1Bs1Bs1Bs1Bs1Bs1Bs1Bs1Bs1Bs1Bs
    1Bs1Bs1Bs1Bs1Bs1Bs1Bs1Bs1Bs1Bs1Bs1Bs1Bs1BsEew1w1w1w1w1w1w1w1w1w1w1w1w1w1w1w1w1w1w1w1w1wDBvw1
    w1w1w1w1w1w1w1w1w1w1w1w1w1w1w1w1w1w1w1w1w1w1w1w1w1w1w1w1w1w1wXK1w1w1w1w1w1w1w1w1w1w1w1w1w1w1
    w1w1w1w1w1w1w1w1w1w1w1w1w1w1w1w1w1wBHO1y1y1y1y1y1y1y1y1y1y1y1y1y1y1y1y1y1y1y1y1y1y1y1y1y1y1y
    1y1y1y1y1y1y1y" ++
  orbitsOfCode 3 "C3wIYv8wHgCqUnwgwIViH311311311B311Llwu3wBs5wBi6wm1wBc2v13wf3wIAtCxwGQu2wGQtawGQk3wGQi9wGQcBk
    1GPoGPqBLRm1N41Bm" ++
  orbitsOfCode 4 "X9CcwHR9CbwpzDuwGQi1"

end Unicode

namespace CharSet

/-- A set together with every orbit that it meets. -/
def closeUnder (orbits : List (List Nat)) (set : CharSet) : CharSet :=
  set.union <| .ofRanges <|
    (orbits.filter fun orbit => orbit.any fun code => set.ranges.any (·.contains code)).flatMap
      fun orbit => orbit.map fun code => ⟨code, code⟩

/-- The set closed under simple case folding. -/
def foldCase (set : CharSet) : CharSet :=
  set.closeUnder Unicode.caseOrbits

/-- The set closed under the case of the letters of ASCII. -/
def foldAsciiCase (set : CharSet) : CharSet :=
  set.closeUnder <| (List.range 26).map fun letter => [0x41 + letter, 0x61 + letter]

end CharSet

end Peg
