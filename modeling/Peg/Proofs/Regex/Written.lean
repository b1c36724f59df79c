import Peg.Proofs.Regex.Bounds
import Peg.Proofs.Regex.Matches
import Peg.Proofs.Regex.NormalForm

/-!
# Expressions as they are written

An expression can be spelled out part by part, without being put into normal
form. The normal form matches what the expression as it is written matches.

## Main definitions

* `Switches.written?`, `Expr.written?`: an expression spelled out as it is written.

## Main results

* `Expr.matches_ofSet`, `Expr.matches_ofRepetition`, `Expr.matches_ofConcat`,
  `Expr.matches_ofAlternation`: what is put together matches what its parts do.
* `Expr.exists_written`: the normal form matches what is written.
-/

namespace Peg.Regex

namespace Expr

variable {p q : Place}

/-! ### What is put together -/

theorem matches_ofSet (kind : SetKind) (chars : CharSet) :
    (ofSet kind chars).Matches = (set kind chars).Matches := by
  funext p q
  unfold ofSet
  split
  · next c single => simp [Matches, CharSet.contains_iff_of_single? single]
  · split
    · next vacant => simp [never, Matches, CharSet.contains_of_isEmpty vacant]
    · rfl

theorem matches_of_isSet {item : Expr} {chars : CharSet} (h : IsSet item chars) :
    item.Matches = (set .chars chars).Matches := by
  cases h with
  | single c =>
    funext p q
    simp [Matches]
  | set => rfl

mutual

/-- No match of an expression is longer than the longest one. -/
theorem Matches.length_le {expr : Expr} {most : Nat} (bound : expr.maxLength = some most)
    {p q : Place} (h : expr.Matches p q) : ∃ found, p.Reads found q ∧ found.length ≤ most := by
  match expr with
  | .empty => exact ⟨[], Place.reads_nil_iff.2 h, Nat.zero_le most⟩
  | .literal chars =>
    obtain rfl := Option.some.inj bound
    exact ⟨chars, h, Nat.le_refl _⟩
  | .set _ chars =>
    obtain ⟨c, member, reads⟩ := h
    rw [maxLength] at bound
    split at bound
    · cases bound
    · obtain rfl := Option.some.inj bound
      exact ⟨[c], reads, Nat.le_refl 1⟩
  | .look place => exact ⟨[], Place.reads_nil_iff.2 h.2, Nat.zero_le most⟩
  | .repetition min max greedy body =>
    obtain ⟨greatest, rfl, bound⟩ := Option.bind_eq_some_iff.1 bound
    obtain ⟨length, inner, rfl⟩ := Option.map_eq_some_iff.1 bound
    obtain ⟨count, -, within, times⟩ := h
    -- No round reads more than the longest match of the body.
    have reads : ∃ found, p.Reads found q ∧ found.length ≤ length * count := by
      refine times.induction
        (motive := fun count p q => ∃ found, p.Reads found q ∧ found.length ≤ length * count) ?_ ?_
      · exact fun p => ⟨[], Place.reads_nil_iff.2 rfl, Nat.zero_le _⟩
      · intro count p r q first ⟨more, rest, short⟩
        have once : body.Matches p r := first
        obtain ⟨found, first, brief⟩ := Matches.length_le inner once
        refine ⟨found ++ more, first.trans rest, ?_⟩
        rw [List.length_append, Nat.mul_succ]
        omega
    obtain ⟨found, reads, short⟩ := reads
    have counts : count ≤ greatest := within greatest rfl
    exact ⟨found, reads, Nat.le_trans short (Nat.mul_le_mul_left length counts)⟩
  | .capture index body =>
    have inner : body.Matches p q := h
    have bound : body.maxLength = some most := bound
    exact Matches.length_le bound inner
  | .concat items =>
    have inner : AllMatch items p q := h
    exact AllMatch.length_le bound inner
  | .alternation branches =>
    have inner : AnyMatches branches p q := h
    exact AnyMatches.length_le bound inner

/-- The same for expressions one after another. -/
theorem AllMatch.length_le {items : List Expr} {most : Nat} (bound : maxLengthSum items = some most)
    {p q : Place} (h : AllMatch items p q) : ∃ found, p.Reads found q ∧ found.length ≤ most := by
  match items with
  | [] => exact ⟨[], Place.reads_nil_iff.2 h, Nat.zero_le most⟩
  | item :: items =>
    obtain ⟨length, first, bound⟩ := Option.bind_eq_some_iff.1 bound
    obtain ⟨others, rest, rfl⟩ := Option.map_eq_some_iff.1 bound
    obtain ⟨r, head, tail⟩ := h
    obtain ⟨found, head, brief⟩ := Matches.length_le first head
    obtain ⟨more, tail, short⟩ := AllMatch.length_le rest tail
    refine ⟨found ++ more, head.trans tail, ?_⟩
    rw [List.length_append]
    omega

/-- The same for branches. -/
theorem AnyMatches.length_le {branches : List Expr} {most : Nat}
    (bound : maxLengthMax branches = some most) {p q : Place} (h : AnyMatches branches p q) :
    ∃ found, p.Reads found q ∧ found.length ≤ most := by
  match branches with
  | [] => exact h.elim
  | branch :: branches =>
    obtain ⟨length, first, bound⟩ := Option.bind_eq_some_iff.1 bound
    obtain ⟨others, rest, rfl⟩ := Option.map_eq_some_iff.1 bound
    obtain head | tail := h
    · obtain ⟨found, head, brief⟩ := Matches.length_le first head
      exact ⟨found, head, Nat.le_trans brief (Nat.le_max_left length others)⟩
    · obtain ⟨found, tail, short⟩ := AnyMatches.length_le rest tail
      exact ⟨found, tail, Nat.le_trans short (Nat.le_max_right length others)⟩

end

/-- An expression whose longest match is empty stays where it is. -/
theorem Matches.still {expr : Expr} (bound : expr.maxLength = some 0) (h : expr.Matches p q) :
    p = q := by
  obtain ⟨found, reads, short⟩ := h.length_le bound
  obtain rfl := List.eq_nil_of_length_eq_zero (Nat.le_zero.1 short)
  exact Place.reads_nil_iff.1 reads

/-- A repetition whose bounds are in order matches what it does in normal form. -/
theorem matches_ofRepetition {min : Nat} {max : Option Nat}
    (inOrder : Allowed.ordered.counts min max) (greedy : Bool) (body : Expr) :
    (ofRepetition min max greedy body).Matches = (repetition min max greedy body).Matches := by
  refine ofRepetition_cases (motive := fun min max result => Allowed.ordered.counts min max →
    result.Matches = (repetition min max greedy body).Matches) greedy ?_ ?_ ?_ ?_ min max inOrder
  · intro _
    funext p q
    simp [Matches, Times]
  · intro _
    funext p q
    have once (count : Nat) : 1 ≤ count ∧ count ≤ 1 ↔ count = 1 := by omega
    simp [Matches, ← and_assoc, once, Times]
  · exact fun _ _ _ => rfl
  · intro min max result short clamped inOrder
    rw [clamped (Allowed.atMostOnce_ordered min max inOrder)]
    funext p q
    -- The body reads nothing, so that once is as good as any number of times.
    have still : ∀ p q, body.Matches p q → p = q := fun _ _ => Matches.still short
    simp only [Matches, Times.iff_of_still still, eq_iff_iff]
    constructor
    · rintro ⟨count, least, most, ⟨rfl, stays⟩ | ⟨some, once⟩⟩
      · have none : Min.min min 1 ≤ 0 := least
        exact ⟨0, by omega, fun _ _ => Nat.zero_le _, .inl ⟨rfl, stays⟩⟩
      · have atMost : count ≤ Min.min (max.getD 1) 1 := most _ rfl
        refine ⟨Max.max min 1, by omega, ?_, .inr ⟨by omega, once⟩⟩
        rintro greatest rfl
        have above : min ≤ greatest := inOrder greatest rfl
        simp only [Option.getD_some] at atMost
        omega
    · rintro ⟨count, least, most, ⟨rfl, stays⟩ | ⟨some, once⟩⟩
      · have none : Min.min min 1 ≤ 0 := by omega
        exact ⟨0, none, fun _ _ => Nat.zero_le _, .inl ⟨rfl, stays⟩⟩
      · refine ⟨1, Nat.min_le_right min 1, ?_, .inr ⟨Nat.one_pos, once⟩⟩
        rintro greatest same
        obtain rfl := Option.some.inj same
        cases max with
        | none => exact Nat.le_refl 1
        | some greatest =>
          have below : count ≤ greatest := most greatest rfl
          exact Nat.le_min.2 ⟨Nat.le_trans some below, Nat.le_refl 1⟩

theorem allMatch_parts (item : Expr) : AllMatch item.parts = item.Matches := by
  funext p q
  unfold parts
  split
  · rfl
  · rfl
  · exact propext allMatch_singleton_iff

theorem allMatch_consLiteral (item : Expr) (rest : List Expr) :
    AllMatch (consLiteral item rest) = AllMatch (item :: rest) := by
  funext p q
  unfold consLiteral
  split
  · next found more rest =>
    simp only [AllMatch, Matches, Place.reads_append_iff, eq_iff_iff]
    constructor
    · rintro ⟨s, ⟨r, first, second⟩, later⟩
      exact ⟨r, first, s, second, later⟩
    · rintro ⟨r, first, s, second, later⟩
      exact ⟨s, ⟨r, first, second⟩, later⟩
  · rfl

/-- A concatenation matches what it does in normal form. -/
theorem matches_ofConcat (items : List Expr) : (ofConcat items).Matches = AllMatch items := by
  have shape : (ofConcat items).Matches =
      AllMatch ((items.flatMap parts).foldr consLiteral []) := by
    refine ofConcat_cases (motive := fun row result => result.Matches = AllMatch row) ?_ ?_ ?_ items
    · rfl
    · exact fun item => funext fun p => funext fun q => propext allMatch_singleton_iff.symm
    · exact fun _ => rfl
  have joined (row : List Expr) : AllMatch (row.foldr consLiteral []) = AllMatch row := by
    induction row with
    | nil => rfl
    | cons item row ih =>
      rw [List.foldr_cons, allMatch_consLiteral]
      funext p q
      simp only [AllMatch, ih]
  rw [shape, joined]
  clear shape joined
  funext p q
  induction items generalizing p with
  | nil => rfl
  | cons item items ih =>
    rw [List.flatMap_cons, eq_iff_iff, allMatch_append_iff]
    simp only [allMatch_parts, ih, AllMatch]

theorem anyMatches_branches (item : Expr) : AnyMatches item.branches = item.Matches := by
  funext p q
  unfold branches
  split
  · rfl
  · simp [AnyMatches]

theorem anyMatches_flatMap_branches (items : List Expr) :
    AnyMatches (items.flatMap branches) = AnyMatches items := by
  funext p q
  simp only [anyMatches_iff, List.mem_flatMap, eq_iff_iff]
  constructor
  · rintro ⟨branch, ⟨item, member, inside⟩, found⟩
    refine ⟨item, member, ?_⟩
    rw [← anyMatches_branches, anyMatches_iff]
    exact ⟨branch, inside, found⟩
  · rintro ⟨item, member, found⟩
    rw [← anyMatches_branches, anyMatches_iff] at found
    obtain ⟨branch, inside, found⟩ := found
    exact ⟨branch, ⟨item, member, inside⟩, found⟩

/-- An alternation matches what it does in normal form. -/
theorem matches_ofAlternation (rounds : Nat) (items : List Expr) :
    (ofAlternation rounds items).Matches = AnyMatches items := by
  rw [← anyMatches_flatMap_branches]
  refine ofAlternation_induction (motive := fun items result => result.Matches = AnyMatches items)
    ?_ ?_ ?_ ?_ ?_ rounds items
  · funext p q
    simp [never, Matches, AnyMatches]
  · intro branch
    funext p q
    simp [AnyMatches]
  · intro branches sets alike
    rw [matches_ofSet]
    funext p q
    simp only [Matches, CharSet.contains_foldl_union, CharSet.contains_empty, Bool.false_or]
    induction alike with
    | nil => simp [AnyMatches]
    | cons first rest ih =>
      rw [AnyMatches, ← ih, matches_of_isSet first]
      simp [Matches, or_and_right, exists_or]
  · exact fun _ => rfl
  · intro shared tails rest some ih
    rw [anyMatches_flatMap_branches] at ih
    rw [matches_ofConcat]
    funext p q
    rw [eq_iff_iff, allMatch_append_iff]
    simp only [allMatch_singleton_iff, ih, anyMatches_iff, List.mem_map,
      exists_exists_and_eq_and, matches_ofConcat, Matches, allMatch_append_iff]
    constructor
    · rintro ⟨r, begins, tail, member, ends⟩
      exact ⟨tail, member, r, begins, ends⟩
    · rintro ⟨tail, member, r, begins, ends⟩
      exact ⟨r, begins, tail, member, ends⟩

end Expr

/-! ### What is written -/

section Congr

variable {normals written : List Expr}

theorem Expr.allMatch_congr
    (h : List.Forall₂ (fun normal written => normal.Matches = written.Matches) normals written) :
    AllMatch normals = AllMatch written := by
  induction h with
  | nil => rfl
  | cons first _ ih =>
    funext p q
    simp only [AllMatch, first, ih]

theorem Expr.anyMatches_congr
    (h : List.Forall₂ (fun normal written => normal.Matches = written.Matches) normals written) :
    AnyMatches normals = AnyMatches written := by
  induction h with
  | nil => rfl
  | cons first _ ih =>
    funext p q
    simp only [AnyMatches, first, ih]

end Congr

namespace Switches

mutual

/-- An expression under some switches, spelled out part by part as it is written,
and the switches that hold after it. -/
def written? (switches : Switches) : Syntax → Option (Expr × Switches)
  | .empty => some (.empty, switches)
  | .flags change => some (.empty, switches.change change)
  | .literal char => do return (← switches.literal? char, switches)
  | .dot => do return (.set switches.setKind (← switches.dot?), switches)
  | .anchor kind => some (.look (switches.look kind), switches)
  | .short kind negated => do
    return (.set switches.setKind (← switches.short? kind negated), switches)
  | .property name negated => do
    return (.set switches.setKind (← switches.property? name negated), switches)
  | .bracketed negated set => do
    let chars ← switches.finish? negated (← switches.classSet? set)
    return (.set switches.setKind chars, switches)
  | .repetition min max greedy body => do
    let (body, switches) ← written? switches body
    return (.repetition min max (greedy != switches.swapGreed) body, switches)
  | .group (.capturing index) body => do
    let (body, _) ← written? switches body
    return (.capture index body, switches)
  | .group (.plain change) body => do
    let (body, _) ← written? (switches.change change) body
    return (body, switches)
  | .concat items => do
    let (items, switches) ← allWritten? switches items
    return (.concat items, switches)
  | .alternation branches => do
    let (branches, switches) ← allWritten? switches branches
    return (.alternation branches, switches)

/-- Several expressions spelled out, each under the switches that hold after the one before. -/
def allWritten? (switches : Switches) : List Syntax → Option (List Expr × Switches)
  | [] => some ([], switches)
  | item :: items => do
    let (item, switches) ← written? switches item
    let (items, switches) ← allWritten? switches items
    return (item :: items, switches)

end

mutual

/-- What has a normal form can be spelled out, and the normal form matches the same. -/
theorem exists_written {switches after : Switches} {tree : Syntax} {normal : Expr}
    (inOrder : tree.Within .ordered) (h : switches.expr? tree = some (normal, after)) :
    ∃ written, switches.written? tree = some (written, after) ∧
      normal.Matches = written.Matches := by
  match tree with
  | .empty | .flags _ | .anchor _ =>
    cases h
    exact ⟨_, rfl, rfl⟩
  | .literal char =>
    obtain ⟨result, read, same⟩ := Option.bind_eq_some_iff.1 h
    cases same
    exact ⟨normal, h, rfl⟩
  | .dot | .short _ _ | .property _ _ =>
    obtain ⟨chars, read, same⟩ := Option.bind_eq_some_iff.1 h
    cases same
    exact ⟨.set _ chars, by rw [written?, read]; rfl, Expr.matches_ofSet _ chars⟩
  | .bracketed negated set =>
    obtain ⟨inside, read, next⟩ := Option.bind_eq_some_iff.1 h
    obtain ⟨chars, closed, same⟩ := Option.bind_eq_some_iff.1 next
    cases same
    refine ⟨.set _ chars, ?_, Expr.matches_ofSet _ chars⟩
    simp [written?, read, closed]
  | .repetition min max greedy body =>
    obtain ⟨⟨body, later⟩, inner, same⟩ := Option.bind_eq_some_iff.1 h
    cases same
    obtain ⟨written, spelled, alike⟩ := exists_written inOrder.2 inner
    refine ⟨.repetition min max (greedy != after.swapGreed) written, ?_, ?_⟩
    · rw [written?, spelled]
      rfl
    · rw [Expr.matches_ofRepetition inOrder.1]
      funext p q
      simp only [Expr.Matches, alike]
  | .group (.capturing index) body =>
    have inside : body.Within .ordered := inOrder
    obtain ⟨⟨body, later⟩, inner, same⟩ := Option.bind_eq_some_iff.1 h
    cases same
    obtain ⟨written, spelled, alike⟩ := exists_written inside inner
    refine ⟨.capture index written, ?_, ?_⟩
    · rw [written?, spelled]
      rfl
    · funext p q
      simp only [Expr.Matches, alike]
  | .group (.plain change) body =>
    have inside : body.Within .ordered := inOrder
    obtain ⟨⟨body, later⟩, inner, same⟩ := Option.bind_eq_some_iff.1 h
    cases same
    obtain ⟨written, spelled, alike⟩ := exists_written inside inner
    refine ⟨written, ?_, alike⟩
    rw [written?, spelled]
    rfl
  | .concat items =>
    obtain ⟨⟨items, later⟩, inner, same⟩ := Option.bind_eq_some_iff.1 h
    cases same
    obtain ⟨written, spelled, alike⟩ := exists_allWritten inOrder inner
    refine ⟨.concat written, ?_, ?_⟩
    · rw [written?, spelled]
      rfl
    · rw [Expr.matches_ofConcat, Expr.allMatch_congr alike]
      rfl
  | .alternation branches =>
    obtain ⟨⟨branches, later⟩, inner, same⟩ := Option.bind_eq_some_iff.1 h
    cases same
    obtain ⟨written, spelled, alike⟩ := exists_allWritten inOrder inner
    refine ⟨.alternation written, ?_, ?_⟩
    · rw [written?, spelled]
      rfl
    · rw [Expr.matches_ofAlternation, Expr.anyMatches_congr alike]
      rfl

/-- The same for several expressions. -/
theorem exists_allWritten {switches after : Switches} {trees : List Syntax} {normals : List Expr}
    (inOrder : Syntax.AllWithin .ordered trees)
    (h : switches.exprs? trees = some (normals, after)) :
    ∃ written, switches.allWritten? trees = some (written, after) ∧
      List.Forall₂ (fun normal written => normal.Matches = written.Matches) normals written := by
  match trees with
  | [] =>
    cases h
    exact ⟨[], rfl, .nil⟩
  | tree :: trees =>
    obtain ⟨⟨expr, middle⟩, first, next⟩ := Option.bind_eq_some_iff.1 h
    obtain ⟨⟨rest, last⟩, later, same⟩ := Option.bind_eq_some_iff.1 next
    cases same
    obtain ⟨head, spelled, alike⟩ := exists_written inOrder.1 first
    obtain ⟨others, spelledRest, alikeRest⟩ := exists_allWritten inOrder.2 later
    refine ⟨head :: others, ?_, .cons alike alikeRest⟩
    simp [allWritten?, spelled, spelledRest]

end

end Switches

/-- The expression that a text writes, spelled out as it is written. -/
def Expr.written? (text : String) : Option Expr := do
  let tree ← Syntax.parse? text
  let (expr, _) ← Switches.default.written? tree
  return expr

/-- The normal form of a text is that of its tree, under the switches that hold at first. -/
theorem Expr.exists_tree_of_parse? {text : String} {normal : Expr} (h : parse? text = some normal) :
    ∃ tree after, Syntax.parse? text = some tree ∧
      Switches.default.expr? tree = some (normal, after) := by
  obtain ⟨tree, read, h⟩ := Option.bind_eq_some_iff.1 h
  obtain ⟨⟨expr, after⟩, made, same⟩ := Option.bind_eq_some_iff.1 h
  cases same
  exact ⟨tree, after, read, made⟩

/-- The normal form of an expression matches what the expression as it is written does. -/
theorem Expr.exists_written {text : String} {normal : Expr} (h : parse? text = some normal) :
    ∃ written, written? text = some written ∧ normal.Matches = written.Matches := by
  obtain ⟨tree, after, read, normal⟩ := exists_tree_of_parse? h
  have inOrder := Syntax.within_ordered_of_parse? read
  obtain ⟨written, spelled, alike⟩ := Switches.exists_written inOrder normal
  refine ⟨written, ?_, alike⟩
  simp [written?, read, spelled]

end Peg.Regex
