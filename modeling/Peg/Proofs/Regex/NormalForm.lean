import Mathlib.Data.List.Forall2
import Peg.Regex.Expr

/-!
# How expressions are put together

The functions that put expressions together keep a normal form. What they build
has one of a few shapes, and whatever is to be said of what they build is said of
these shapes.

## Main results

* `Expr.eq_of_same`: expressions that are the same are equal.
* `Expr.foldl_sharedPrefix_isPrefix`: a shared beginning begins every row.
* `Expr.ofSet_cases`, `Expr.ofRepetition_cases`, `Expr.ofConcat_cases`,
  `Expr.ofAlternation_induction`: the shapes of what is built.
-/

namespace Peg.Regex.Expr

mutual

/-- Expressions that are the same are equal. -/
theorem eq_of_same {a b : Expr} (h : a.same b = true) : a = b := by
  match a, b with
  | .empty, .empty => rfl
  | .literal _, .literal _ | .look _, .look _ =>
    rw [same, beq_iff_eq] at h
    rw [h]
  | .set kind chars, .set kind' chars' =>
    simp only [same, Bool.and_eq_true, beq_iff_eq] at h
    rw [h.1, h.2]
  | .repetition min max greedy body, .repetition min' max' greedy' body' =>
    simp only [same, Bool.and_eq_true, beq_iff_eq] at h
    obtain ⟨⟨⟨rfl, rfl⟩, rfl⟩, bodies⟩ := h
    rw [eq_of_same bodies]
  | .capture index body, .capture index' body' =>
    simp only [same, Bool.and_eq_true, beq_iff_eq] at h
    obtain ⟨rfl, bodies⟩ := h
    rw [eq_of_same bodies]
  | .concat items, .concat items' =>
    rw [same] at h
    rw [eq_of_sameAll h]
  | .alternation items, .alternation items' =>
    rw [same] at h
    rw [eq_of_sameAll h]

/-- Lists of expressions that are the same are equal. -/
theorem eq_of_sameAll {as bs : List Expr} (h : sameAll as bs = true) : as = bs := by
  match as, bs with
  | [], [] => rfl
  | a :: as, b :: bs =>
    simp only [sameAll, Bool.and_eq_true] at h
    rw [eq_of_same h.1, eq_of_sameAll h.2]

end

/-! ### Shared beginnings -/

theorem sharedPrefix_isPrefix (as bs : List Expr) :
    sharedPrefix as bs <+: as ∧ sharedPrefix as bs <+: bs := by
  induction as generalizing bs with
  | nil => cases bs <;> exact ⟨List.nil_prefix, List.nil_prefix⟩
  | cons a as ih =>
    cases bs with
    | nil => exact ⟨List.nil_prefix, List.nil_prefix⟩
    | cons b bs =>
      rw [sharedPrefix]
      split
      · next equal =>
        obtain rfl := eq_of_same equal
        obtain ⟨left, right⟩ := ih bs
        exact ⟨List.prefix_cons_inj a |>.2 left, List.prefix_cons_inj a |>.2 right⟩
      · exact ⟨List.nil_prefix, List.nil_prefix⟩

/-- What a row shares with others begins the row and each of them. -/
theorem foldl_sharedPrefix_isPrefix (head : List Expr) (others : List (List Expr)) :
    ∀ row ∈ head :: others, others.foldl sharedPrefix head <+: row := by
  induction others generalizing head with
  | nil => exact List.forall_mem_singleton.2 (List.prefix_refl head)
  | cons other others ih =>
    obtain ⟨left, right⟩ := sharedPrefix_isPrefix head other
    obtain ⟨first, rest⟩ := List.forall_mem_cons.1 (ih (sharedPrefix head other))
    exact List.forall_mem_cons.2
      ⟨first.trans left, List.forall_mem_cons.2 ⟨first.trans right, rest⟩⟩

/-- Rows are what they share, each with what it has left. -/
theorem eq_map_append_of_isPrefix {shared : List Expr} {rows : List (List Expr)}
    (h : ∀ row ∈ rows, shared <+: row) :
    rows = (rows.map fun row => row.drop shared.length).map (shared ++ ·) := by
  rw [List.map_map]
  refine (List.map_id' rows).symm.trans (List.map_congr_left fun row member => ?_)
  obtain ⟨rest, rfl⟩ := h row member
  simp

/-! ### The shapes of what is built -/

theorem forall₂_of_mapM {β : Type} {view : Expr → Option β} {items : List Expr} {row : List β}
    (h : items.mapM view = some row) :
    List.Forall₂ (fun item seen => view item = some seen) items row := by
  induction items generalizing row with
  | nil =>
    cases h
    exact .nil
  | cons item items ih =>
    simp only [List.mapM_cons, Option.bind_eq_bind, Option.bind_eq_some_iff, Option.pure_def,
      Option.some.injEq] at h
    obtain ⟨seen, first, rest, later, rfl⟩ := h
    exact .cons first (ih later)

theorem eq_map_concat_of_mapM {items : List Expr} {rows : List (List Expr)}
    (h : items.mapM concat? = some rows) : items = rows.map .concat := by
  have seen := forall₂_of_mapM h
  clear h
  induction seen with
  | nil => rfl
  | @cons item row items rows first _ ih =>
    rw [ih, List.map_cons]
    match item, first with
    | .concat _, rfl => rfl

/-- A set, and an expression that matches one of its characters. -/
inductive IsSet : Expr → CharSet → Prop
  | single (c : Char) : IsSet (.literal [c]) (.singleton c)
  | set (kind : SetKind) (chars : CharSet) : IsSet (.set kind chars) chars

theorem isSet_of_singleton? {item : Expr} {chars : CharSet} (h : item.singleton? = some chars) :
    IsSet item chars := by
  unfold singleton? at h
  split at h
  · obtain rfl := Option.some.inj h
    exact .single _
  · cases h

theorem isSet_of_set? {item : Expr} {chars : CharSet} (h : item.set? = some chars) :
    IsSet item chars := by
  unfold set? at h
  split at h
  · obtain rfl := Option.some.inj h
    exact .set _ _
  · cases h

/-- A set is one character or a set. -/
theorem ofSet_cases {motive : Expr → Prop} (one : ∀ c, motive (.literal [c]))
    (several : ∀ kind chars, motive (.set kind chars)) (kind : SetKind) (chars : CharSet) :
    motive (ofSet kind chars) := by
  unfold ofSet
  split
  · exact one _
  · split
    · exact several _ _
    · exact several _ _

/-- A repetition is left out, or done once, or at most once because its body never
reads, or a repetition as it is given. -/
theorem ofRepetition_cases {motive : Nat → Option Nat → Expr → Prop} {body : Expr}
    (greedy : Bool) (none : motive 0 (some 0) .empty) (once : motive 1 (some 1) body)
    (repeated : ∀ min max, motive min max (.repetition min max greedy body))
    (still : ∀ min max result, body.maxLength = some 0 →
      motive (min.min 1) (some ((max.getD 1).min 1)) result → motive min max result)
    (min : Nat) (max : Option Nat) : motive min max (ofRepetition min max greedy body) := by
  have shape (min : Nat) (max : Option Nat) :
      motive min max (if min = 0 ∧ max = some 0 then .empty
        else if min = 1 ∧ max = some 1 then body else .repetition min max greedy body) := by
    split
    · next zero =>
      obtain ⟨rfl, rfl⟩ := zero
      exact none
    · split
      · next one =>
        obtain ⟨rfl, rfl⟩ := one
        exact once
      · exact repeated min max
  by_cases short : body.maxLength = some 0
  · have clamped := shape (min.min 1) (some ((max.getD 1).min 1))
    simpa only [ofRepetition, short, if_true] using still min max _ short clamped
  · simpa only [ofRepetition, short, if_false] using shape min max

/-- A concatenation is empty, or its only part, or several parts in a row, which are
those of its items with neighbouring literals joined. -/
theorem ofConcat_cases {motive : List Expr → Expr → Prop} (none : motive [] .empty)
    (one : ∀ item, motive [item] item) (several : ∀ items, motive items (.concat items))
    (items : List Expr) :
    motive ((items.flatMap parts).foldr consLiteral []) (ofConcat items) := by
  unfold ofConcat
  generalize (items.flatMap parts).foldr consLiteral [] = row
  match row with
  | [] => exact none
  | [item] => exact one item
  | first :: second :: rest => exact several _

/-- An alternation matches nothing, or is its only branch, or one set, or the branches
as they are, or a beginning that all branches share before an alternation of what
each of them has left. -/
theorem ofAlternation_induction {motive : List Expr → Expr → Prop} (nothing : motive [] never)
    (one : ∀ branch, motive [branch] branch)
    (sets : ∀ branches (sets : List CharSet), List.Forall₂ IsSet branches sets →
      motive branches (ofSet .chars (sets.foldl CharSet.union .empty)))
    (several : ∀ branches, motive branches (.alternation branches))
    (lifted : ∀ (shared : List Expr) (tails : List (List Expr)) (rest : Expr), tails ≠ [] →
      motive ((tails.map ofConcat).flatMap branches) rest →
        motive (tails.map fun tail => .concat (shared ++ tail)) (ofConcat (shared ++ [rest])))
    (rounds : Nat) (items : List Expr) :
    motive (items.flatMap branches) (ofAlternation rounds items) := by
  induction rounds, items using ofAlternation.induct with
  | case1 rounds items flat =>
    rw [ofAlternation.eq_def, flat]
    exact nothing
  | case2 rounds items branch flat =>
    rw [ofAlternation.eq_def, flat]
    exact one branch
  | case3 rounds items first rest more flat all found alike =>
    obtain ⟨second, rest, rfl⟩ := List.exists_cons_of_ne_nil more
    simp only [all] at alike
    rw [ofAlternation.eq_def, flat]
    simp only [alike]
    refine sets _ _ ?_
    -- The branches are single characters, or all of them are sets of characters.
    obtain singles | ⟨-, chars⟩ := Option.or_eq_some_iff.1 alike
    · exact (forall₂_of_mapM singles).imp fun _ _ => isSet_of_singleton?
    · exact (forall₂_of_mapM chars).imp fun _ _ => isSet_of_set?
  | case4 items first rest more flat all unlike rounds head others rows shared short =>
    obtain ⟨second, rest, rfl⟩ := List.exists_cons_of_ne_nil more
    simp only [all, shared] at unlike rows short
    rw [ofAlternation.eq_def, flat]
    simp only [unlike, rows, short, if_true]
    exact several _
  | case5 items first rest more flat all unlike rounds head others rows shared long left ih =>
    obtain ⟨second, rest, rfl⟩ := List.exists_cons_of_ne_nil more
    have beginning : ∀ row ∈ head :: others, shared <+: row :=
      foldl_sharedPrefix_isPrefix head others
    -- So the branches are put together of the beginning and of what each has left.
    have tails := eq_map_append_of_isPrefix beginning
    have same := eq_map_concat_of_mapM rows
    simp only [all, shared] at unlike rows long
    rw [ofAlternation.eq_def, flat]
    simp only [unlike, rows, long]
    have whole := lifted shared ((head :: others).map fun row => row.drop shared.length) _
      (List.cons_ne_nil _ _) (by rw [List.map_map]; exact ih)
    rw [← Function.comp_def, ← List.map_map, ← tails, ← same] at whole
    exact whole
  | case6 rounds items first rest more flat all unlike other =>
    obtain ⟨second, rest, rfl⟩ := List.exists_cons_of_ne_nil more
    simp only [all] at unlike other
    rw [ofAlternation.eq_def, flat]
    simp only [unlike]
    exact several _

/-! ### The beginning that branches share -/

/-- The beginning that branches share, if all of them are concatenations. -/
def sharedBeginning (branches : List Expr) : List Expr :=
  match branches.mapM concat? with
  | some (head :: others) => others.foldl sharedPrefix head
  | _ => []

/-- What an expression has left behind some of its parts. -/
def dropParts (count : Nat) (branch : Expr) : Expr :=
  ofConcat (branch.parts.drop count)

/-- Every branch of several that share a beginning is a concatenation that begins with it. -/
theorem exists_rows_of_sharedBeginning {row : List Expr} (some : sharedBeginning row ≠ []) :
    ∃ head others, row = (head :: others).map .concat ∧
      sharedBeginning row = others.foldl sharedPrefix head := by
  unfold sharedBeginning at some ⊢
  split at some
  · next head others rows =>
    exact ⟨head, others, eq_map_concat_of_mapM rows, rfl⟩
  · exact absurd rfl some

theorem mapM_concat?_map (rows : List (List Expr)) :
    (rows.map concat).mapM concat? = some rows := by
  induction rows with
  | nil => rfl
  | cons row rows ih =>
    rw [List.map_cons, List.mapM_cons, ih]
    rfl

section Alternation

variable {rounds : Nat} {items row : List Expr}

theorem ofAlternation_of_nil (flat : items.flatMap branches = []) :
    ofAlternation rounds items = never := by
  rw [ofAlternation.eq_def, flat]

theorem ofAlternation_of_singleton {branch : Expr} (flat : items.flatMap branches = [branch]) :
    ofAlternation rounds items = branch := by
  rw [ofAlternation.eq_def, flat]

theorem ofAlternation_of_sets {sets : List CharSet} (flat : items.flatMap branches = row)
    (several : 2 ≤ row.length) (alike : (row.mapM singleton?).or (row.mapM set?) = some sets) :
    ofAlternation rounds items = ofSet .chars (sets.foldl CharSet.union .empty) := by
  match row with
  | first :: second :: rest =>
    rw [ofAlternation.eq_def, flat]
    simp only [alike]

theorem ofAlternation_of_shared (flat : items.flatMap branches = row) (several : 2 ≤ row.length)
    (some : sharedBeginning row ≠ []) :
    ofAlternation (rounds + 1) items = ofConcat (sharedBeginning row ++
      [ofAlternation rounds (row.map (dropParts (sharedBeginning row).length))]) := by
  obtain ⟨head, others, rfl, shared⟩ := exists_rows_of_sharedBeginning some
  match others with
  | [] => simp at several
  | second :: others =>
    have unlike : (((head :: second :: others).map concat).mapM singleton?).or
        (((head :: second :: others).map concat).mapM set?) = none := rfl
    have rows := mapM_concat?_map (head :: second :: others)
    have long : ((second :: others).foldl sharedPrefix head).isEmpty = false := by
      rw [← shared]
      simpa using some
    rw [ofAlternation.eq_def, flat]
    simp only [List.map_cons] at unlike rows shared ⊢
    simp only [unlike, rows, long, shared, List.map_map]
    rfl

theorem ofAlternation_of_apart (flat : items.flatMap branches = row) (several : 2 ≤ row.length)
    (unlike : (row.mapM singleton?).or (row.mapM set?) = none)
    (apart : rounds = 0 ∨ sharedBeginning row = []) :
    ofAlternation rounds items = .alternation row := by
  match row with
  | first :: second :: rest =>
    rw [ofAlternation.eq_def, flat]
    simp only [unlike]
    split
    · next rounds head others rows =>
      rcases apart with zero | short
      · cases zero
      · rw [sharedBeginning, rows] at short
        simp only [short, List.isEmpty_nil, if_true]
    · rfl

end Alternation

end Peg.Regex.Expr
