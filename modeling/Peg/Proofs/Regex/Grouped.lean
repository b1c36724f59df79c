import Peg.Proofs.Regex.Bounds
import Peg.Proofs.Regex.Inside
import Peg.Proofs.Regex.Renumber

/-!
# Expressions in groups

A text that is read as an expression is read in the same way between the brackets of
a group: as the same tokens, and as the same tree, but for the numbers of its groups,
which are higher by the number of groups before it. Blanks have to count for that, or
else a comment at the end of the text would run on over the closing bracket.

## Main definitions

* `Scan.inside`, `Stack.inside`: what is remembered of a text inside of another.
* `Scan.IsSolid`, `Syntax.NeverSets`: blanks count, and a switch is never used.

## Main results

* `Scan.token?_inside`, `Scan.tokens?_inside`: one token, and all of them.
* `Stack.push?_inside`, `Stack.foldlM_inside`: what they are put together to.
* `Syntax.eq_of_parse?_alternation`, `Syntax.eq_of_parse?_star`: two groups that are
  alternatives, and a group that is repeated.
-/

namespace Peg.Regex

variable {cs rest later : List Char}

theorem Syntax.IsAtom.renumber_eq {part : Syntax} (h : part.IsAtom) (shift : Nat) :
    part.renumber shift = part := by
  cases part with
  | literal | dot | anchor | short | property | bracketed => rfl
  | empty | flags | repetition | group | concat | alternation => exact h.elim

namespace Scan

/-- What is remembered of a text, behind what is remembered of the text around it. -/
def inside (scan around : Scan) : Scan :=
  ⟨scan.verbose, scan.outer ++ around.outer, scan.names ++ around.names,
    scan.groups + around.groups⟩

/-- What is read of a text, as it is read inside of another. -/
def readInside (around : Scan) (later : List Char) (read : Token × Scan × List Char) :
    Token × Scan × List Char :=
  (read.1.renumber around.groups, read.2.1.inside around, read.2.2 ++ later)

variable {scan around : Scan} {read result : Token × Scan × List Char}

theorem capture_inside (scan around : Scan) (rest later : List Char) :
    (scan.inside around).capture (rest ++ later) =
      readInside around later (scan.capture rest) := by
  simp only [capture, readInside, Token.renumber, GroupKind.renumber, inside, enter,
    Nat.add_right_comm _ around.groups]
  rfl

theorem namedCapture_inside (h : scan.namedCapture cs = some read)
    (again : (scan.inside around).namedCapture (cs ++ later) = some result) :
    result = readInside around later read := by
  obtain ⟨after, closed, next⟩ := Option.bind_eq_some_iff.1 h
  -- The name ends inside of the text.
  have ends : cs.dropWhile (· != '>') ≠ [] := by
    intro nothing
    have whole := List.takeWhile_append_dropWhile (p := (· != '>')) (l := cs)
    rw [nothing, List.append_nil] at whole
    rw [whole, List.drop_length] at closed
    cases closed
  have name : (cs ++ later).takeWhile (· != '>') = cs.takeWhile (· != '>') := by
    rw [List.takeWhile_append, if_neg]
    intro full
    have whole := List.takeWhile_append_dropWhile (p := (· != '>')) (l := cs)
    have lengths := congrArg List.length whole
    rw [List.length_append, full] at lengths
    exact ends (List.length_eq_zero_iff.1 (by omega))
  have start : (cs.takeWhile (· != '>')).length ≤ cs.length :=
    (List.takeWhile_prefix _).length_le
  unfold namedCapture at again
  simp only [name, List.drop_append_of_le_length start, tail?_append_of_eq_some closed] at again
  obtain ⟨head, first, next⟩ := Option.bind_eq_some_iff.1 next
  obtain ⟨_, letter, next⟩ := Option.bind_eq_some_iff.1 next
  obtain ⟨_, letters, next⟩ := Option.bind_eq_some_iff.1 next
  obtain ⟨_, fresh, same⟩ := Option.bind_eq_some_iff.1 next
  cases same
  simp only [first, letter, letters, Option.bind_eq_bind, Option.bind_some] at again
  obtain ⟨_, fresh', same⟩ := Option.bind_eq_some_iff.1 again
  cases same
  exact capture_inside { scan with names := cs.takeWhile (· != '>') :: scan.names } around after
    later

theorem readOpening_inside (plain : scan.verbose = false) (h : scan.readOpening cs = some read)
    (again : (scan.inside around).readOpening (cs ++ ')' :: later) = some result) :
    result = readInside around (')' :: later) read := by
  have plain' : (scan.inside around).verbose = false := plain
  unfold readOpening at h
  rw [plain, skipBlank_false] at h
  -- No group looks around. Two marks begin a name, others are switches, and some have none.
  split at h
  iterate 4 cases h
  · next name =>
    simp only [List.cons_append, readOpening, plain', skipBlank_false] at again
    exact namedCapture_inside h again
  · next name ahead behind =>
    match name with
    | [] => cases h
    | c :: name =>
      have apart : c ≠ '=' ∧ c ≠ '!' := by
        constructor
        · rintro rfl
          exact ahead name rfl
        · rintro rfl
          exact behind name rfl
      rw [List.cons_append, List.cons_append, List.cons_append,
        readOpening_name plain' apart] at again
      exact namedCapture_inside h again
  · next change _ _ _ _ _ _ =>
    obtain ⟨⟨switches, last, rest⟩, row, next⟩ := Option.bind_eq_some_iff.1 h
    match change with
    | [] => cases row
    | c :: change =>
      have row' := readFlags_append row (')' :: later)
      rw [List.cons_append] at row'
      rw [List.cons_append, List.cons_append, readOpening_flags plain' (readFlags_head row),
        row'] at again
      simp only [Option.bind_eq_bind, Option.bind_some] at again next
      by_cases ends : last == ')'
      · rw [if_pos ends] at again next
        obtain ⟨_, some, same⟩ := Option.bind_eq_some_iff.1 next
        obtain ⟨_, -, same'⟩ := Option.bind_eq_some_iff.1 again
        cases same
        cases same'
        rw [plain']
        rfl
      · rw [if_neg ends] at again next
        cases next
        cases again
        rfl
  · next unmarked _ _ =>
    have unmarked : ∀ rest, cs ≠ '?' :: rest := by assumption
    -- The closing bracket that follows is no mark, if the text should end here.
    rw [readOpening_capture plain' (append_ne_cons (by decide) unmarked)] at again
    cases h
    cases again
    exact capture_inside scan around cs (')' :: later)

/-- A token is read inside of a group as it is elsewhere. -/
theorem token?_inside (plain : scan.verbose = false) (h : scan.token? cs = some read)
    (opened : read.1 = .closing → scan.outer ≠ [])
    (again : (scan.inside around).token? (cs ++ ')' :: later) = some result) :
    result = readInside around (')' :: later) read := by
  have plain' : (scan.inside around).verbose = false := plain
  match cs with
  | [] => cases h
  | c :: cs =>
    simp only [List.cons_append, token?, plain, plain'] at h again
    split at h
    · exact readOpening_inside plain h again
    · -- The bracket closes a group of the text, which the text around knows nothing of.
      cases h
      cases again
      obtain ⟨verbose, outer, some⟩ := List.exists_cons_of_ne_nil (opened rfl)
      simp only [readInside, Token.renumber, inside, leave, some, List.cons_append]
    · cases h
      cases again
      rfl
    · obtain ⟨⟨part, rest⟩, found, same⟩ := Option.map_eq_some_iff.1 h
      rw [readsInside_readBrackets _ _ _ later found] at again
      cases same
      cases again
      simp only [readInside, Token.renumber, (isAtom_of_readBrackets found).renumber_eq]
    iterate 3
      simp only [readLazy_inside] at again
      cases h
      cases again
      rfl
    · obtain ⟨⟨token, rest⟩, found, same⟩ := Option.map_eq_some_iff.1 h
      rw [readsInside_readBounds _ _ _ later found] at again
      cases same
      cases again
      obtain ⟨min, max, greedy, rfl, -⟩ := exists_repeats_of_readBounds found
      rfl
    · obtain ⟨⟨part, rest⟩, found, same⟩ := Option.map_eq_some_iff.1 h
      rw [readsInside_readEscape _ _ _ later found] at again
      cases same
      cases again
      simp only [readInside, Token.renumber, (isAtom_of_readEscape found).renumber_eq]
    all_goals
      cases h
      simp only at again
      cases again
      rfl

/-! ### Where blanks count -/

end Scan

/-- A token that puts a switch in a position. -/
def Token.Sets (flag : Flag) : Token → Prop
  | .flags change | .opening (.plain change) => change.find? flag ≠ none
  | _ => False

instance Token.decidableSets (flag : Flag) (token : Token) : Decidable (token.Sets flag) :=
  match token with
  | .flags change | .opening (.plain change) =>
    inferInstanceAs (Decidable (change.find? flag ≠ none))
  | .atom _ | .repeats _ _ _ | .opening (.capturing _) | .closing | .bar => .isFalse id

/-- How many groups are open after a token. -/
def Token.nesting : Token → Nat → Nat
  | .opening _, depth => depth + 1
  | .closing, depth => depth - 1
  | _, depth => depth

namespace Scan

/-- Blanks count, here and in all groups around. -/
structure IsSolid (scan : Scan) : Prop where
  here : scan.verbose = false
  around : ∀ verbose ∈ scan.outer, verbose = false

theorem isSolid_start : start.IsSolid :=
  ⟨rfl, List.forall_mem_nil _⟩

namespace Reads

variable {scan after : Scan} {token : Token}

/-- Blanks count on if no token says otherwise. -/
theorem isSolid (h : scan.Reads token after) (solid : scan.IsSolid)
    (keeps : ¬ token.Sets .verbose) : after.IsSolid := by
  obtain ⟨here, around⟩ := solid
  have outer : ∀ verbose ∈ scan.verbose :: scan.outer, verbose = false :=
    List.forall_mem_cons.2 ⟨here, around⟩
  cases h with
  | atom | repeats | bar => exact ⟨here, around⟩
  | capturing => exact ⟨here, outer⟩
  | flags change =>
    have unset : change.find? .verbose = none := not_not.1 keeps
    refine ⟨?_, around⟩
    rw [unset]
    exact here
  | plain change =>
    have unset : change.find? .verbose = none := not_not.1 keeps
    refine ⟨?_, outer⟩
    rw [enter, unset]
    exact here
  | closing =>
    unfold leave
    split
    · exact ⟨here, around⟩
    · next verbose outer same =>
      obtain ⟨first, rest⟩ := List.forall_mem_cons.1 (same ▸ around)
      exact ⟨first, rest⟩

theorem length_outer (h : scan.Reads token after) :
    after.outer.length = token.nesting scan.outer.length := by
  cases h with
  | atom | repeats | bar | flags | capturing | plain => rfl
  | closing =>
    unfold leave
    split
    · next none => rw [none]; rfl
    · next verbose outer same => rw [same]; rfl

end Reads

end Scan

theorem Stack.length_outer_of_push? {stack after : Stack} {token : Token}
    (h : stack.push? token = some after) :
    after.outer.length = token.nesting stack.outer.length := by
  cases token with
  | atom | flags | bar | opening =>
    cases h
    rfl
  | repeats =>
    obtain ⟨top, -, same⟩ := Option.bind_eq_some_iff.1 h
    cases same
    rfl
  | closing =>
    simp only [push?] at h
    split at h
    · cases h
    · next same =>
      cases h
      rw [same]
      rfl

namespace Scan

/-! ### Tokens in a group -/

/-- The tokens of a text are read inside of a group as they are elsewhere, up to the
bracket that closes the group. -/
theorem tokens?_inside {scan around : Scan} {rounds rounds' : Nat} {tokens all : List Token}
    {stack last : Stack} (h : scan.tokens? rounds cs = some tokens) (solid : scan.IsSolid)
    (keeps : ∀ token ∈ tokens, ¬ token.Sets .verbose)
    (pushed : tokens.foldlM Stack.push? stack = some last)
    (depth : stack.outer.length = scan.outer.length)
    (again : (scan.inside around).tokens? rounds' (cs ++ ')' :: later) = some all) :
    ∃ (after : Scan) (others : List Token) (left : Nat),
      all = tokens.map (Token.renumber around.groups) ++ others ∧ after.IsSolid ∧
      after.outer.length = last.outer.length ∧
      (after.inside around).tokens? left (')' :: later) = some others := by
  induction tokens generalizing scan rounds rounds' cs stack all with
  | nil =>
    rcases tokens?_eq_some h with ⟨nothing, -⟩ | ⟨_, _, _, _, _, -, -, same⟩
    · rw [solid.here, skipBlank_false] at nothing
      subst nothing
      cases pushed
      exact ⟨scan, all, rounds', rfl, solid, depth.symm, again⟩
    · cases same
  | cons token tokens ih =>
    rcases tokens?_eq_some h with ⟨-, none⟩ | ⟨fewer, _, middle, rest, _, read, others, same⟩
    · cases none
    · cases same
      rw [solid.here, skipBlank_false] at read
      obtain ⟨next, push, pushed⟩ := Option.bind_eq_some_iff.1 pushed
      obtain ⟨first, keeps⟩ := List.forall_mem_cons.1 keeps
      have reads := reads_of_token? read
      have depth' : next.outer.length = middle.outer.length := by
        rw [Stack.length_outer_of_push? push, reads.length_outer, depth]
      -- The bracket that is closed here was opened in the text.
      have opened : token = .closing → scan.outer ≠ [] := by
        rintro rfl none
        rw [none, List.length_nil, List.length_eq_zero_iff] at depth
        simp [Stack.push?, depth] at push
      have plain : (scan.inside around).verbose = false := solid.here
      rcases tokens?_eq_some again with ⟨none, -⟩ |
        ⟨fewer', token', middle', rest', more, read', others', rfl⟩
      · rw [plain, skipBlank_false] at none
        simp at none
      · rw [plain, skipBlank_false] at read'
        have agree := token?_inside solid.here read opened read'
        obtain ⟨rfl, rfl, rfl⟩ : token' = token.renumber around.groups ∧
            middle' = middle.inside around ∧ rest' = rest ++ ')' :: later := by
          simpa [readInside] using agree
        obtain ⟨after, others, left, rfl, solid, ends, onward⟩ :=
          ih others (reads.isSolid solid first) keeps pushed depth' others'
        exact ⟨after, others, left, rfl, solid, ends, onward⟩

/-- A group holds the tokens of its text. -/
theorem tokens?_group {scan : Scan} {rounds : Nat} {tokens all : List Token} {stack : Stack}
    (cut : Regex.tokens? cs = some tokens) (keeps : ∀ token ∈ tokens, ¬ token.Sets .verbose)
    (pushed : tokens.foldlM Stack.push? Stack.start = some stack) (closed : stack.outer = [])
    (solid : scan.IsSolid)
    (h : scan.tokens? rounds ('(' :: '?' :: ':' :: (cs ++ ')' :: later)) = some all) :
    ∃ (after : Scan) (others : List Token) (left : Nat),
      all = .opening (.plain []) :: tokens.map (Token.renumber scan.groups) ++ .closing :: others ∧
        after.IsSolid ∧ after.tokens? left later = some others := by
  have plain := solid.here
  -- Behind the opening bracket the text is read inside of what was read before it.
  have opening (rest : List Char) : scan.token? ('(' :: '?' :: ':' :: rest) =
      some (.opening (.plain []), start.inside (scan.enter []), rest) := by
    have begins : scan.enter [] = start.inside (scan.enter []) := by
      simp [inside, enter, start, plain, FlagChange.find?]
    rw [← begins, token?, readOpening_flags plain (by decide)]
    rfl
  rcases tokens?_eq_some h with ⟨none, -⟩ | ⟨fewer, token, middle, rest, more, read, others, rfl⟩
  · rw [plain, skipBlank_false] at none
    cases none
  · rw [plain, skipBlank_false, opening] at read
    cases read
    obtain ⟨after, last, left, rfl, solid', ends, onward⟩ :=
      tokens?_inside cut isSolid_start keeps pushed rfl others
    have nothing : after.outer = [] := by
      rw [closed] at ends
      exact List.length_eq_zero_iff.1 ends
    rcases tokens?_eq_some onward with ⟨none, -⟩ |
      ⟨fewer', token, middle, rest, more, read, others', rfl⟩
    · rw [show (after.inside (scan.enter [])).verbose = false from solid'.here] at none
      cases none
    · rw [show (after.inside (scan.enter [])).verbose = false from solid'.here] at read
      cases read
      refine ⟨_, more, fewer', rfl, ?_, others'⟩
      rw [inside, nothing]
      exact ⟨plain, solid.around⟩

/-- A character that is a token of its own. -/
theorem exists_tokens?_of_single {scan : Scan} {rounds : Nat} {c : Char} {token : Token}
    {all : List Token} (single : ∀ scan : Scan, scan.token? (c :: cs) = some (token, scan, cs))
    (solid : scan.IsSolid) (h : scan.tokens? rounds (c :: cs) = some all) :
    ∃ (left : Nat) (others : List Token),
      all = token :: others ∧ scan.tokens? left cs = some others := by
  rcases tokens?_eq_some h with ⟨none, -⟩ | ⟨fewer, token, middle, rest, more, read, others, rfl⟩
  · rw [solid.here, skipBlank_false] at none
    cases none
  · rw [solid.here, skipBlank_false, single] at read
    cases read
    exact ⟨fewer, more, rfl, others⟩

end Scan

/-! ### Trees in a group -/

namespace Syntax

variable {shift : Nat}

theorem renumber_ofItems (items : List Syntax) :
    (ofItems items).renumber shift = ofItems (items.map (renumber shift)) := by
  match items with
  | [] => rfl
  | [item] => rfl
  | first :: second :: rest => simp [ofItems, renumber, renumberAll_eq_map]

end Syntax

/-- Every number of a group is raised. -/
def Level.renumber (shift : Nat) (level : Level) : Level :=
  ⟨level.branches.map (Syntax.renumber shift), level.items.map (Syntax.renumber shift)⟩

namespace Level

theorem endBranch_renumber (shift : Nat) (level : Level) :
    (level.renumber shift).endBranch = level.endBranch.renumber shift := by
  simp [renumber, endBranch, Syntax.renumber_ofItems]

theorem body_renumber (shift : Nat) (level : Level) :
    (level.renumber shift).body = level.body.renumber shift := by
  have ends := endBranch_renumber shift level
  unfold body
  cases none : level.branches with
  | nil => simp [renumber, none, Syntax.renumber_ofItems]
  | cons branch branches =>
    simp only [ends]
    simp [renumber, none, Syntax.renumber, Syntax.renumberAll_eq_map]

theorem repeat?_renumber {shift : Nat} {level later : Level} {min : Nat} {max : Option Nat}
    {greedy : Bool} (h : level.repeat? min max greedy = some later) :
    (level.renumber shift).repeat? min max greedy = some (later.renumber shift) := by
  obtain ⟨branches, items⟩ := level
  unfold repeat? at h
  split at h
  · cases h
  · cases h
  · cases h
  · next item items flags empty same =>
    cases h
    obtain rfl : _ = item :: items := same
    cases item <;> simp_all [repeat?, renumber, Syntax.renumber]

end Level

/-- What is put together of a text, inside of what is put together of the text around it. -/
def Stack.inside (stack : Stack) (shift : Nat) (around : List (GroupKind × Level)) : Stack :=
  ⟨stack.top.renumber shift, stack.outer.map (fun (kind, level) =>
    (kind.renumber shift, level.renumber shift)) ++ around⟩

namespace Stack

variable {stack later : Stack} {shift : Nat} {around : List (GroupKind × Level)}

theorem push?_inside {token : Token} (h : stack.push? token = some later) :
    (stack.inside shift around).push? (token.renumber shift) =
      some (later.inside shift around) := by
  cases token with
  | atom | flags | opening =>
    cases h
    rfl
  | bar =>
    cases h
    simp only [Token.renumber, push?, inside, Level.endBranch_renumber]
  | repeats =>
    obtain ⟨top, repeats, same⟩ := Option.bind_eq_some_iff.1 h
    cases same
    simp [Token.renumber, push?, inside, Level.repeat?_renumber repeats]
  | closing =>
    simp only [push?] at h
    split at h
    · cases h
    · next kind level outer same =>
      cases h
      have body := Level.body_renumber shift stack.top
      simp only [Level.renumber] at body
      simp [Token.renumber, push?, inside, same, body, Level.add, Level.renumber, Syntax.renumber]

theorem foldlM_inside {tokens : List Token} (h : tokens.foldlM push? stack = some later) :
    (tokens.map (Token.renumber shift)).foldlM push? (stack.inside shift around) =
      some (later.inside shift around) := by
  induction tokens generalizing stack with
  | nil =>
    cases h
    rfl
  | cons token tokens ih =>
    obtain ⟨next, push, others⟩ := Option.bind_eq_some_iff.1 h
    rw [List.map_cons, List.foldlM_cons, push?_inside push]
    exact ih others

/-- The tokens of a group add what is in the group as one part. -/
theorem foldlM_group {tokens : List Token} {kind : GroupKind}
    (h : tokens.foldlM push? start = some later) (closed : later.outer = []) (level : Level)
    (others : List Token) :
    (.opening kind :: tokens.map (Token.renumber shift) ++ .closing :: others).foldlM push?
        ⟨level, around⟩ =
      others.foldlM push? ⟨level.add (.group kind (later.top.body.renumber shift)), around⟩ := by
  have inner : (tokens.map (Token.renumber shift)).foldlM push?
      ⟨.empty, (kind, level) :: around⟩ =
        some ⟨later.top.renumber shift, (kind, level) :: around⟩ := by
    have pushed : (tokens.map (Token.renumber shift)).foldlM push?
        (start.inside shift ((kind, level) :: around)) = _ := foldlM_inside h
    refine pushed.trans ?_
    rw [inside, closed]
    rfl
  have opened : push? ⟨level, around⟩ (.opening kind) = some ⟨.empty, (kind, level) :: around⟩ :=
    rfl
  rw [List.cons_append, List.foldlM_cons, opened]
  simp only [Option.bind_eq_bind, Option.bind_some, List.foldlM_append, inner, List.foldlM_cons,
    push?, Level.body_renumber]

end Stack

namespace Syntax

variable {first second whole : String} {one two tree : Syntax}

/-- No token of a text puts a switch in a position. -/
def NeverSets (flag : Flag) (text : String) : Prop :=
  ∀ tokens, tokens? text.toList = some tokens → ∀ token ∈ tokens, ¬ token.Sets flag

instance decidableNeverSets (flag : Flag) (text : String) : Decidable (NeverSets flag text) :=
  inferInstanceAs (Decidable (∀ tokens ∈ tokens? text.toList, ∀ token ∈ tokens, ¬ token.Sets flag))

/-- Two expressions in groups are the branches of an alternation. -/
theorem eq_of_parse?_alternation (left : parse? first = some one) (right : parse? second = some two)
    (keeps : NeverSets .verbose first) (keeps' : NeverSets .verbose second)
    (h : parse? ("(?:" ++ first ++ ")|(?:" ++ second ++ ")") = some tree) :
    ∃ shift shift', tree = .alternation
      [.group (.plain []) (one.renumber shift), .group (.plain []) (two.renumber shift')] := by
  obtain ⟨tokens, stack, cut, pushed, closed, rfl⟩ := exists_stack_of_parse? left
  obtain ⟨tokens', stack', cut', pushed', closed', rfl⟩ := exists_stack_of_parse? right
  obtain ⟨all, last, cuts, pushes, -, rfl⟩ := exists_stack_of_parse? h
  have text : ("(?:" ++ first ++ ")|(?:" ++ second ++ ")").toList = '(' :: '?' :: ':' ::
      (first.toList ++ ')' :: '|' :: '(' :: '?' :: ':' :: (second.toList ++ [')'])) := by
    simp
  rw [Regex.tokens?, text] at cuts
  obtain ⟨middle, others, left, rfl, solid, behind⟩ :=
    Scan.tokens?_group cut (keeps tokens cut) pushed closed Scan.isSolid_start cuts
  obtain ⟨left, others, rfl, next⟩ :=
    Scan.exists_tokens?_of_single (fun _ => rfl) solid behind
  obtain ⟨_, others, left, rfl, -, nothing⟩ :=
    Scan.tokens?_group cut' (keeps' tokens' cut') pushed' closed' solid next
  rw [Scan.tokens?_nil] at nothing
  cases nothing
  have bar (level : Level) : Stack.push? ⟨level, []⟩ .bar = some ⟨level.endBranch, []⟩ := rfl
  rw [Stack.start, Stack.foldlM_group pushed closed, List.foldlM_cons, bar, Option.bind_eq_bind,
    Option.bind_some, Stack.foldlM_group pushed' closed', List.foldlM_nil] at pushes
  cases pushes
  exact ⟨_, _, rfl⟩

/-- A repetition mark behind a group repeats the group. -/
theorem eq_of_parse?_star (inner : parse? first = some one) (keeps : NeverSets .verbose first)
    (h : parse? ("(?:" ++ first ++ ")*") = some tree) :
    ∃ shift, tree = .repetition 0 none true (.group (.plain []) (one.renumber shift)) := by
  obtain ⟨tokens, stack, cut, pushed, closed, rfl⟩ := exists_stack_of_parse? inner
  obtain ⟨all, last, cuts, pushes, -, rfl⟩ := exists_stack_of_parse? h
  have text : ("(?:" ++ first ++ ")*").toList =
      '(' :: '?' :: ':' :: (first.toList ++ ')' :: ['*']) := by
    simp
  rw [Regex.tokens?, text] at cuts
  obtain ⟨middle, others, left, rfl, solid, behind⟩ :=
    Scan.tokens?_group cut (keeps tokens cut) pushed closed Scan.isSolid_start cuts
  obtain ⟨left, others, rfl, nothing⟩ :=
    Scan.exists_tokens?_of_single (fun _ => rfl) solid behind
  rw [Scan.tokens?_nil] at nothing
  cases nothing
  rw [Stack.start, Stack.foldlM_group pushed closed, List.foldlM_cons] at pushes
  cases pushes
  exact ⟨_, rfl⟩

end Syntax

end Peg.Regex
