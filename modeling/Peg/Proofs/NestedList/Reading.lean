import Peg.Proofs.Munch
import Peg.Proofs.NestedList.Renders
import Peg.Proofs.Takes

/-!
# Reading nested lists

What the parsers of the grammar do at a place of a text. They take a rendering
of an item when one begins there, and otherwise fail right there.

## Main results

* `NestedList.Renders.takes`: a rendering is taken, unless a word could go on.
* `NestedList.item_reads`: an item is taken from every text, or refused where it
  should begin.
-/

namespace Peg.NestedList

variable {before after u v body w : List Char} {value : Value} {values : List Value}
  {reason : Failure}

/-! ### The parts of the grammar

None of them is a function, so sequences of them are flat. -/

theorem isFunctionFree_of_mem_element :
    ∀ item ∈ [.rule "item", ws], item.IsFunctionFree :=
  Parser.everyOf_iff.1 ⟨trivial, trivial, trivial⟩

theorem isFunctionFree_of_mem_list :
    ∀ item ∈ [.literal "[", ws, .many element, .literal "]"], item.IsFunctionFree :=
  Parser.everyOf_iff.1 ⟨trivial, trivial,
    ⟨trivial, Parser.isFunctionFree_seqAll isFunctionFree_of_mem_element⟩, trivial, trivial⟩

theorem isFunctionFree_item : item.IsFunctionFree :=
  Parser.isFunctionFree_altAll (Parser.everyOf_iff.1
    ⟨⟨trivial, trivial⟩, ⟨trivial, Parser.isFunctionFree_seqAll isFunctionFree_of_mem_list⟩,
      trivial⟩)

theorem isFunctionFree_of_mem_document :
    ∀ part ∈ [ws, item, ws, .finish], part.IsFunctionFree :=
  Parser.everyOf_iff.1 ⟨trivial, isFunctionFree_item, trivial, trivial, trivial⟩

theorem areFunctionFree_rules : rules.AreFunctionFree := by
  intro name parser found
  obtain ⟨rfl, rfl⟩ := Prod.mk.inj (List.mem_singleton.1 (Rules.mem_of_parser?_eq_some found))
  exact isFunctionFree_item

/-! ### White space and words -/

theorem ws_takes (blank : IsBlank w) (stops : after.takeWhile Unicode.isWhiteSpace = []) :
    Takes rules ws before w after (.text (String.ofList w)) := by
  have longest : (w ++ after).takeWhile Unicode.isWhiteSpace = w := by
    rw [List.takeWhile_append_of_pos blank, stops, List.append_nil]
  refine .pattern ((Regex.Program.matchEnd?_star _ _ _ _).trans ?_)
  exact congrArg (fun found => some (Text.size before + Text.size found)) longest

theorem atom_takes (word : IsWord w) (stops : after.takeWhile isWordChar = []) :
    Takes rules atom before w after (Item.atom (String.ofList w)).toValue := by
  have longest : (w ++ after).takeWhile wordCharSet.contains = w := by
    rw [funext contains_wordCharSet, List.takeWhile_append_of_pos word.2, stops, List.append_nil]
  refine .map (.pattern ((Regex.Program.matchEnd?_plus _ _ _ _).trans ?_)) rfl
  rw [longest, if_neg word.1]

theorem atom_refuses (stops : after.takeWhile isWordChar = []) :
    Refuses rules atom before after ⟨"Expected regexp: [A-Za-z0-9_]+", Text.size before⟩ := by
  refine .map (.pattern ((Regex.Program.matchEnd?_plus _ _ _ _).trans ?_))
  rw [funext contains_wordCharSet, if_pos stops]

/-! ### Items -/

/-- What is expected where no item begins. -/
def expectedItem : String :=
  "[A-Za-z0-9_]+|[→\\s*→Lazy→\\s**→]"

theorem item_eq : item = .alternate [atom, list] :=
  Parser.altAll_pair atom list

theorem name_item : item.name = expectedItem := by
  decide +kernel

theorem item_takes_atom (h : Takes rules atom before u after value) :
    Takes rules item before u after value := by
  rw [item_eq]
  exact .alternate_first h

theorem item_takes_list (stops : (u ++ after).takeWhile isWordChar = [])
    (h : Takes rules list before u after value) : Takes rules item before u after value := by
  rw [item_eq]
  exact .alternate_next (atom_refuses stops) (.alternate_first h)

theorem item_refuses (stops : after.takeWhile isWordChar = [])
    (h : Refuses rules list before after reason) :
    Refuses rules item before after (.expected expectedItem (Text.size before)) := by
  rw [← name_item, item_eq]
  exact .alternate_cons (atom_refuses stops) (.alternate_cons h .alternate_nil)

/-! ### Lists -/

theorem element_takes (h : Takes rules item before u (w ++ after) value) (blank : IsBlank w)
    (stops : after.takeWhile Unicode.isWhiteSpace = []) :
    Takes rules element before (u ++ w) after value := by
  have both : Takes rules (.sequence [.rule "item", ws]) before (u ++ w) after
      (.list [value, .text (String.ofList w)]) :=
    .sequence_cons (.rule rfl h) (.sequence_last (ws_takes blank stops))
  exact (both.seqAll (by decide) isFunctionFree_of_mem_element areFunctionFree_rules).map rfl

theorem element_refuses (h : Refuses rules item before after reason) :
    Refuses rules element before after reason := by
  have first : Refuses rules (.sequence [.rule "item", ws]) before after reason :=
    .sequence_first (.rule rfl h)
  exact (first.seqAll (by decide) isFunctionFree_of_mem_element areFunctionFree_rules).map

theorem list_takes (blank : IsBlank w)
    (stops : (body ++ ']' :: after).takeWhile Unicode.isWhiteSpace = [])
    (h : Takes rules (.many element) (before ++ '[' :: w) body (']' :: after) (.list values)) :
    Takes rules list before ('[' :: (w ++ body ++ [']'])) after (.list values) := by
  have close : Takes rules (.literal "]") (before ++ '[' :: w ++ body) [']'] after (.text "]") :=
    .literal "]"
  have inner : Takes rules (.sequence [.many element, .literal "]"]) (before ++ '[' :: w)
      (body ++ [']']) after (.list [.list values, .text "]"]) :=
    .sequence_cons h (.sequence_last close)
  have spaced : Takes rules (.sequence [ws, .many element, .literal "]"]) (before ++ ['['])
      (w ++ (body ++ [']'])) after (.list [.text (String.ofList w), .list values, .text "]"]) :=
    .sequence_cons (ws_takes blank (by simpa using stops)) (by simpa using inner)
  have whole : Takes rules (.sequence [.literal "[", ws, .many element, .literal "]"]) before
      (['['] ++ (w ++ (body ++ [']']))) after
      (.list [.text "[", .text (String.ofList w), .list values, .text "]"]) :=
    .sequence_cons (.literal "[") spaced
  rw [List.append_assoc]
  exact (whole.seqAll (by decide) isFunctionFree_of_mem_list areFunctionFree_rules).map rfl

theorem list_refuses_open (h : ∀ cs, after ≠ '[' :: cs) :
    Refuses rules list before after (.expected "[" (Text.size before)) := by
  have missing : ¬ "[".toList <+: after := by
    rintro ⟨cs, rfl⟩
    exact h cs rfl
  have first : Refuses rules (.sequence [.literal "[", ws, .many element, .literal "]"]) before
      after (.expected "[" (Text.size before)) :=
    .sequence_first (.literal missing)
  exact (first.seqAll (by decide) isFunctionFree_of_mem_list areFunctionFree_rules).map

theorem list_refuses_close (blank : IsBlank w)
    (stops : (body ++ after).takeWhile Unicode.isWhiteSpace = [])
    (h : Takes rules (.many element) (before ++ '[' :: w) body after (.list values))
    (missing : ∀ cs, after ≠ ']' :: cs) :
    ∃ reason, Refuses rules list before ('[' :: (w ++ (body ++ after))) reason := by
  have close : ¬ "]".toList <+: after := by
    rintro ⟨cs, rfl⟩
    exact missing cs rfl
  have inner : Refuses rules (.sequence [.many element, .literal "]"]) (before ++ '[' :: w)
      (body ++ after) _ :=
    .sequence_later h (.sequence_first (.literal close))
  have spaced : Refuses rules (.sequence [ws, .many element, .literal "]"]) (before ++ ['['])
      (w ++ (body ++ after)) _ :=
    .sequence_later (ws_takes blank stops) (by simpa using inner)
  have whole : Refuses rules (.sequence [.literal "[", ws, .many element, .literal "]"]) before
      (['['] ++ (w ++ (body ++ after))) _ :=
    .sequence_later (.literal "[") spaced
  exact ⟨_, (whole.seqAll (by decide) isFunctionFree_of_mem_list areFunctionFree_rules).map⟩

/-! ### Renderings are taken -/

theorem item_refuses_bracket :
    Refuses rules item before (']' :: after) (.expected expectedItem (Text.size before)) :=
  item_refuses rfl (list_refuses_open fun cs same => by cases same)

mutual

/-- The item parser takes a rendering, unless it is a word that goes on. -/
theorem Renders.takes {tree : Item} {u : List Char} (h : Renders tree u)
    (before after : List Char)
    (stops : tree.isAtom = true → after.takeWhile isWordChar = []) :
    Takes rules item before u after tree.toValue := by
  match tree with
  | .atom word =>
    obtain ⟨rfl, letters⟩ := h
    have taken : Takes rules atom before word.toList after
        (Item.atom (String.ofList word.toList)).toValue := atom_takes letters (stops rfl)
    rw [String.ofList_toList] at taken
    exact item_takes_atom taken
  | .list trees =>
    obtain ⟨blanks, body, blank, all, rfl⟩ := h
    exact item_takes_list rfl
      (list_takes blank (all.takeWhile_isWhiteSpace rfl) (all.takes _ after))

/-- The repetition inside a list takes the renderings of its elements. -/
theorem RendersAll.takes {trees : List Item} {body : List Char} (h : RendersAll trees body)
    (before after : List Char) :
    Takes rules (.many element) before body (']' :: after) (.list (Item.toValues trees)) := by
  match trees with
  | [] =>
    obtain rfl := h
    exact .many_done (element_refuses item_refuses_bracket)
  | tree :: trees =>
    obtain ⟨u, blanks, rest, first, blank, all, apart, rfl⟩ := h
    -- A word does not go on after it: there is white space, or a list, or the bracket.
    have stops : tree.isAtom = true →
        (blanks ++ (rest ++ ']' :: after)).takeWhile isWordChar = [] := by
      intro atom
      by_cases none : blanks = []
      · subst none
        have list : trees.head?.any Item.isAtom = false := by
          rw [Bool.eq_false_iff]
          exact fun next => apart atom next rfl
        exact all.takeWhile_isWordChar list rfl
      · exact blank.takeWhile_isWordChar none
    have head := element_takes (first.takes before _ stops) blank (all.takeWhile_isWhiteSpace rfl)
    refine .many_next head (fun empty => first.ne_nil (List.append_eq_nil_iff.1 empty).1) ?_
    exact all.takes _ after

end

/-! ### Every text is read -/

mutual

/-- From every text the item parser takes a rendering that does not stop inside
a word, or it fails where it is run. -/
theorem item_reads (before rest : List Char) :
    (∃ tree u after, rest = u ++ after ∧ Renders tree u ∧
      (tree.isAtom = true → after.takeWhile isWordChar = [])) ∨
    Refuses rules item before rest (.expected expectedItem (Text.size before)) := by
  obtain ⟨run, after, cut, word, stops⟩ := exists_run isWordChar rest
  by_cases none : run = []
  · -- What is no word has to be a list.
    have stops : rest.takeWhile isWordChar = [] := by rwa [cut, none]
    by_cases bracket : ∃ cs, rest = '[' :: cs
    · obtain ⟨cs, opened⟩ := bracket
      obtain ⟨w, inside, spaced, blank, ends⟩ := exists_run Unicode.isWhiteSpace cs
      obtain ⟨trees, body, after, same, all, taken⟩ :=
        elements_read (before ++ '[' :: w) inside
      rw [same] at spaced ends
      rw [opened, spaced] at stops ⊢
      by_cases close : ∃ more, after = ']' :: more
      · obtain ⟨more, rfl⟩ := close
        refine .inl ⟨.list trees, '[' :: (w ++ body ++ [']']), more, by simp, ?_, nofun⟩
        exact ⟨w, body, blank, all, rfl⟩
      · obtain ⟨reason, refused⟩ :=
          list_refuses_close blank ends taken fun more same => close ⟨more, same⟩
        exact .inr (item_refuses stops refused)
    · exact .inr (item_refuses stops (list_refuses_open fun cs same => bracket ⟨cs, same⟩))
  · refine .inl ⟨.atom (String.ofList run), run, after, cut, ?_, fun _ => stops⟩
    exact ⟨String.toList_ofList.symm, none, word⟩
  termination_by 2 * rest.length
  decreasing_by
    rw [opened, spaced, List.length_cons, List.length_append]
    omega

/-- From every text the repetition inside a list takes a row of renderings. -/
theorem elements_read (before rest : List Char) :
    ∃ trees body after, rest = body ++ after ∧ RendersAll trees body ∧
      Takes rules (.many element) before body after (.list (Item.toValues trees)) := by
  obtain ⟨tree, u, tail, cut, first, stops⟩ | refused := item_reads before rest
  · obtain ⟨w, more, spaced, blank, ends⟩ := exists_run Unicode.isWhiteSpace tail
    obtain ⟨trees, body, after, same, all, taken⟩ := elements_read (before ++ (u ++ w)) more
    rw [same] at spaced ends
    rw [spaced] at cut stops
    -- A word right after a word would have been taken as part of it.
    have apart : tree.isAtom = true → trees.head?.any Item.isAtom = true → w ≠ [] := by
      intro atom next none
      rw [none] at stops
      exact all.takeWhile_isWordChar_ne_nil next (stops atom)
    have head := element_takes (first.takes before _ stops) blank ends
    have nonempty : u ++ w ≠ [] := fun empty => first.ne_nil (List.append_eq_nil_iff.1 empty).1
    refine ⟨tree :: trees, u ++ w ++ body, after, by simp [cut], ?_, .many_next head nonempty taken⟩
    exact ⟨u, w, body, first, blank, all, apart, rfl⟩
  · exact ⟨[], [], rest, rfl, rfl, .many_done (element_refuses refused)⟩
  termination_by 2 * rest.length + 1
  decreasing_by
    · omega
    · have size := List.length_pos_iff.2 first.ne_nil
      rw [cut, spaced, List.length_append, List.length_append]
      omega

end

end Peg.NestedList
