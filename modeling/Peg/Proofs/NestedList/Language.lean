import Peg.Proofs.NestedList.Reading

/-!
# The language of nested lists

Reading a whole text succeeds exactly on the texts that write an item, and gives
that item. Every other text fails in one of two ways: after the white space at
its beginning, when no item begins there, or after the longest item there and
the white space that follows.

## Main definitions

* `NestedList.IsLongest`: the longest of the prefixes of a text with a property.
* `NestedList.Verdict`: what the language says about a text.

## Main results

* `NestedList.Renders.isLongest`, `NestedList.IsLongest.exists_renders`: the longest
  rendering in a text is one that does not stop inside a word.
* `NestedList.exists_verdict`: there is a verdict on every text.
* `NestedList.parseAll_document`: the document parser gives the verdict.
-/

namespace Peg

theorem Takes.parseAll {rules : Rules} {parser : Parser} {s : String} {value : Value}
    (h : Takes rules parser [] s.toList [] value) :
    ∃ calls, parser.parseAll rules s = some ⟨.success ⟨value, 0, s.utf8ByteSize⟩, calls⟩ := by
  obtain ⟨calls, run⟩ := h s (by simp)
  rw [Text.size_toList, Text.size_nil, Nat.zero_add] at run
  exact ⟨calls, run.runAt_eq⟩

theorem Refuses.parseAll {rules : Rules} {parser : Parser} {s : String} {reason : Failure}
    (h : Refuses rules parser [] s.toList reason) :
    ∃ calls, parser.parseAll rules s = some ⟨.failure reason, calls⟩ := by
  obtain ⟨calls, run⟩ := h s rfl
  exact ⟨calls, run.runAt_eq⟩

namespace NestedList

variable {tree tree' : Item} {cs u v w w' found other after rest : List Char} {reason : Failure}

/-! ### Longest prefixes -/

/-- The longest of the prefixes of a text with a property. -/
structure IsLongest (good : List Char → Prop) (cs found : List Char) : Prop where
  isPrefix : found <+: cs
  isGood : good found
  longest : ∀ other, other <+: cs → good other → other.length ≤ found.length

theorem IsLongest.unique {good : List Char → Prop} (h : IsLongest good cs found)
    (h' : IsLongest good cs other) : found = other := by
  have le := h'.longest found h.isPrefix h.isGood
  have ge := h.longest other h'.isPrefix h'.isGood
  exact (List.prefix_of_prefix_length_le h.isPrefix h'.isPrefix le).eq_of_length (by omega)

/-- White space up to a character of another kind is the longest run. -/
theorem IsBlank.isLongest (h : IsBlank w) (stops : rest.takeWhile Unicode.isWhiteSpace = []) :
    IsLongest IsBlank (w ++ rest) w where
  isPrefix := List.prefix_append _ _
  isGood := h
  longest := by
    rintro other ⟨tail, same⟩ blank
    have runs := congrArg (List.takeWhile Unicode.isWhiteSpace) same
    rw [List.takeWhile_append_of_pos blank, List.takeWhile_append_of_pos h, stops] at runs
    have lengths := congrArg List.length runs
    simp only [List.length_append, List.length_nil] at lengths
    omega

/-- After the longest run of white space there is a character of another kind. -/
theorem IsLongest.takeWhile_isWhiteSpace (h : IsLongest IsBlank (w ++ rest) w) :
    rest.takeWhile Unicode.isWhiteSpace = [] := by
  obtain ⟨run, more, cut, blank, stops⟩ := exists_run Unicode.isWhiteSpace (w ++ rest)
  rw [cut] at h
  obtain rfl := h.unique (IsBlank.isLongest blank stops)
  rwa [List.append_cancel_left cut]

/-- Some item is rendered. -/
def IsItem (u : List Char) : Prop :=
  ∃ tree, Renders tree u

/-- A rendering goes on with the rest of a word, if there is one, to a rendering
that does not stop inside a word. -/
theorem Renders.extend (h : Renders tree u) (rest : List Char) :
    ∃ tree' v after, rest = v ++ after ∧ Renders tree' (u ++ v) ∧
      (tree'.isAtom = true → after.takeWhile isWordChar = []) := by
  cases tree with
  | atom word =>
    obtain ⟨-, nonempty, all⟩ := h
    obtain ⟨v, after, cut, more, stops⟩ := exists_run isWordChar rest
    refine ⟨.atom (String.ofList (u ++ v)), v, after, cut, ?_, fun _ => stops⟩
    refine ⟨String.toList_ofList.symm, fun empty => nonempty (List.append_eq_nil_iff.1 empty).1, ?_⟩
    exact List.forall_mem_append.2 ⟨all, more⟩
  | list trees =>
    refine ⟨.list trees, [], rest, rfl, by rwa [List.append_nil], ?_⟩
    intro atom
    cases atom

/-- A rendering that does not stop inside a word is the longest there. -/
theorem Renders.isLongest (h : Renders tree u)
    (stops : tree.isAtom = true → after.takeWhile isWordChar = []) :
    IsLongest IsItem (u ++ after) u where
  isPrefix := List.prefix_append _ _
  isGood := ⟨tree, h⟩
  longest := by
    rintro other ⟨tail, same⟩ ⟨tree', h'⟩
    -- The other rendering goes on to one that is taken, which is this one.
    obtain ⟨tree', v, rest, rfl, h', stops'⟩ := h'.extend tail
    have taken := h.takes [] after stops
    have taken' := h'.takes [] rest stops'
    obtain ⟨rfl, -⟩ := taken.unique taken' (by rw [List.append_assoc, same])
    rw [List.length_append]
    exact Nat.le_add_right _ _

/-- Where the item parser fails no rendering begins. -/
theorem Refuses.not_renders (h : Refuses rules item w rest reason) (h' : u <+: rest) :
    ¬ Renders tree u := by
  obtain ⟨tail, rfl⟩ := h'
  intro renders
  obtain ⟨tree', v, after, rfl, renders, stops⟩ := renders.extend tail
  rw [← List.append_assoc] at h
  exact (renders.takes w after stops).not_refuses h

/-- The longest rendering does not stop inside a word. -/
theorem IsLongest.exists_renders (h : IsLongest IsItem (u ++ after) u) :
    ∃ tree, Renders tree u ∧ (tree.isAtom = true → after.takeWhile isWordChar = []) := by
  obtain ⟨tree, v, rest, cut, renders, stops⟩ | refused := item_reads [] (u ++ after)
  · rw [cut] at h
    obtain rfl := h.unique (renders.isLongest stops)
    obtain rfl := List.append_cancel_left cut
    exact ⟨tree, renders, stops⟩
  · obtain ⟨tree, renders⟩ := h.isGood
    exact absurd renders (Refuses.not_renders refused (List.prefix_append _ _))

/-! ### Whole texts -/

theorem document_takes (blank : IsBlank w) (renders : Renders tree u) (blank' : IsBlank w') :
    Takes rules document [] (w ++ u ++ w') [] tree.toValue := by
  have stops : tree.isAtom = true → (w' ++ []).takeWhile isWordChar = [] := by
    intro _
    by_cases none : w' = []
    · rw [none]
      rfl
    · exact blank'.takeWhile_isWordChar none
  have ending : Takes rules (.sequence [ws, .finish]) (w ++ u) w' []
      (.list [.text (String.ofList w'), .unit]) := by
    have space : Takes rules ws (w ++ u) w' ([] ++ []) (.text (String.ofList w')) :=
      ws_takes blank' rfl
    have both := Takes.sequence_cons space (.sequence_last .finish)
    rwa [List.append_nil] at both
  have inner : Takes rules (.sequence [item, ws, .finish]) w (u ++ w') []
      (.list [tree.toValue, .text (String.ofList w'), .unit]) :=
    .sequence_cons (renders.takes w _ stops) ending
  have whole : Takes rules (.sequence [ws, item, ws, .finish]) [] (w ++ (u ++ w')) []
      (.list [.text (String.ofList w), tree.toValue, .text (String.ofList w'), .unit]) :=
    .sequence_cons (ws_takes blank (by simpa using renders.takeWhile_isWhiteSpace)) inner
  rw [List.append_assoc]
  exact (whole.seqAll (by decide) isFunctionFree_of_mem_document areFunctionFree_rules).map rfl

theorem document_refuses_item (blank : IsBlank w)
    (ends : rest.takeWhile Unicode.isWhiteSpace = []) (refused : Refuses rules item w rest reason) :
    Refuses rules document [] (w ++ rest) reason := by
  have whole : Refuses rules (.sequence [ws, item, ws, .finish]) [] (w ++ rest) reason :=
    .sequence_later (ws_takes blank ends) (.sequence_first refused)
  exact (whole.seqAll (by decide) isFunctionFree_of_mem_document areFunctionFree_rules).map

theorem document_refuses_end (blank : IsBlank w) (renders : Renders tree u)
    (stops : tree.isAtom = true → (w' ++ rest).takeWhile isWordChar = []) (blank' : IsBlank w')
    (ends : rest.takeWhile Unicode.isWhiteSpace = []) (more : rest ≠ []) :
    Refuses rules document [] (w ++ u ++ w' ++ rest)
      ⟨"Expected end of input", Text.size (w ++ u ++ w')⟩ := by
  have ending : Refuses rules (.sequence [ws, .finish]) (w ++ u) (w' ++ rest)
      ⟨"Expected end of input", Text.size (w ++ u ++ w')⟩ :=
    .sequence_later (ws_takes blank' ends) (.sequence_first (.finish more))
  have inner : Refuses rules (.sequence [item, ws, .finish]) w (u ++ (w' ++ rest)) _ :=
    .sequence_later (renders.takes w _ stops) ending
  have whole : Refuses rules (.sequence [ws, item, ws, .finish]) [] (w ++ (u ++ (w' ++ rest))) _ :=
    .sequence_later (ws_takes blank renders.takeWhile_isWhiteSpace) inner
  rw [List.append_assoc, List.append_assoc]
  exact (whole.seqAll (by decide) isFunctionFree_of_mem_document areFunctionFree_rules).map

/-- What the language says about a text: the item that it writes, or where an
item or the end of the text is missing. -/
inductive Verdict (cs : List Char) : Outcome Value → Prop
  | accepted {tree : Item} (writes : Writes tree cs) :
      Verdict cs (.success ⟨tree.toValue, 0, Text.size cs⟩)
  /-- No item begins after the white space at the beginning. -/
  | noItem {w rest : List Char} (cut : cs = w ++ rest) (blank : IsLongest IsBlank cs w)
      (none : ∀ u, u <+: rest → ¬ IsItem u) :
      Verdict cs (.failure ⟨"Expected: " ++ expectedItem, Text.size w⟩)
  /-- Something is left after the longest item and the white space that follows. -/
  | notAtEnd {w u w' rest : List Char} (cut : cs = w ++ u ++ w' ++ rest)
      (blank : IsLongest IsBlank cs w)
      (renders : IsLongest IsItem (u ++ (w' ++ rest)) u)
      (blank' : IsLongest IsBlank (w' ++ rest) w')
      (more : Text.size (w ++ u ++ w') < Text.size cs) :
      Verdict cs (.failure ⟨"Expected end of input", Text.size (w ++ u ++ w')⟩)

/-- There is a verdict on every text. -/
theorem exists_verdict (cs : List Char) : ∃ outcome, Verdict cs outcome := by
  -- The text is cut in the order in which the document parser reads it.
  obtain ⟨w, rest, cut, blank, ends⟩ := exists_run Unicode.isWhiteSpace cs
  have longest : IsLongest IsBlank cs w := cut ▸ IsBlank.isLongest blank ends
  obtain ⟨tree, u, tail, begins, renders, stops⟩ | refused := item_reads w rest
  · obtain ⟨w', more, spaced, blank', ends'⟩ := exists_run Unicode.isWhiteSpace tail
    have cut : cs = w ++ u ++ w' ++ more := by
      rw [cut, begins, spaced]
      simp
    by_cases none : more = []
    · rw [none, List.append_nil] at cut
      exact ⟨_, .accepted ⟨w, u, w', blank, renders, blank', cut⟩⟩
    · rw [spaced] at stops
      refine ⟨_, .notAtEnd cut longest (renders.isLongest stops)
        (IsBlank.isLongest blank' ends') ?_⟩
      rw [cut, Text.size_append (w ++ u ++ w')]
      exact Nat.lt_add_of_pos_right (Text.size_pos none)
  · refine ⟨_, .noItem cut longest ?_⟩
    rintro u begins ⟨tree, renders⟩
    exact Refuses.not_renders refused begins renders

/-- Every verdict on a text is the outcome of the document parser. -/
theorem Verdict.parseAll {s : String} {outcome : Outcome Value} (h : Verdict s.toList outcome) :
    ∃ calls, document.parseAll rules s = some ⟨outcome, calls⟩ := by
  cases h with
  | accepted writes =>
    obtain ⟨w, u, w', blank, renders, blank', cut⟩ := writes
    have taken := document_takes blank renders blank'
    rw [← cut] at taken
    rw [Text.size_toList]
    exact taken.parseAll
  | @noItem w rest cut blank none =>
    have refused : Refuses rules item w rest (.expected expectedItem (Text.size w)) := by
      obtain ⟨tree, u, tail, rfl, renders, -⟩ | refused := item_reads w rest
      · exact absurd ⟨tree, renders⟩ (none u (List.prefix_append _ _))
      · exact refused
    rw [cut] at blank
    have missing := document_refuses_item blank.isGood blank.takeWhile_isWhiteSpace refused
    rw [← cut] at missing
    exact missing.parseAll
  | notAtEnd cut blank renders blank' more =>
    obtain ⟨tree, renders, stops⟩ := renders.exists_renders
    have refused := document_refuses_end blank.isGood renders stops blank'.isGood
      blank'.takeWhile_isWhiteSpace (by
        rintro rfl
        rw [cut, List.append_nil] at more
        exact Nat.lt_irrefl _ more)
    rw [← cut] at refused
    exact refused.parseAll

/-- A text writes one item at most. -/
theorem Writes.unique (h : Writes tree cs) (h' : Writes tree' cs) : tree = tree' := by
  obtain ⟨w, u, w', blank, renders, blank', rfl⟩ := h
  obtain ⟨v, u', v', blankv, renders', blankv', same⟩ := h'
  have taken := document_takes blank renders blank'
  have taken' := document_takes blankv renders' blankv'
  obtain ⟨-, -, values⟩ := taken.unique taken' (by rw [same])
  exact Item.toValue_injective values

/-- **The language of the document parser.** On every text it gives an outcome,
namely the verdict of the language. It succeeds with an item over the whole text
exactly if the text writes that item, and no text writes two. -/
theorem parseAll_document (s : String) :
    (∃ outcome calls, document.parseAll rules s = some ⟨outcome, calls⟩) ∧
    (∀ outcome, (∃ calls, document.parseAll rules s = some ⟨outcome, calls⟩) ↔
      Verdict s.toList outcome) ∧
    (∀ tree : Item, (∃ calls, document.parseAll rules s =
        some ⟨.success ⟨tree.toValue, 0, s.utf8ByteSize⟩, calls⟩) ↔ Writes tree s.toList) ∧
    (∀ tree tree', Writes tree s.toList → Writes tree' s.toList → tree = tree') := by
  obtain ⟨outcome, verdict⟩ := exists_verdict s.toList
  obtain ⟨calls, run⟩ := verdict.parseAll
  -- A run has one outcome, so the verdicts on a text are that outcome alone.
  have judged : ∀ outcome, (∃ calls, document.parseAll rules s = some ⟨outcome, calls⟩) ↔
      Verdict s.toList outcome := by
    refine fun other => ⟨?_, Verdict.parseAll⟩
    rintro ⟨calls', run'⟩
    rw [run] at run'
    obtain ⟨rfl, -⟩ := Reply.mk.inj (Option.some.inj run')
    exact verdict
  refine ⟨⟨outcome, calls, run⟩, judged, fun tree => ?_, fun _ _ => Writes.unique⟩
  rw [judged]
  constructor
  · intro h
    generalize same : Outcome.success ⟨tree.toValue, 0, s.utf8ByteSize⟩ = outcome at h
    cases h with
    | accepted writes =>
      injection same with results
      injection results with values
      rwa [Item.toValue_injective values]
    | noItem => cases same
    | notAtEnd => cases same
  · intro writes
    rw [← Text.size_toList]
    exact .accepted writes

end NestedList

end Peg
