import Peg.Proofs.NestedList.Language

/-!
# Writing items and reading them back

The text of an item whose words are words is one of its renderings, so reading
gives the item back. Every item that was read is such an item, and its text is a
normal form of all texts that write it.

## Main definitions

* `Item.IsWellFormed`: every word in an item is a word of the grammar.
* `NestedList.normalForm?`: the text of the item that a text writes.

## Main results

* `NestedList.isWellFormed_iff`: an item is well formed exactly if it has a rendering.
* `NestedList.parse?_eq_inl_iff`: what is read is what the text writes.
* `NestedList.round_trip`: reading undoes writing, and normal forms stay as they are.
-/

namespace Peg

open NestedList

namespace Item

mutual

/-- Every word in an item is a word of the grammar. -/
def IsWellFormed : Item → Prop
  | .atom word => IsWord word.toList
  | .list items => AreWellFormed items

/-- Every word in several items is a word of the grammar. -/
def AreWellFormed : List Item → Prop
  | [] => True
  | item :: items => item.IsWellFormed ∧ AreWellFormed items

end

mutual

/-- A well-formed item is rendered by its text. -/
theorem IsWellFormed.renders {item : Item} (h : item.IsWellFormed) :
    Renders item item.display.toList := by
  match item with
  | .atom word => exact ⟨rfl, h⟩
  | .list items =>
    have all : RendersAll items (displayAll items).toList := AreWellFormed.renders h
    exact ⟨[], (displayAll items).toList, by simp [IsBlank], all, by simp [display]⟩

/-- Well-formed items are rendered by their texts with one space between them. -/
theorem AreWellFormed.renders {items : List Item} (h : AreWellFormed items) :
    RendersAll items (displayAll items).toList := by
  match items with
  | [] => rfl
  | [item] =>
    refine ⟨item.display.toList, [], [], h.1.renders, by simp [IsBlank], rfl, ?_, ?_⟩
    · intro _ next
      cases next
    · simp [displayAll]
  | item :: next :: items =>
    have rest := AreWellFormed.renders h.2
    have space : IsBlank [' '] := List.forall_mem_singleton.2 rfl
    exact ⟨item.display.toList, [' '], _, h.1.renders, space, rest, by simp, by simp [displayAll]⟩

end

end Item

namespace NestedList

mutual

/-- Only well-formed items have renderings. -/
theorem Renders.isWellFormed {tree : Item} {u : List Char} (h : Renders tree u) :
    tree.IsWellFormed := by
  match tree with
  | .atom word =>
    obtain ⟨rfl, word⟩ := h
    exact word
  | .list trees =>
    obtain ⟨blanks, body, -, all, -⟩ := h
    exact all.areWellFormed

/-- The same for several items. -/
theorem RendersAll.areWellFormed {trees : List Item} {body : List Char}
    (h : RendersAll trees body) : Item.AreWellFormed trees := by
  match trees with
  | [] => trivial
  | tree :: trees =>
    obtain ⟨u, blanks, rest, first, -, all, -, -⟩ := h
    exact ⟨first.isWellFormed, all.areWellFormed⟩

end

variable {tree : Item} {s : String}

/-- An item is well formed exactly if it has a rendering. -/
theorem isWellFormed_iff : tree.IsWellFormed ↔ ∃ u, Renders tree u :=
  ⟨fun h => ⟨_, h.renders⟩, fun ⟨_, h⟩ => h.isWellFormed⟩

/-- The text of a well-formed item writes it. -/
theorem writes_display (h : tree.IsWellFormed) : Writes tree tree.display.toList :=
  ⟨[], tree.display.toList, [], by simp [IsBlank], h.renders, by simp [IsBlank], by simp⟩

/-- The item that is read from a text is the one that the text writes. -/
theorem parse?_eq_inl_iff : parse? s = some (.inl tree) ↔ Writes tree s.toList := by
  constructor
  · intro h
    obtain ⟨outcome, verdict⟩ := exists_verdict s.toList
    obtain ⟨calls, run⟩ := verdict.parseAll
    rw [parse?, run, Option.bind_some] at h
    cases verdict with
    | accepted writes =>
      simp only [Item.ofValue?_toValue, Option.map_some, Option.some.injEq, Sum.inl.injEq] at h
      rwa [← h]
    | noItem => cases h
    | notAtEnd => cases h
  · intro writes
    obtain ⟨calls, run⟩ := (Verdict.accepted writes).parseAll
    rw [parse?, run, Option.bind_some]
    simp [Item.ofValue?_toValue]

/-- The text of the item that a text writes. -/
def normalForm? (s : String) : Option String :=
  (parse? s).bind fun
    | .inl tree => some tree.display
    | .inr _ => none

theorem normalForm?_eq_some_iff {form : String} :
    normalForm? s = some form ↔ ∃ tree, Writes tree s.toList ∧ tree.display = form := by
  rw [normalForm?, Option.bind_eq_some_iff]
  constructor
  · rintro ⟨tree | reason, read, same⟩
    · exact ⟨tree, parse?_eq_inl_iff.1 read, Option.some.inj same⟩
    · cases same
  · rintro ⟨tree, writes, rfl⟩
    exact ⟨.inl tree, parse?_eq_inl_iff.2 writes, rfl⟩

/-- **Reading undoes writing.** The text of a well-formed item is read as that
item, from its first byte to its last. The text of an item that was read from
any text is read as the same item, and is its own normal form. -/
theorem round_trip :
    (∀ tree : Item, tree.IsWellFormed →
      ∃ calls, document.parseAll rules tree.display =
        some ⟨.success ⟨tree.toValue, 0, tree.display.utf8ByteSize⟩, calls⟩) ∧
    (∀ (s : String) (tree : Item), parse? s = some (.inl tree) →
      parse? tree.display = some (.inl tree) ∧ normalForm? tree.display = some tree.display) ∧
    (∀ s form : String, normalForm? s = some form → normalForm? form = some form) := by
  -- What was read has a rendering, so its words are words of the grammar.
  have stable : ∀ (s : String) (tree : Item), Writes tree s.toList →
      Writes tree tree.display.toList := by
    rintro s tree ⟨w, u, w', -, renders, -, -⟩
    exact writes_display renders.isWellFormed
  refine ⟨fun tree h => ?_, fun s tree read => ?_, fun s form normal => ?_⟩
  · rw [← Text.size_toList]
    exact (Verdict.accepted (writes_display h)).parseAll
  · have writes := stable s tree (parse?_eq_inl_iff.1 read)
    exact ⟨parse?_eq_inl_iff.2 writes, normalForm?_eq_some_iff.2 ⟨tree, writes, rfl⟩⟩
  · obtain ⟨tree, writes, rfl⟩ := normalForm?_eq_some_iff.1 normal
    exact normalForm?_eq_some_iff.2 ⟨tree, stable s tree writes, rfl⟩

/-- A word and an empty list may stand side by side; their normal form has a
space between them, and is read from its first byte to its last. -/
theorem round_trip_of_touching :
    (∃ calls, document.parseAll rules "[a []]" =
      some ⟨.success ⟨(Item.list [.atom "a", .list []]).toValue, 0, 6⟩, calls⟩) ∧
    normalForm? "[a[]]\n" = some "[a []]" ∧ normalForm? "[a []]" = some "[a []]" := by
  have word : IsWord ['a'] := ⟨List.cons_ne_nil _ _, List.forall_mem_singleton.2 rfl⟩
  have wellFormed : (Item.list [.atom "a", .list []]).IsWellFormed := ⟨word, trivial, trivial⟩
  have empty : Renders (.list []) ['[', ']'] := ⟨[], [], by simp [IsBlank], rfl, rfl⟩
  have touching : Renders (.list [.atom "a", .list []]) ['[', 'a', '[', ']', ']'] :=
    ⟨[], ['a', '[', ']'], by simp [IsBlank],
      ⟨['a'], [], ['[', ']'], ⟨rfl, word⟩, by simp [IsBlank],
        ⟨['[', ']'], [], [], empty, by simp [IsBlank], rfl, nofun, rfl⟩, nofun, rfl⟩, rfl⟩
  have writes : Writes (.list [.atom "a", .list []]) "[a[]]\n".toList :=
    ⟨[], _, ['\n'], by simp [IsBlank], touching, List.forall_mem_singleton.2 rfl, rfl⟩
  obtain ⟨reads, again, -⟩ := round_trip
  refine ⟨reads _ wellFormed, normalForm?_eq_some_iff.2 ⟨_, writes, rfl⟩, ?_⟩
  exact (again _ _ (parse?_eq_inl_iff.2 writes)).2

end NestedList

end Peg
