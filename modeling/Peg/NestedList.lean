import Peg.Report
import Peg.Transform

/-!
# Nested lists of words

The language of words and of lists in square brackets, such as `[a [b c] []]`.
White space may stand around the items of a list and around the whole.

## Main definitions

* `Item`, with `Item.display`: a word or a list, and its text.
* `Item.toValue`, `Item.ofValue?`: items among the values of parsers.
* `NestedList.document`, `NestedList.rules`: the grammar.
* `NestedList.parse?`: the item that a text writes, or the failure.
* `NestedList.report`: one line for each of several texts.

## Main results

* `NestedList.compile_blanks`, `NestedList.compile_word`: the patterns of the
  grammar are those of their expressions.
* `Item.ofValue?_toValue`: no item is lost among the values.
-/

namespace Peg

/-- A word, or a list of items. -/
inductive Item where
  | atom (word : String)
  | list (items : List Item)
  deriving Repr

namespace Item

mutual

/-- The text of an item, with one space between the items of a list. -/
def display : Item → String
  | .atom word => word
  | .list items => "[" ++ displayAll items ++ "]"

/-- The texts of several items with one space between them. -/
def displayAll : List Item → String
  | [] => ""
  | [item] => item.display
  | item :: items => item.display ++ " " ++ displayAll items

end

mutual

/-- An item as a value: a word is a text under a tag. -/
def toValue : Item → Value
  | .atom word => .tagged "atom" (.text word)
  | .list items => .list (toValues items)

/-- Several items as values. -/
def toValues : List Item → List Value
  | [] => []
  | item :: items => item.toValue :: toValues items

end

mutual

/-- The item that a value stands for. -/
def ofValue? : Value → Option Item
  | .tagged "atom" (.text word) => some (.atom word)
  | .list elements => (ofValues? elements).map .list
  | _ => none

/-- The items that several values stand for. -/
def ofValues? : List Value → Option (List Item)
  | [] => some []
  | element :: elements =>
    (ofValue? element).bind fun item => (ofValues? elements).map fun items => item :: items

end

mutual

/-- An item is read back from its value. -/
theorem ofValue?_toValue (item : Item) : ofValue? item.toValue = some item := by
  match item with
  | .atom word => simp [toValue, ofValue?]
  | .list items => simp [toValue, ofValue?, ofValues?_toValues items]

/-- Several items are read back from their values. -/
theorem ofValues?_toValues (items : List Item) : ofValues? (toValues items) = some items := by
  match items with
  | [] => simp [toValues, ofValues?]
  | item :: items =>
    simp [toValues, ofValues?, ofValue?_toValue item, ofValues?_toValues items]

end

theorem toValue_injective {item item' : Item} (h : item.toValue = item'.toValue) :
    item = item' := by
  have items := congrArg ofValue? h
  rw [ofValue?_toValue, ofValue?_toValue] at items
  exact Option.some.inj items

end Item

namespace NestedList

/-- White space of any length. -/
def blanks : Pattern :=
  ⟨"\\s*", .ofExpr (.repetition 0 none true (.set .chars Unicode.whiteSpace))⟩

/-- The characters of words. -/
def wordCharSet : CharSet :=
  Regex.setOfChars [('A', 'Z'), ('a', 'z'), ('0', '9'), ('_', '_')]

/-- One or more letters, digits and underscores of ASCII. -/
def word : Pattern :=
  ⟨"[A-Za-z0-9_]+", .ofExpr (.repetition 1 none true (.set .chars wordCharSet))⟩

theorem compile_blanks : (Pattern.compile "\\s*").toOption = some blanks := by
  decide +kernel

theorem compile_word : (Pattern.compile "[A-Za-z0-9_]+").toOption = some word := by
  decide +kernel

/-- White space. -/
def ws : Parser :=
  .pattern blanks

/-- The function that takes one element of a list. -/
def pick (index : Nat) : Value → Except Fault Value :=
  Transform.apply (.pick index)

/-- A word. -/
def atom : Parser :=
  .map (.pattern word) (Transform.apply (.tag "atom"))

/-- An item of a list, with the white space after it. -/
def element : Parser :=
  .map (.seqAll [.rule "item", ws]) (pick 0)

/-- A list: items with white space after each, between square brackets. -/
def list : Parser :=
  .map (.seqAll [.literal "[", ws, .many element, .literal "]"]) (pick 2)

/-- A word or a list. -/
def item : Parser :=
  .altAll [atom, list]

/-- The rule by which lists hold items. -/
def rules : Rules :=
  [("item", item)]

/-- One item, with white space around it and nothing else. -/
def document : Parser :=
  .map (.seqAll [ws, item, ws, .finish]) (pick 1)

/-- The item that a text writes, or the failure of the attempt. -/
def parse? (input : String) : Option (Item ⊕ Failure) :=
  (document.parseAll rules input).bind fun reply =>
    match reply.outcome with
    | .success result => (Item.ofValue? result.value).map .inl
    | .failure reason => some (.inr reason)
    | .fault _ => none

/-- One line for a text: its quoted form, and the item that it writes or the
failure of the attempt. -/
def reportLine (input : String) : String :=
  Text.quote input ++ " => " ++
    match parse? input with
    | some (.inl item) => item.display
    | some (.inr reason) => "error: " ++ reason.display
    | none => ""

/-- The texts that are parsed when none are given. -/
def samples : List String :=
  ["[a [b c] []]", "  [nested [lists [of [words]]]]  ", "[unclosed [list]", "word"]

/-- One line for each of several texts, or for each of the samples. -/
def report (inputs : List String) : List String :=
  (if inputs.isEmpty then samples else inputs).map reportLine

end NestedList

end Peg
