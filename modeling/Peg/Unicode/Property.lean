import Peg.Unicode.Age
import Peg.Unicode.Binary
import Peg.Unicode.Script
import Peg.Unicode.Segmentation

/-!
# Properties by name

The names of properties and of their values are compared loosely: case, blanks,
hyphens, underscores and a leading `is` do not count.

## Main definitions

* `looseName`: the form in which names are compared.
* `property?`: the set that one name denotes, which is a binary property, a
  general category or a script.
* `propertyValue?`: the set of the characters whose property has a value.
-/

namespace Peg.Unicode

/-- A name without what does not count. The name `isc` is kept whole, since it
would otherwise be taken for the category `c`. -/
def looseName (name : String) : String :=
  let chars := name.toList
  let (prefixed, body) :=
    match chars with
    | i :: s :: rest =>
      if (i == 'i' || i == 'I') && (s == 's' || s == 'S') then (true, rest) else (false, chars)
    | _ => (false, chars)
  let kept := body.filter fun c => c.toNat < 128 && c != ' ' && c != '_' && c != '-'
  let small := kept.map Char.toLower
  if prefixed && small == ['c'] then "isc" else String.ofList small

/-- The set that a single name denotes. Three names are those of a category
before those of a property. -/
def property? (name : String) : Option CharSet :=
  let name := looseName name
  if name == "cf" || name == "sc" || name == "lc" then lookup? generalCategories name
  else
    (lookup? binaryProperties name).or
      ((lookup? generalCategories name).or (lookup? scripts name))

/-- The properties that have values other than yes and no, by name, each with
the look-up of its values. -/
def valuedProperties : List (List String × (String → Option CharSet)) :=
  [(["gc", "generalcategory"], lookup? generalCategories),
   (["sc", "script"], lookup? scripts),
   (["scx", "scriptextensions"], lookup? scriptExtensions),
   (["age"], age?),
   (["gcb", "graphemeclusterbreak"], lookup? graphemeClusterBreaks),
   (["wb", "wordbreak"], lookup? wordBreaks),
   (["sb", "sentencebreak"], lookup? sentenceBreaks)]

/-- The characters for which the named property has the named value. -/
def propertyValue? (name value : String) : Option CharSet :=
  let name := looseName name
  (valuedProperties.find? (·.1.contains name)).bind fun (_, values) => values (looseName value)

end Peg.Unicode
