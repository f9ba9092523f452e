import BoundedMap.Text.Decimal
import BoundedMap.Text.Quoted
/-!
# Structured text

A `Layout` is a text with brackets whose inside may be written on one line or
spread over several. `inline` separates items by a comma and a blank. `spread`
gives every item a line of its own, indented by four more than its brackets
and followed by a comma; empty brackets stay together.

`Inspect` is the class of types whose values have such a text.
-/

namespace BoundedMap

/-- A text with brackets, before line breaks are chosen. -/
inductive Layout
  /-- Text that is never broken. -/
  | atom (text : String)
  /-- A key and what it stands for. -/
  | pair (key value : Layout)
  /-- Items between two brackets. -/
  | group (opening closing : String) (items : List Layout)

namespace Layout

mutual

/-- The text on one line. -/
def inline : Layout → String
  | atom text => text
  | pair key value => inline key ++ ": " ++ inline value
  | group opening closing items =>
    opening ++ ", ".intercalate (inlineItems items) ++ closing

/-- The items of a group, each on one line. -/
def inlineItems : List Layout → List String
  | [] => []
  | item :: rest => inline item :: inlineItems rest

end

mutual

/-- The text with a line for every item; `margin` starts each new line. -/
def spreadAt (margin : String) : Layout → String
  | atom text => text
  | pair key value => spreadAt margin key ++ ": " ++ spreadAt margin value
  | group opening closing [] => opening ++ closing
  | group opening closing (item :: rest) =>
    opening ++ "\n" ++ String.join (spreadItems (margin ++ "    ") (item :: rest))
      ++ margin ++ closing

/-- The items of a group, each a line that ends with a comma. -/
def spreadItems (margin : String) : List Layout → List String
  | [] => []
  | item :: rest => (margin ++ spreadAt margin item ++ ",\n") :: spreadItems margin rest

end

/-- The text with a line for every item. -/
def spread (l : Layout) : String :=
  spreadAt "" l

end Layout

/-- Types whose values can be shown in a report. -/
class Inspect (α : Type) where
  layout : α → Layout

namespace Inspect

/-- A value on one line. -/
def text {α : Type} [Inspect α] (a : α) : String :=
  (layout a).inline

instance : Inspect Int where
  layout n := .atom (String.ofList (Decimal.ofInt n))

instance : Inspect Int64 where
  layout n := layout n.toInt

instance : Inspect Unit where
  layout _ := .atom "()"

instance : Inspect String where
  layout s := .atom (Text.quote s)

instance {α : Type} [Inspect α] : Inspect (List α) where
  layout xs := .group "[" "]" (xs.map layout)

end Inspect

end BoundedMap
