/-!
# JSON values

The tree of a JSON text. A text that stops being JSON somewhere has a tree up to there,
so that a reader of the tree meets the faults of the text and those of its content in the
order of the text.

## Main definitions

* `Json`: the trees
* `Json.Numeral`: a number as it is written
* `Json.isWhole`: whether the text of the tree was JSON to its end
-/

namespace TypedClient

/-- A number as it is written. -/
structure Json.Numeral where
  negative : Bool
  whole : List Char
  /-- The digits after the point. -/
  fraction : Option (List Char) := none
  /-- The sign and the digits of the exponent. -/
  exponent : Option (Bool × List Char) := none
  deriving DecidableEq, Repr

/-- A JSON tree. A string whose escapes denote no text, because of half a surrogate pair,
has none. -/
inductive Json
  | null
  | bool (value : Bool)
  | number (numeral : Json.Numeral)
  | string (text : Option String)
  | array (items : List Json)
  | object (members : List (Option String × Json))
  /-- The text stops being JSON here. -/
  | broken
  deriving Repr

namespace Json

mutual

/-- Whether the text of a tree was JSON to its end. -/
def isWhole : Json → Bool
  | .array items => allWhole items
  | .object members => membersWhole members
  | .broken => false
  | _ => true

/-- Whether the texts of all trees of a list were JSON. -/
def allWhole : List Json → Bool
  | [] => true
  | v :: vs => isWhole v && allWhole vs

/-- Whether the texts of all members of a list were JSON. -/
def membersWhole : List (Option String × Json) → Bool
  | [] => true
  | m :: ms => memberWhole m && membersWhole ms

/-- Whether the text of a member was JSON. -/
def memberWhole : Option String × Json → Bool
  | (_, v) => isWhole v

end

end Json

end TypedClient
