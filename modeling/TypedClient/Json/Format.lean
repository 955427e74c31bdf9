import TypedClient.Json.Number
import TypedClient.Json.Text
import TypedClient.Reading

/-!
# JSON as a format of documents

How a JSON tree is taken for the parts of a document.

## Main definitions

* `Json.format`: the readers of the basic shapes
* `Json.decode`: a document read from its text
-/

namespace TypedClient.Json

/-- The fault of a value that is not what belongs in its place. -/
def mismatch : Json → ReadFault
  | .broken => .malformed
  | _ => .unexpected

/-- A key, at fault if it denotes no text. -/
def keyOf (key : Option String) : Except ReadFault String :=
  match key with
  | some name => .ok name
  | none => .error .malformed

/-- A string. -/
def asText : Json → Except ReadFault String
  | .string text => keyOf text
  | v => .error v.mismatch

/-- A truth value. -/
def asFlag : Json → Except ReadFault Bool
  | .bool value => .ok value
  | v => .error v.mismatch

/-- A constant: anything but an array or an object. -/
def asConstant : Json → Except ReadFault Literal
  | .null => .ok .null
  | .bool value => .ok (.bool value)
  | .string text => .string <$> keyOf text
  | .number numeral =>
    match numeral.toLiteral? with
    | some value => .ok value
    | none => .error .malformed
  | v => .error v.mismatch

/-- The name of an alternative: a string, or the one key of an object, whose value is
null. -/
def asChoice : Json → Except ReadFault String
  | .object [(key, .null)] => keyOf key
  | v => asText v

/-- The items of an array. -/
def asItems : Json → Except ReadFault (List Json)
  | .array items => .ok items
  | v => .error v.mismatch

/-- The members of an object with their keys. -/
def asEntries : Json → Except ReadFault (List (Except ReadFault String × Json))
  | .object members => .ok (members.map fun (key, v) => (keyOf key, v))
  | v => .error v.mismatch

/-- The fields of a record: an object, or an array by position. -/
def asFields : Json → Except ReadFault (Fields (Except ReadFault) Json)
  | .array items => .ok (.positional items)
  | v => .named <$> asEntries v

/-- JSON as a format of documents. Every value stands for itself, and only null for an
absent one. -/
def format : Format (Except ReadFault) Json where
  depth := 127
  follow := pure
  text := asText
  flag := asFlag
  constant := asConstant
  choice := asChoice
  isAbsent := fun | .null => .ok true | _ => .ok false
  isNothing := fun _ => false
  items := asItems
  entries := asEntries
  fields := asFields
  skip := fun v => if v.isWhole then .ok () else .error .malformed

/-- A document read from its text, after which only blanks may follow. -/
def decode {α : Type} (read : Reader (Except ReadFault) Json α) (text : String) :
    Except ReadFault α := do
  let (tree, rest) := ofText text.toList
  let value ← read tree
  if (skipBlanks rest).isEmpty then return value
  throw .malformed

end TypedClient.Json
