import TypedClient.Identifier
import TypedClient.Number.Decimal
import TypedClient.Text.Quoted
import TypedClient.TypeScript.TypeExpr

/-!
# Printing types

The text of a constant, of a key and of a type.

## Main definitions

* `quoted`: a string between double quotes
* `keyText`: a key, quoted unless it is a name
* `printLiteral`, `TypeExpr.print`: the text of a constant and of a type
* `typeParamsText`: a list of type parameters between angle brackets, empty for none
-/

namespace TypedClient.TypeScript

/-- A string between double quotes. -/
def quoted (s : String) : String :=
  "\"" ++ String.ofList (Text.escapeQuoted s.toList) ++ "\""

/-- A key of an object: itself if it is a name, and quoted otherwise. -/
def keyText (key : String) : String :=
  if Identifier.isValid key then key else quoted key

/-- The mark of an optional member or parameter. -/
def optionalMark (optional : Bool) : String :=
  if optional then "?" else ""

/-- A text between parentheses where they are needed. -/
def parenthesizeIf (needed : Bool) (text : String) : String :=
  if needed then "(" ++ text ++ ")" else text

/-- Texts one after another with a separator between each two. -/
def separated (separator : String) (texts : List String) : String :=
  separator.intercalate texts

/-- A text between brackets, or nothing when there is nothing to enclose. -/
def enclosedIf (left right : String) (texts : List String) : String :=
  if texts.isEmpty then "" else left ++ separated ", " texts ++ right

/-- The text of a constant. -/
def printLiteral : Literal → String
  | .string text => quoted text
  | .number value => Decimal.text value
  | .integer value => Decimal.integerText value
  | .bool value => if value then "true" else "false"
  | .null => "null"

/-- The keyword of a primitive type. -/
def Primitive.print : Primitive → String
  | .string => "string"
  | .number => "number"
  | .boolean => "boolean"
  | .undefined => "undefined"
  | .void => "void"
  | .never => "never"
  | .any => "any"

/-! ## Types

The empty union is the type without values, and the empty object type has no inner
blanks. A compound type or a `keyof` is put in parentheses before a suffix, and a
compound type after `keyof`. -/

namespace TypeExpr

mutual

/-- The text of a type. -/
def print : TypeExpr → String
  | .primitive keyword => keyword.print
  | .literal value => printLiteral value
  | .union members =>
    if members.isEmpty then Primitive.never.print else separated " | " (printAll members)
  | .array element => parenthesizeIf element.needsParens (print element) ++ "[]"
  | .object properties =>
    if properties.isEmpty then "\x7b\x7d"
    else "\x7b " ++ separated "; " (printProperties properties) ++ " \x7d"
  | .named name arguments => name ++ enclosedIf "<" ">" (printAll arguments)
  | .indexed base index =>
    parenthesizeIf base.needsParens (print base) ++ "[" ++ print index ++ "]"
  | .keyof base => "keyof " ++ parenthesizeIf base.isCompound (print base)
  | .function typeParams params result =>
    enclosedIf "<" ">" (printTypeParams typeParams) ++ "("
      ++ separated ", " (printParams params) ++ ") => " ++ print result

/-- The texts of several types. -/
def printAll : List TypeExpr → List String
  | [] => []
  | t :: ts => print t :: printAll ts

/-- The texts of several members. -/
def printProperties : List (Property TypeExpr) → List String
  | [] => []
  | p :: ps => printProperty p :: printProperties ps

/-- The text of a member. -/
def printProperty : Property TypeExpr → String
  | ⟨name, type, optional⟩ => keyText name ++ optionalMark optional ++ ": " ++ print type

/-- The texts of several type parameters. -/
def printTypeParams : List (TypeParam TypeExpr) → List String
  | [] => []
  | p :: ps => printTypeParam p :: printTypeParams ps

/-- The text of a type parameter. -/
def printTypeParam : TypeParam TypeExpr → String
  | ⟨name, bound⟩ => name ++ printOptional " extends " bound

/-- The texts of several parameters. -/
def printParams : List (Param TypeExpr) → List String
  | [] => []
  | p :: ps => printParam p :: printParams ps

/-- The text of a parameter. -/
def printParam : Param TypeExpr → String
  | ⟨name, type, optional⟩ => name ++ optionalMark optional ++ printOptional ": " type

/-- The text of a type that may be absent, after its introduction. -/
def printOptional (introduction : String) : Option TypeExpr → String
  | none => ""
  | some type => introduction ++ print type

end

theorem printAll_eq (types : List TypeExpr) : printAll types = types.map print := by
  induction types with
  | nil => rfl
  | cons t ts ih => simp [printAll, ih]

theorem printProperties_eq (properties : List (Property TypeExpr)) :
    printProperties properties = properties.map printProperty := by
  induction properties with
  | nil => rfl
  | cons p ps ih => simp [printProperties, ih]

theorem printTypeParams_eq (typeParams : List (TypeParam TypeExpr)) :
    printTypeParams typeParams = typeParams.map printTypeParam := by
  induction typeParams with
  | nil => rfl
  | cons p ps ih => simp [printTypeParams, ih]

theorem printParams_eq (params : List (Param TypeExpr)) :
    printParams params = params.map printParam := by
  induction params with
  | nil => rfl
  | cons p ps ih => simp [printParams, ih]

end TypeExpr

/-- The text of a list of type parameters, empty for none. -/
def typeParamsText (typeParams : List (TypeParam TypeExpr)) : String :=
  enclosedIf "<" ">" (typeParams.map TypeExpr.printTypeParam)

end TypedClient.TypeScript
