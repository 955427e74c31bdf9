import TypedClient.Fault
import TypedClient.Literal
import TypedClient.TypeScript.TypeExpr

/-!
# Schemas

A schema describes the values of a parameter, a request body or a response. Its kind is
an open text; a fixed set of kinds has a type.

## Main definitions

* `Schema`: kind, enumerated values, members and element
* `Schema.Kind`: the kinds that have a type
* `Schema.toType`: the type of a schema
-/

namespace TypedClient

/-- A member of an object schema. -/
structure Member (σ : Type) where
  name : String
  required : Bool := false
  schema : σ
  deriving DecidableEq, Repr

/-- A schema. Which of its parts count depends on its kind. -/
inductive Schema
  | mk (kind : String) (values : Option (List Literal)) (members : List (Member Schema))
      (items : Option Schema)
  deriving Repr

namespace Schema

/-- The schema of a kind without further parts. -/
def ofKind (kind : String) : Schema :=
  mk kind none [] none

/-- The schema of a value about which nothing is said. -/
def any : Schema :=
  ofKind "any"

instance : Inhabited Schema := ⟨any⟩

/-- The kinds that have a type. -/
inductive Kind
  | string
  | integer
  | number
  | boolean
  | object
  | array
  | undefined
  | null
  | never
  | void
  | any
  deriving DecidableEq, Repr

namespace Kind

/-- The kind with a name. -/
def ofName? : String → Option Kind
  | "string" => some string
  | "integer" => some integer
  | "number" => some number
  | "boolean" => some boolean
  | "object" => some object
  | "array" => some array
  | "undefined" => some undefined
  | "null" => some null
  | "never" => some never
  | "void" => some void
  | "any" => some any
  | _ => none

/-- The kinds whose enumerated values make up their type. -/
def isEnumerable : Kind → Bool
  | string | integer | number | boolean => true
  | _ => false

end Kind

open TypeScript

/-- The type of an enumeration: the union of its values, each by itself. -/
def unionOf (values : List Literal) : TypeExpr :=
  .union (values.map .literal)

mutual

/-- The type of a schema. The enumerated values of an enumerable kind come first; the
members count for objects only and the element for arrays only. An array without an
element schema holds anything. -/
def toType : Schema → Except Fault TypeExpr
  | mk name values members items =>
    match Kind.ofName? name with
    | none => .error (.unsupportedKind name)
    | some kind =>
      match (if kind.isEnumerable then values else none) with
      | some vs => .ok (unionOf vs)
      | none =>
        match kind with
        | .string => .ok (.primitive .string)
        | .integer | .number => .ok (.primitive .number)
        | .boolean => .ok (.primitive .boolean)
        | .object => return .object (← memberTypes members)
        | .array => return .array (← elementType items)
        | .undefined => .ok (.primitive .undefined)
        | .null => .ok (.literal .null)
        | .never => .ok (.primitive .never)
        | .void => .ok (.primitive .void)
        | .any => .ok (.primitive .any)

/-- The members of an object type. A member that is not required is optional. -/
def memberTypes : List (Member Schema) → Except Fault (List (Property TypeExpr))
  | [] => .ok []
  | m :: ms => return (← memberType m) :: (← memberTypes ms)

/-- One member of an object type. -/
def memberType : Member Schema → Except Fault (Property TypeExpr)
  | ⟨name, required, schema⟩ => return ⟨name, ← toType schema, !required⟩

/-- The type of the elements of an array. -/
def elementType : Option Schema → Except Fault TypeExpr
  | none => .ok .any
  | some schema => toType schema

end

end Schema

end TypedClient
