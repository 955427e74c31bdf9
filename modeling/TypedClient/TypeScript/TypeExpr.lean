import TypedClient.Literal

/-!
# TypeScript types

The types a generated program mentions, and the members, parameters and type
parameters they are made of.

## Main definitions

* `TypeExpr`: the types
* `Property`, `TypeParam`, `Param`: a member of an object type, a type parameter, a
  parameter, over any kind of type
-/

namespace TypedClient.TypeScript

/-- A type with a keyword of its own. -/
inductive Primitive
  | string
  | number
  | boolean
  | undefined
  | void
  | never
  | any
  deriving DecidableEq, Repr

/-- A member of an object type or of an interface. -/
structure Property (τ : Type) where
  name : String
  type : τ
  optional : Bool := false
  deriving DecidableEq, Repr, Inhabited

/-- A type parameter with an optional upper bound. -/
structure TypeParam (τ : Type) where
  name : String
  bound : Option τ := none
  deriving DecidableEq, Repr, Inhabited

/-- A parameter of a method or of a function type, perhaps without a type. -/
structure Param (τ : Type) where
  name : String
  type : Option τ := none
  optional : Bool := false
  deriving DecidableEq, Repr, Inhabited

/-- A type. -/
inductive TypeExpr
  | primitive (keyword : Primitive)
  | literal (value : Literal)
  | union (members : List TypeExpr)
  | array (element : TypeExpr)
  | object (properties : List (Property TypeExpr))
  | named (name : String) (arguments : List TypeExpr)
  | indexed (base index : TypeExpr)
  | keyof (base : TypeExpr)
  | function (typeParams : List (TypeParam TypeExpr)) (params : List (Param TypeExpr))
      (result : TypeExpr)
  deriving Repr

namespace TypeExpr

/-- A named type without arguments. -/
def ref (name : String) : TypeExpr :=
  .named name []

/-- The type of a single text. -/
def text (value : String) : TypeExpr :=
  .literal (.string value)

/-- The types `string`, `boolean`, `any` and `void`. -/
def string : TypeExpr := .primitive .string

@[inherit_doc string]
def boolean : TypeExpr := .primitive .boolean

@[inherit_doc string]
def any : TypeExpr := .primitive .any

@[inherit_doc string]
def void : TypeExpr := .primitive .void

instance : Inhabited TypeExpr := ⟨any⟩

/-- The type of a promised value. -/
def promise (value : TypeExpr) : TypeExpr :=
  .named "Promise" [value]

/-- The types whose text falls apart before a suffix: a function type, and a union of
two or more types. -/
def isCompound : TypeExpr → Bool
  | .union members => 1 < members.length
  | .function .. => true
  | _ => false

/-- The types that need parentheses before a suffix `[…]`. -/
def needsParens : TypeExpr → Bool
  | .keyof _ => true
  | t => t.isCompound

end TypeExpr

end TypedClient.TypeScript
