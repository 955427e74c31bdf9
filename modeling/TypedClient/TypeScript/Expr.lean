import TypedClient.TypeScript.TypeExpr

/-!
# TypeScript expressions

The expressions of the generated method bodies.

## Main definitions

* `Expr`: the expressions
* `ObjectField`: an entry of an object literal, over any kind of expression
* `Template`, `Span`: a template literal, and one of its substitutions with the text
  after it
-/

namespace TypedClient.TypeScript

/-- An entry of an object literal. -/
structure ObjectField (ε : Type) where
  key : String
  value : ε
  deriving DecidableEq, Repr, Inhabited

/-- A substitution of a template, with the text up to the next one or the end. -/
structure Span (ε : Type) where
  expr : ε
  text : String
  deriving DecidableEq, Repr, Inhabited

/-- A template literal: a text, then substitutions with the texts after them. -/
structure Template (ε : Type) where
  head : String
  spans : List (Span ε)
  deriving DecidableEq, Repr

/-- An expression. An object literal is written on one line or, when it is `spread`, with
one entry a line. -/
inductive Expr
  | ident (name : String)
  | this
  | literal (value : Literal)
  | member (receiver : Expr) (name : String)
  | element (receiver : Expr) (key : String)
  | object (fields : List (ObjectField Expr)) (spread : Bool)
  | template (value : Template Expr)
  | plus (left right : Expr)
  | call (function : Expr) (arguments : List Expr)
  deriving Repr

namespace Expr

instance : Inhabited Expr := ⟨this⟩

/-- A string constant. -/
def text (value : String) : Expr :=
  .literal (.string value)

end Expr

end TypedClient.TypeScript
