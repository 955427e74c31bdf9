import TypedClient.TypeScript.Expr

/-!
# TypeScript modules

The statements, methods, classes and declarations a generated module consists of.

## Main definitions

* `Stmt`: the statements of a method body
* `Method`, `ClassDecl`: a method, and the class that holds it
* `TypeDecl`: an interface or a type alias
* `Import`, `SourceModule`: an import, and the whole module
-/

namespace TypedClient.TypeScript

/-- A statement. Raw code is given by its text and keeps its own line breaks. -/
inductive Stmt
  | const (name : String) (type : Option TypeExpr) (value : Expr)
  | expr (value : Expr)
  | return (value : Option Expr)
  | raw (code : String)
  deriving Repr

/-- A public method of a class. -/
structure Method where
  name : String
  typeParams : List (TypeParam TypeExpr) := []
  params : List (Param TypeExpr) := []
  returnType : TypeExpr
  body : List Stmt := []
  isAsync : Bool := false
  comment : Option String := none
  isDeprecated : Bool := false
  deriving Repr

/-- A class. Its prelude comes before the methods. -/
structure ClassDecl where
  name : String
  typeParams : List (TypeParam TypeExpr) := []
  prelude : List Stmt := []
  methods : List Method := []
  isExported : Bool := false
  deriving Repr

/-- An import of named items. -/
structure Import where
  items : List String := []
  source : String
  typeOnly : Bool := false
  deriving DecidableEq, Repr

/-- What a type declaration gives its name to. -/
inductive TypeBody
  | interfaceOf (properties : List (Property TypeExpr))
  | aliasOf (type : TypeExpr)
  deriving Repr

/-- A declaration of an interface or of a type alias. -/
structure TypeDecl where
  name : String
  typeParams : List (TypeParam TypeExpr) := []
  body : TypeBody
  isExported : Bool := false
  deriving Repr

namespace TypeDecl

/-- An exported interface without type parameters. -/
def exportedInterface (name : String) (properties : List (Property TypeExpr)) : TypeDecl :=
  { name, body := .interfaceOf properties, isExported := true }

/-- An exported alias without type parameters. -/
def exportedAlias (name : String) (type : TypeExpr) : TypeDecl :=
  { name, body := .aliasOf type, isExported := true }

end TypeDecl

/-- A module: imports, type declarations and classes, in this order. -/
structure SourceModule where
  imports : List Import := []
  types : List TypeDecl := []
  classes : List ClassDecl := []
  deriving Repr

end TypedClient.TypeScript
