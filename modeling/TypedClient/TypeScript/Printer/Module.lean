import TypedClient.Text.Split
import TypedClient.TypeScript.Module
import TypedClient.TypeScript.Printer.Expr

/-!
# Printing modules

Statements, methods, classes and modules are printed as whole lines, each ended by a
line feed.

## Main definitions

* `Stmt.printAt`, `Method.printAt`: a statement and a method at a level of indentation
* `docComment`: the comment before a method
* `ClassDecl.print`, `TypeDecl.print`, `Import.print`, `SourceModule.print`
-/

namespace TypedClient.TypeScript

/-- The lines of a text, as texts. -/
def textLines (s : String) : List String :=
  (Text.lines s.toList).map String.ofList

/-- A line of code at a level of indentation. An empty line is not indented. -/
def codeLine (level : Nat) (line : String) : String :=
  if line.isEmpty then "\n" else indentation level ++ line ++ "\n"

/-! ## Statements and methods -/

/-- The text of a statement at a level of indentation. -/
def Stmt.printAt (level : Nat) : Stmt → String
  | .const name type value =>
    indentation level ++ "const " ++ name ++ TypeExpr.printOptional ": " type ++ " = "
      ++ value.printAt level ++ ";\n"
  | .expr value => indentation level ++ value.printAt level ++ ";\n"
  | .return (some value) => indentation level ++ "return " ++ value.printAt level ++ ";\n"
  | .return none => indentation level ++ "return;\n"
  | .raw code => String.join ((textLines code).map (codeLine level))

/-- The lines of the comment before a method: those of its text, kept from ending the
comment, and a mark for a deprecated method. -/
def commentLines (comment : Option String) (isDeprecated : Bool) : List String :=
  let lines := (comment.map textLines).getD []
  lines.map (fun line => String.ofList (Text.escapeComment line.toList))
    ++ if isDeprecated then ["@deprecated"] else []

/-- A line of a block comment. -/
def commentLine (level : Nat) (line : String) : String :=
  if line.isEmpty then indentation level ++ " *\n"
  else indentation level ++ " * " ++ line ++ "\n"

/-- The comment before a method, empty if there is nothing to say. -/
def docComment (comment : Option String) (isDeprecated : Bool) (level : Nat) : String :=
  let lines := commentLines comment isDeprecated
  if lines.isEmpty then ""
  else indentation level ++ "/**\n" ++ String.join (lines.map (commentLine level))
    ++ indentation level ++ " */\n"

/-- The text of a method at a level of indentation. -/
def Method.printAt (level : Nat) (m : Method) : String :=
  docComment m.comment m.isDeprecated level
    ++ indentation level ++ "public " ++ (if m.isAsync then "async " else "") ++ m.name
    ++ typeParamsText m.typeParams ++ "("
    ++ separated ", " (m.params.map TypeExpr.printParam) ++ "): " ++ m.returnType.print
    ++ " \x7b\n" ++ String.join (m.body.map (Stmt.printAt (level + 1)))
    ++ indentation level ++ "\x7d\n"

/-- The mark of an exported declaration. -/
def exportMark (isExported : Bool) : String :=
  if isExported then "export " else ""

/-- The sections of a class: its prelude, if any, and its methods. -/
def ClassDecl.sections (c : ClassDecl) : List String :=
  (if c.prelude.isEmpty then [] else [String.join (c.prelude.map (Stmt.printAt 1))])
    ++ c.methods.map (Method.printAt 1)

/-- The text of a class, its sections parted by empty lines. -/
def ClassDecl.print (c : ClassDecl) : String :=
  exportMark c.isExported ++ "class " ++ c.name ++ typeParamsText c.typeParams ++ " \x7b\n"
    ++ separated "\n" c.sections ++ "\x7d\n"

/-! ## Declarations and modules -/

/-- A member of an interface, on a line of its own. -/
def memberLine (p : Property TypeExpr) : String :=
  indentation 1 ++ TypeExpr.printProperty p ++ ";\n"

/-- The text of a type declaration. -/
def TypeDecl.print (d : TypeDecl) : String :=
  match d.body with
  | .interfaceOf properties =>
    exportMark d.isExported ++ "interface " ++ d.name ++ typeParamsText d.typeParams
      ++ " \x7b\n" ++ String.join (properties.map memberLine) ++ "\x7d\n"
  | .aliasOf type =>
    exportMark d.isExported ++ "type " ++ d.name ++ typeParamsText d.typeParams ++ " = "
      ++ type.print ++ ";\n"

/-- The text of an import. -/
def Import.print (i : Import) : String :=
  "import " ++ (if i.typeOnly then "type " else "") ++ "\x7b " ++ separated ", " i.items
    ++ " \x7d from " ++ quoted i.source ++ ";\n"

/-- The text of a module: the imports, an empty line after them if there are any, each
type declaration with an empty line after it, and the classes. -/
def SourceModule.print (m : SourceModule) : String :=
  String.join (m.imports.map Import.print) ++ (if m.imports.isEmpty then "" else "\n")
    ++ String.join (m.types.map fun d => d.print ++ "\n")
    ++ String.join (m.classes.map ClassDecl.print)

end TypedClient.TypeScript
