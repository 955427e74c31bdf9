import TypedClient.TypeScript.Expr
import TypedClient.TypeScript.Printer.Type

/-!
# Printing expressions

An expression is printed at a level of indentation, which only spread object literals
use. What stands inside a template literal is printed at the outermost level.

## Main definitions

* `indentation`: the blanks of a level
* `Expr.printAt`, `Expr.print`: the text of an expression at a level, and at the
  outermost one
-/

namespace TypedClient.TypeScript

/-- The blanks at the beginning of a line, two for each level. -/
def indentation (level : Nat) : String :=
  String.ofList (List.replicate (2 * level) ' ')

/-- Literal text inside a template. -/
def templateText (s : String) : String :=
  String.ofList (Text.escapeTemplate s.toList)

/-- The entries of an object literal between braces: nothing inside for none, one entry
a line for a spread one, and all on one line otherwise. -/
def bracedEntries (level : Nat) (spread : Bool) (entries : List String) : String :=
  if entries.isEmpty then "\x7b\x7d"
  else if spread then
    "\x7b\n" ++ separated ",\n" (entries.map (indentation (level + 1) ++ ·)) ++ "\n"
      ++ indentation level ++ "\x7d"
  else "\x7b " ++ separated ", " entries ++ " \x7d"

/-- Whether an entry is written by its key alone: its value is the variable of the same
name. -/
def ObjectField.isShorthand (field : ObjectField Expr) : Bool :=
  match field.value with
  | .ident name => name == field.key
  | _ => false

namespace Expr

mutual

/-- The text of an expression at a level of indentation. -/
def printAt (level : Nat) : Expr → String
  | .ident name => name
  | .this => "this"
  | .literal value => printLiteral value
  | .member receiver name => printAt level receiver ++ "." ++ name
  | .element receiver key => printAt level receiver ++ "[" ++ quoted key ++ "]"
  | .object fields spread =>
    bracedEntries level spread (printFieldsAt (if spread then level + 1 else level) fields)
  | .template value => printTemplate value
  | .plus left right => printAt level left ++ " + " ++ printAt level right
  | .call function arguments =>
    printAt level function ++ "(" ++ separated ", " (printAllAt level arguments) ++ ")"

/-- The texts of several expressions. -/
def printAllAt (level : Nat) : List Expr → List String
  | [] => []
  | e :: es => printAt level e :: printAllAt level es

/-- The texts of several entries. -/
def printFieldsAt (level : Nat) : List (ObjectField Expr) → List String
  | [] => []
  | f :: fs => printFieldAt level f :: printFieldsAt level fs

/-- The text of an entry. -/
def printFieldAt (level : Nat) : ObjectField Expr → String
  | ⟨key, value⟩ =>
    if ObjectField.isShorthand ⟨key, value⟩ then key
    else keyText key ++ ": " ++ printAt level value

/-- The text of a template literal. -/
def printTemplate : Template Expr → String
  | ⟨head, spans⟩ => "`" ++ templateText head ++ printSpans spans ++ "`"

/-- The text of the substitutions of a template. -/
def printSpans : List (Span Expr) → String
  | [] => ""
  | s :: ss => printSpan s ++ printSpans ss

/-- The text of a substitution with the text after it. -/
def printSpan : Span Expr → String
  | ⟨expr, text⟩ => "$\x7b" ++ printAt 0 expr ++ "\x7d" ++ templateText text

end

/-- The text of an expression at the outermost level. -/
def print (e : Expr) : String :=
  printAt 0 e

end Expr

end TypedClient.TypeScript
