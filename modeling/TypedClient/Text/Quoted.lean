/-!
# Quoted text

The two written forms of a string in a program text: between double quotes, and
between the backticks of a template.

## Main definitions

* `Text.escapeQuoted`: the inside of a double-quoted string
* `Text.escapeTemplate`: the inside of a template literal
* `Text.escapeComment`: a line inside a block comment
-/

namespace TypedClient.Text

/-- A backslash, a double quote and the two line breaks are written with a backslash,
all other characters as themselves. -/
def escapeQuotedChar : Char → List Char
  | '\\' => ['\\', '\\']
  | '"' => ['\\', '"']
  | '\n' => ['\\', 'n']
  | '\r' => ['\\', 'r']
  | c => [c]

/-- The inside of a double-quoted string. -/
def escapeQuoted (s : List Char) : List Char :=
  s.flatMap escapeQuotedChar

@[simp]
theorem escapeQuoted_nil : escapeQuoted [] = [] := rfl

@[simp]
theorem escapeQuoted_cons (c : Char) (s : List Char) :
    escapeQuoted (c :: s) = escapeQuotedChar c ++ escapeQuoted s := rfl

/-- The inside of a template literal: a backslash goes before a backslash, before a
backtick and before the dollar sign of a dollar sign and an opening brace. -/
def escapeTemplate : List Char → List Char
  | [] => []
  | '$' :: '\x7b' :: s => '\\' :: '$' :: '\x7b' :: escapeTemplate s
  | '\\' :: s => '\\' :: '\\' :: escapeTemplate s
  | '\x60' :: s => '\\' :: '\x60' :: escapeTemplate s
  | c :: s => c :: escapeTemplate s

/-- A line inside a block comment: a backslash parts every star from a slash after it,
so that the line cannot end the comment. -/
def escapeComment : List Char → List Char
  | [] => []
  | '*' :: '/' :: s => '*' :: '\\' :: '/' :: escapeComment s
  | c :: s => c :: escapeComment s

end TypedClient.Text
