import TypedClient.Text.Split

/-!
# Identifiers

Names that may be written as they are in the generated program, and the method name
made from the id of an operation.

## Main definitions

* `Identifier.isValid`: letters, digits, `_` and `$`, no digit first
* `Identifier.reserved`: the words that no generated name may be
* `Identifier.ofIdWith`, `Identifier.ofId`: the name made from an id
-/

namespace TypedClient.Identifier

/-- The characters that may begin a name. -/
def isStart (c : Char) : Bool :=
  c.isAlpha || c == '_' || c == '$'

/-- The characters that may stand in a name. -/
def isPart (c : Char) : Bool :=
  c.isAlphanum || c == '_' || c == '$'

/-- Whether a sequence of characters is a name. -/
def isName : List Char → Bool
  | [] => false
  | c :: cs => isStart c && cs.all isPart

/-- A name that can stand after a period or as an unquoted key: not empty, ASCII
letters, digits, `_` and `$` only, no digit first. Reserved words are among them. -/
def isValid (name : String) : Bool :=
  isName name.toList

/-- The words of the language that no method may be called. -/
def reserved : List String :=
  ["break", "case", "catch", "class", "const", "continue", "debugger", "default", "delete",
    "do", "else", "enum", "export", "extends", "false", "finally", "for", "function", "if",
    "import", "in", "instanceof", "new", "null", "return", "super", "switch", "this", "throw",
    "true", "try", "typeof", "var", "void", "while", "with", "yield", "let", "static",
    "implements", "interface", "package", "private", "protected", "public", "await", "async"]

/-- Whether a word is reserved. -/
def isReserved (word : String) : Bool :=
  reserved.contains word

/-! ## Names from ids -/

/-- The characters that part the words of an id. -/
def isSeparator (c : Char) : Bool :=
  c == '-' || c == '.' || c == ' ' || c == '/'

/-- The ASCII content of the upper-case form of a character. Seventeen characters
outside ASCII have an upper-case form with ASCII letters in it, such as the sharp s,
whose form is two letters; a character outside ASCII stands for itself otherwise. -/
def upperCase (c : Char) : List Char :=
  match c.toNat with
  | 0xDF => ['S', 'S']
  | 0x131 => ['I']
  | 0x149 => ['N']
  | 0x17F => ['S']
  | 0x1F0 => ['J']
  | 0x1E96 => ['H']
  | 0x1E97 => ['T']
  | 0x1E98 => ['W']
  | 0x1E99 => ['Y']
  | 0x1E9A => ['A']
  | 0xFB00 => ['F', 'F']
  | 0xFB01 => ['F', 'I']
  | 0xFB02 => ['F', 'L']
  | 0xFB03 => ['F', 'F', 'I']
  | 0xFB04 => ['F', 'F', 'L']
  | 0xFB05 => ['S', 'T']
  | 0xFB06 => ['S', 'T']
  | _ => [c.toUpper]

/-- A word with its first character in upper case. -/
def capitalize (upper : Char → List Char) : List Char → List Char
  | [] => []
  | c :: cs => upper c ++ cs

/-- The words of an id, every word after the first capitalized, written together. -/
def joinWords (upper : Char → List Char) (id : List Char) : List Char :=
  match (Text.pieces isSeparator id).filter (!·.isEmpty) with
  | [] => []
  | word :: words => word ++ words.flatMap (capitalize upper)

/-- A text of name characters made a name that is not reserved: `_empty` for the empty
text, and an underscore before a digit or a reserved word. -/
def complete (cs : List Char) : List Char :=
  match cs with
  | [] => "_empty".toList
  | c :: _ =>
    if c.isDigit || isReserved (String.ofList cs) then '_' :: cs else cs

/-- The name made from an id, for any upper-case mapping: the words between the
separators are joined with capitals, what cannot stand in a name is dropped, and the
rest is completed to a name. -/
def ofIdWith (upper : Char → List Char) (id : String) : String :=
  String.ofList (complete ((joinWords upper id.toList).filter isPart))

/-- The name made from an id. -/
def ofId (id : String) : String :=
  ofIdWith upperCase id

end TypedClient.Identifier
