/-!
# Places in a YAML text

A reader of a YAML text has to know the line and the column it is at, because indentation
is part of the structure.

## Main definitions

* `Yaml.Cursor`: a place, with the text that is left
* `Yaml.isBreak`, `Yaml.isBlank`: the classes of characters between the words
* `Yaml.byteOrderMark`: a character that may stand at the beginning of a line
-/

namespace TypedClient.Yaml

/-- The characters that end a line. -/
def isBreak (c : Char) : Bool :=
  c == '\n' || c == '\r' || c == '\u0085' || c == '\u2028' || c == '\u2029'

/-- The blanks within a line. -/
def isBlank (c : Char) : Bool :=
  c == ' ' || c == '\t'

/-- The byte order mark, which may stand at the beginning of a line. -/
def byteOrderMark : Char := '\ufeff'

/-- The characters a text may consist of. -/
def isAllowed (c : Char) : Bool :=
  let n := c.toNat
  n == 0x09 || n == 0x0A || n == 0x0D || (0x20 ≤ n && n ≤ 0x7E) || n == 0x85
    || (0xA0 ≤ n && n ≤ 0xFFFD) || 0x10000 ≤ n

/-- A place in a text: what is left of the text, and where it begins. -/
structure Cursor where
  rest : List Char
  line : Nat := 0
  column : Nat := 0
  index : Nat := 0

namespace Cursor

/-- The next character. -/
def peek? (c : Cursor) : Option Char :=
  c.rest.head?

/-- The character after the next `n` ones. -/
def peekAt? (c : Cursor) (n : Nat) : Option Char :=
  c.rest[n]?

/-- Whether the next character is the given one. -/
def isAt (c : Cursor) (char : Char) : Bool :=
  c.peek? == some char

/-- Whether the character after the next `n` ones is a blank, ends a line, or is not
there. -/
def isSpaceAt (c : Cursor) (n : Nat) : Bool :=
  match c.peekAt? n with
  | none => true
  | some char => isBlank char || isBreak char

/-- Whether the next character is a blank. -/
def isBlank (c : Cursor) : Bool :=
  (c.peek?.map Yaml.isBlank).getD false

/-- Whether the next character ends a line. -/
def isBreak (c : Cursor) : Bool :=
  (c.peek?.map Yaml.isBreak).getD false

/-- The place after one character that does not end a line. -/
def next (c : Cursor) : Cursor :=
  { c with rest := c.rest.tail, column := c.column + 1, index := c.index + 1 }

/-- The place after several characters of a line. -/
def skip (c : Cursor) (n : Nat) : Cursor :=
  { c with rest := c.rest.drop n, column := c.column + n, index := c.index + n }

/-- The place after the end of a line, a carriage return and a line feed being one. -/
def nextLine (c : Cursor) : Cursor :=
  let n := match c.rest with
    | '\r' :: '\n' :: _ => 2
    | _ => 1
  { rest := c.rest.drop n, line := c.line + 1, column := 0, index := c.index + n }

/-- What the end of a line counts for in a scalar: a line feed, if it is not one of the
two separators of Unicode. -/
def breakText (c : Cursor) : List Char :=
  match c.rest with
  | '\u2028' :: _ => ['\u2028']
  | '\u2029' :: _ => ['\u2029']
  | _ => ['\n']

/-- The place after the characters of a class. -/
def skipWhile (p : Char → Bool) (c : Cursor) : Cursor :=
  c.skip (c.rest.takeWhile p).length

/-- Whether a mark of three equal characters stands here as a word at the beginning of a
line. -/
def isAtMark (c : Cursor) (char : Char) : Bool :=
  c.column == 0 && c.rest.take 3 == [char, char, char] && c.isSpaceAt 3

/-- Whether a document begins or ends here. -/
def isAtDocumentMark (c : Cursor) : Bool :=
  c.isAtMark '-' || c.isAtMark '.'

end Cursor

/-- A reader at a place, with the place after what was read. -/
abbrev Scan (α : Type) := Cursor → Option (α × Cursor)

end TypedClient.Yaml
