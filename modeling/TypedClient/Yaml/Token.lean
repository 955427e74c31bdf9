import TypedClient.Yaml.Scalar
import TypedClient.Yaml.Tag

/-!
# YAML tokens

A text is cut into tokens. Indentation becomes tokens that begin and end a structure, and
a key that is followed by a colon is marked as such after it has been read, as long as
the colon is on the same line and not too far away.

## Main definitions

* `Yaml.Token`: the tokens
* `Yaml.Scanner`: the state of the cutting
* `Yaml.tokens?`: the tokens of a text
-/

namespace TypedClient.Yaml

/-- How a scalar is written: without quotes, between quotes, or as a block whose lines
are kept or joined. -/
inductive Style
  | plain
  | quoted
  | literal
  | folded
  deriving DecidableEq, Repr

/-- A token. -/
inductive Token
  | directive (directive : Directive)
  | documentStart
  | documentEnd
  | blockSequence
  | blockMapping
  | blockEnd
  | flowSequence
  | flowSequenceEnd
  | flowMapping
  | flowMappingEnd
  | blockEntry
  | flowEntry
  | key
  | value
  | anchor (name : String)
  /-- The node of an anchor once more. -/
  | reference (name : String)
  | tag (text : TagText)
  | scalar (style : Style) (text : String)
  deriving DecidableEq, Repr

/-- A token that becomes a key if a colon follows: the number of tokens before it, its
place, and whether it must be a key because nothing else can stand there. -/
structure PossibleKey where
  position : Nat
  line : Nat
  column : Nat
  index : Nat
  required : Bool

/-- The state of the cutting: the place, the tokens so far with the last one first, the
columns of the open structures, the depth of brackets and braces, whether a key may begin
here, and the possible key at each depth. -/
structure Scanner where
  cursor : Cursor
  tokens : List Token := []
  indent : Int := -1
  indents : List Int := []
  depth : Nat := 0
  keyAllowed : Bool := true
  keys : List (Option PossibleKey) := [none]

namespace Scanner

/-- Whether the place is inside brackets or braces. -/
def inFlow (s : Scanner) : Bool :=
  0 < s.depth

/-- The state with one more token. -/
def push (s : Scanner) (t : Token) : Scanner :=
  { s with tokens := t :: s.tokens }

/-- The state with one more token in front of all but the first `position` ones. -/
def pushAt (s : Scanner) (position : Nat) (t : Token) : Scanner :=
  let later := s.tokens.length - position
  { s with tokens := s.tokens.take later ++ t :: s.tokens.drop later }

/-! ## Indentation -/

/-- The state in which a structure at a column is open. -/
def openBlock (s : Scanner) (column : Nat) (position : Nat) (t : Token) : Scanner :=
  if !s.inFlow && s.indent < column then
    { s.pushAt position t with indents := s.indent :: s.indents, indent := column }
  else s

/-- The tokens that end the structures to the right of a column. -/
def closeAll (column : Int) (s : Scanner) : List Int → Scanner
  | [] => s
  | outer :: rest =>
    if column < s.indent then
      closeAll column { s.push .blockEnd with indent := outer, indents := rest } rest
    else s

/-- The state after the structures to the right of a column have ended. -/
def close (s : Scanner) (column : Int) : Scanner :=
  if s.inFlow then s else closeAll column s s.indents

/-! ## Possible keys -/

/-- The possible key at this depth. -/
def possibleKey? (s : Scanner) : Option PossibleKey :=
  s.keys.head?.join

/-- The state with a possible key at this depth. -/
def setKey (s : Scanner) (key : Option PossibleKey) : Scanner :=
  { s with keys := key :: s.keys.tail }

/-- The state without a possible key at this depth, an error if it must be one. -/
def dropKey? (s : Scanner) : Option Scanner :=
  match s.possibleKey? with
  | some key => if key.required then none else some (s.setKey none)
  | none => some s

/-- Whether a colon can no longer make a key: it is on another line, or too far away. -/
def isStale (c : Cursor) (key : PossibleKey) : Bool :=
  key.line < c.line || key.index + 1024 < c.index

/-- The state without the possible keys that are too far away. -/
def dropStale? (s : Scanner) : Option Scanner := do
  let keys ← s.keys.mapM fun key =>
    match key with
    | some k => if isStale s.cursor k then (if k.required then none else some none) else some key
    | none => some none
  return { s with keys }

/-- The state in which the next token is a possible key, if one may begin here. -/
def saveKey? (s : Scanner) : Option Scanner :=
  if s.keyAllowed then do
    let s ← s.dropKey?
    return s.setKey (some {
      position := s.tokens.length
      line := s.cursor.line
      column := s.cursor.column
      index := s.cursor.index
      required := !s.inFlow && s.indent == s.cursor.column })
  else some s

/-! ## Single tokens -/

/-- The state after a token of `n` characters. -/
def take (s : Scanner) (n : Nat) (t : Token) : Scanner :=
  { s.push t with cursor := s.cursor.skip n }

/-- A mark between documents. -/
def mark? (s : Scanner) (t : Token) : Option Scanner := do
  let s ← (s.close (-1)).dropKey?
  return { s.take 3 t with keyAllowed := false }

/-- A line in front of a document. -/
def directive? (s : Scanner) : Option Scanner := do
  let s ← (s.close (-1)).dropKey?
  let (directive, c) ← scanDirective? s.cursor
  return { s.push (.directive directive) with cursor := c, keyAllowed := false }

/-- The beginning of a structure in brackets or braces. -/
def openFlow? (s : Scanner) (t : Token) : Option Scanner := do
  let s ← s.saveKey?
  return { s.take 1 t with depth := s.depth + 1, keys := none :: s.keys, keyAllowed := true }

/-- The end of a structure in brackets or braces. -/
def closeFlow? (s : Scanner) (t : Token) : Option Scanner := do
  let s ← s.dropKey?
  let keys := if s.inFlow then s.keys.tail else s.keys
  return { s.take 1 t with depth := s.depth - 1, keys, keyAllowed := false }

/-- A comma inside brackets or braces. -/
def flowEntry? (s : Scanner) : Option Scanner := do
  let s ← s.dropKey?
  return { s.take 1 .flowEntry with keyAllowed := true }

/-- A dash before an item. -/
def blockEntry? (s : Scanner) : Option Scanner := do
  if !s.inFlow && !s.keyAllowed then none
  let s ← (s.openBlock s.cursor.column s.tokens.length .blockSequence).dropKey?
  return { s.take 1 .blockEntry with keyAllowed := true }

/-- A question mark before a key. -/
def key? (s : Scanner) : Option Scanner := do
  if !s.inFlow && !s.keyAllowed then none
  let s ← (s.openBlock s.cursor.column s.tokens.length .blockMapping).dropKey?
  return { s.take 1 .key with keyAllowed := !s.inFlow }

/-- A colon before a value, which makes the possible key at this depth a key. -/
def value? (s : Scanner) : Option Scanner := do
  match s.possibleKey? with
  | some key =>
    -- the tokens of the key are there already; the marks go in front of them
    let s := (s.pushAt key.position .key).openBlock key.column key.position .blockMapping
    return { (s.setKey none).take 1 .value with keyAllowed := false }
  | none =>
    if !s.inFlow && !s.keyAllowed then none
    let s := s.openBlock s.cursor.column s.tokens.length .blockMapping
    return { s.take 1 .value with keyAllowed := !s.inFlow }

/-- An anchor or the node of one, after its first character. A blank or an indicator
comes after the name. -/
def anchor? (s : Scanner) (make : String → Token) : Option Scanner := do
  let s ← s.saveKey?
  let name := s.cursor.next.rest.takeWhile isNameChar
  let after := s.cursor.skip (name.length + 1)
  let ends := after.isSpaceAt 0
    || (after.peek?.map fun c => "?:,]\x7d%@`".toList.contains c).getD true
  if name.isEmpty || !ends then none
  return { s.take (name.length + 1) (make (String.ofList name)) with keyAllowed := false }

/-- A tag, with a blank after it, or a comma inside brackets. -/
def tag? (s : Scanner) : Option Scanner := do
  let s ← s.saveKey?
  let (text, c) ← scanTag? s.cursor
  if !(c.isSpaceAt 0 || (s.inFlow && c.isAt ',')) then none
  return { s.push (.tag text) with cursor := c, keyAllowed := false }

/-- An indented block. -/
def block? (s : Scanner) (literal : Bool) : Option Scanner := do
  let s ← s.dropKey?
  let (text, c) ← scanBlock? literal s.indent s.cursor
  let style := if literal then .literal else .folded
  return { s.push (.scalar style (String.ofList text)) with cursor := c, keyAllowed := true }

/-- A scalar between quotes. -/
def quoted? (s : Scanner) (single : Bool) : Option Scanner := do
  let s ← s.saveKey?
  let (text, c) ← scanQuoted? single s.cursor
  return { s.push (.scalar .quoted (String.ofList text)) with cursor := c, keyAllowed := false }

/-- A scalar without quotes. After it a key may begin if it ended with its line. -/
def plain? (s : Scanner) : Option Scanner := do
  let s ← s.saveKey?
  let ((text, broken), c) ← scanPlain? s.inFlow s.indent s.cursor
  return { s.push (.scalar .plain (String.ofList text)) with cursor := c, keyAllowed := broken }

/-! ## All tokens -/

/-- The state at the next token: after blanks, comments and ends of lines. Tabulators do
not count as blanks where a key may begin, and a byte order mark takes up a column at the
beginning of a line. -/
def skipSpace : Nat → Scanner → Scanner
  | 0, s => s
  | steps + 1, s =>
    let isGap := fun c => c == ' ' || (c == '\t' && (s.inFlow || !s.keyAllowed))
    let c := s.cursor
    let c := if c.column == 0 && c.isAt byteOrderMark then c.next else c
    let c := c.skipWhile isGap
    let c := if c.isAt '#' then c.skipWhile (!isBreak ·) else c
    if c.isBreak then
      skipSpace steps { s with cursor := c.nextLine, keyAllowed := s.keyAllowed || !s.inFlow }
    else { s with cursor := c }

/-- The characters that cannot begin a scalar without quotes. -/
def isIndicator (c : Char) : Bool :=
  "-?:,[]\x7b\x7d#&*!|>'\"%@`".toList.contains c

/-- Whether a scalar without quotes begins here: with a character that is neither a
blank nor an indicator, or with a dash, a question mark or a colon that is not one. -/
def beginsPlain (s : Scanner) (char : Char) : Bool :=
  let c := s.cursor
  (!c.isSpaceAt 0 && !isIndicator char)
    || (char == '-' && !(c.peekAt? 1).any isBlank)
    || (!s.inFlow && (char == '?' || char == ':') && !c.isSpaceAt 1)

/-- The state after the next token, which begins with a given character. -/
def token? (s : Scanner) (char : Char) : Option Scanner :=
  let c := s.cursor
  if c.column == 0 && char == '%' then s.directive?
  else if c.isAtMark '-' then s.mark? .documentStart
  else if c.isAtMark '.' then s.mark? .documentEnd
  else if char == '[' then s.openFlow? .flowSequence
  else if char == '\x7b' then s.openFlow? .flowMapping
  else if char == ']' then s.closeFlow? .flowSequenceEnd
  else if char == '\x7d' then s.closeFlow? .flowMappingEnd
  else if char == ',' then s.flowEntry?
  else if char == '-' && c.isSpaceAt 1 then s.blockEntry?
  else if char == '?' && (s.inFlow || c.isSpaceAt 1) then s.key?
  else if char == ':' && (s.inFlow || c.isSpaceAt 1) then s.value?
  else if char == '*' then s.anchor? .reference
  else if char == '&' then s.anchor? .anchor
  else if char == '!' then s.tag?
  else if char == '|' && !s.inFlow then s.block? true
  else if char == '>' && !s.inFlow then s.block? false
  else if char == '\'' then s.quoted? true
  else if char == '"' then s.quoted? false
  else if s.beginsPlain char then s.plain?
  else none

/-- The tokens up to the end of the text, of which at most `steps` are read. -/
def run? : Nat → Scanner → Option (List Token)
  | 0, _ => none
  | steps + 1, s => do
    -- blanks first, because a key is out of reach once its line has ended
    let s ← (skipSpace (s.cursor.rest.length + 1) s).dropStale?
    match s.cursor.peek? with
    | none =>
      let s ← (s.close (-1)).dropKey?
      return s.tokens.reverse
    | some char => run? steps (← (s.close s.cursor.column).token? char)

end Scanner

/-- The tokens of a text. -/
def tokens? (text : String) : Option (List Token) := do
  let cs := text.toList
  if !cs.all isAllowed then none
  Scanner.run? (cs.length + 1) { cursor := { rest := cs } }

end TypedClient.Yaml
