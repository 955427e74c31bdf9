import TypedClient.Number.Digits
import TypedClient.Yaml.Cursor

/-!
# YAML scalars

Scalars come without quotes, between quotes, and as indented blocks. Each form has its
own way to deal with the ends of lines in it.

## Main definitions

* `Yaml.scanPlain?`: a scalar without quotes
* `Yaml.scanQuoted?`: a scalar between single or double quotes
* `Yaml.scanBlock?`: an indented block, literal or folded
-/

namespace TypedClient.Yaml

/-! ## Blanks between words -/

/-- What stands between two words of a scalar: the blanks up to the first end of a line,
that end, and the ends of empty lines after it. -/
structure Gap where
  blanks : List Char := []
  first : Option (List Char) := none
  later : List Char := []

namespace Gap

/-- What a gap counts for: a single end of line for a space, more of them for all but the
first, and blanks within a line for themselves. -/
def fold (g : Gap) : List Char :=
  match g.first with
  | none => g.blanks
  | some first =>
    if first == ['\n'] then if g.later.isEmpty then [' '] else g.later
    else first ++ g.later

/-- Whether there is an end of a line in a gap. -/
def isBroken (g : Gap) : Bool :=
  g.first.isSome

/-- A gap with one more end of a line. -/
def addBreak (g : Gap) (text : List Char) : Gap :=
  match g.first with
  | none => { g with first := some text }
  | some _ => { g with later := g.later ++ text }

end Gap

/-- The gap at a place, which continues a given one. Tabulators may not stand before the
column `indent` of a further line. -/
def scanGap? (indent : Int) : Nat → Gap → Scan Gap
  | 0, _, _ => none
  | steps + 1, g, c =>
    if c.isBlank then
      if g.isBroken then
        if c.column < indent && c.isAt '\t' then none else scanGap? indent steps g c.next
      else
        scanGap? indent steps { g with blanks := g.blanks ++ c.rest.take 1 } c.next
    else if c.isBreak then scanGap? indent steps (g.addBreak c.breakText) c.nextLine
    else some (g, c)

/-! ## Plain scalars -/

/-- The characters that end a word inside brackets or braces. -/
def isFlowIndicator (c : Char) : Bool :=
  c == ',' || c == '[' || c == ']' || c == '\x7b' || c == '\x7d'

/-- The characters that may not come after a colon inside brackets. -/
def isBarredAfterColon (c : Char) : Bool :=
  c == '?' || isFlowIndicator c

/-- A word of a scalar without quotes. A colon ends it before a blank; inside brackets a
colon before some characters is an error. -/
def scanWord? (inFlow : Bool) : Nat → Scan (List Char)
  | 0, _ => none
  | steps + 1, c =>
    match c.peek? with
    | none => some ([], c)
    | some char =>
      if c.isSpaceAt 0 then some ([], c)
      else if inFlow && char == ':' && (c.peekAt? 1).any isBarredAfterColon then none
      else if char == ':' && c.isSpaceAt 1 then some ([], c)
      else if inFlow && isFlowIndicator char then some ([], c)
      else do
        let (word, rest) ← scanWord? inFlow steps c.next
        return (char :: word, rest)

/-- The rest of a scalar without quotes, after a gap, and whether its last gap holds an
end of a line. -/
def scanWords? (inFlow : Bool) (indent : Int) : Nat → Gap → Scan (List Char × Bool)
  | 0, _, _ => none
  | steps + 1, g, c =>
    if c.isAtDocumentMark || c.isAt '#' then some (([], g.isBroken), c)
    else do
      let (word, c) ← scanWord? inFlow (c.rest.length + 1) c
      let text := if word.isEmpty then [] else g.fold ++ word
      let g := if word.isEmpty then g else {}
      if !(c.isBlank || c.isBreak) then return ((text, g.isBroken), c)
      let (g, c) ← scanGap? indent (c.rest.length + 1) g c
      if !inFlow && c.column < indent then return ((text, g.isBroken), c)
      let ((more, broken), c) ← scanWords? inFlow indent steps g c
      return ((text ++ more, broken), c)

/-- A scalar without quotes, and whether an end of a line comes after it. The lines of a
scalar outside brackets are indented more than the structure around it. -/
def scanPlain? (inFlow : Bool) (indent : Int) : Scan (List Char × Bool) := fun c =>
  scanWords? inFlow (indent + 1) (c.rest.length + 1) {} c

/-! ## Quoted scalars -/

/-- The character of an escape with one letter. -/
def escape? : Char → Option Char
  | '0' => some '\x00'
  | 'a' => some '\x07'
  | 'b' => some '\x08'
  | 't' => some '\t'
  | '\t' => some '\t'
  | 'n' => some '\n'
  | 'v' => some '\x0b'
  | 'f' => some '\x0c'
  | 'r' => some '\r'
  | 'e' => some '\x1b'
  | ' ' => some ' '
  | '"' => some '"'
  | '/' => some '/'
  | '\\' => some '\\'
  | 'N' => some '\u0085'
  | '_' => some '\u00a0'
  | 'L' => some '\u2028'
  | 'P' => some '\u2029'
  | _ => none

/-- The number of hexadecimal digits of an escape. -/
def escapeLength? : Char → Option Nat
  | 'x' => some 2
  | 'u' => some 4
  | 'U' => some 8
  | _ => none

/-- The character of an escape, after the backslash. -/
def scanEscape? : Scan Char := fun c => do
  let letter ← c.peek?
  match escapeLength? letter with
  | none => return (← escape? letter, c.next)
  | some count =>
    let digits := (c.next.rest.take count)
    if digits.length < count then none
    let n ← Digits.value? 16 digits
    if h : n.isValidChar then return (Char.ofNatAux n h, c.skip (count + 1)) else none

/-- A word between quotes, and whether it ended at an escaped end of a line. -/
def scanQuotedWord? (single : Bool) : Nat → Scan (List Char × Bool)
  | 0, _ => none
  | steps + 1, c =>
    match c.peek? with
    | none => none
    | some char =>
      if c.isSpaceAt 0 then some (([], false), c)
      else if single then
        if char == '\'' then
          if c.peekAt? 1 == some '\'' then do
            let ((word, escaped), c) ← scanQuotedWord? single steps (c.skip 2)
            return (('\'' :: word, escaped), c)
          else some (([], false), c)
        else do
          let ((word, escaped), c) ← scanQuotedWord? single steps c.next
          return ((char :: word, escaped), c)
      else if char == '"' then some (([], false), c)
      else if char == '\\' then
        if c.next.isBreak then some (([], true), c.next.nextLine)
        else do
          let (d, c) ← scanEscape? c.next
          let ((word, escaped), c) ← scanQuotedWord? single steps c
          return ((d :: word, escaped), c)
      else do
        let ((word, escaped), c) ← scanQuotedWord? single steps c.next
        return ((char :: word, escaped), c)

/-- The rest of a quoted scalar, up to its closing quote. After an escaped end of a line
the blanks of the next one do not count. -/
def scanQuotedWords? (single : Bool) : Nat → Scan (List Char)
  | 0, _ => none
  | steps + 1, c =>
    if c.isAtDocumentMark then none
    else do
      let ((word, escaped), c) ← scanQuotedWord? single (c.rest.length + 1) c
      if c.isAt (if single then '\'' else '"') && !escaped then return (word, c.next)
      -- an escaped end of line counts for nothing, but the gap is broken by it
      let start : Gap := if escaped then { first := some [] } else {}
      let (g, c) ← scanGap? 0 (c.rest.length + 1) start c
      let (more, c) ← scanQuotedWords? single steps c
      return (word ++ g.fold ++ more, c)

/-- A scalar between quotes, at its opening quote. -/
def scanQuoted? (single : Bool) : Scan (List Char) := fun c =>
  scanQuotedWords? single (c.rest.length + 1) c.next

/-! ## Blocks -/

/-- What becomes of the ends of lines at the end of a block. -/
inductive Chomping
  | strip
  | clip
  | keep
  deriving DecidableEq, Repr

/-- An indicator of what becomes of the last ends of lines. -/
def scanChomping : Cursor → Chomping × Cursor := fun c =>
  if c.isAt '+' then (.keep, c.next)
  else if c.isAt '-' then (.strip, c.next)
  else (.clip, c)

/-- A digit from one to nine, which gives the indentation of a block. -/
def scanIncrement? : Scan (Option Nat) := fun c =>
  match c.peek? with
  | some char =>
    if char == '0' then none
    else if char.isDigit then some (some (char.toNat - '0'.toNat), c.next)
    else some (none, c)
  | none => some (none, c)

/-- The header of a block after its first character: the two indicators in either order,
and the rest of the line. -/
def scanBlockHeader? : Scan (Chomping × Option Nat) := fun c => do
  let (chomping, c) := scanChomping c
  let (increment, c) ← scanIncrement? c
  let (chomping, c) := if chomping == .clip then scanChomping c else (chomping, c)
  let c := c.skipWhile isBlank
  let c := if c.isAt '#' then c.skipWhile (!isBreak ·) else c
  if c.rest.isEmpty then return ((chomping, increment), c)
  if !c.isBreak then none
  return ((chomping, increment), c.nextLine)

/-- The empty lines at a place, up to the given column if there is one, as the ends of
lines, with the largest column that was reached. -/
def scanEmptyLines? (indent : Option Nat) : Nat → Nat → Scan (List Char × Nat)
  | 0, _, _ => none
  | steps + 1, reached, c =>
    let spaces := (c.rest.takeWhile (· == ' ')).length
    let room := match indent with
      | none => spaces
      | some n => min spaces (n - c.column)
    let c := c.skip room
    let reached := max reached c.column
    if c.isAt '\t' && (indent.map fun n => decide (c.column < n)).getD true then none
    else if c.isBreak then do
      let ((breaks, reached), rest) ← scanEmptyLines? indent steps reached c.nextLine
      return ((c.breakText ++ breaks, reached), rest)
    else some (([], reached), c)

/-- The lines of a block with their ends. The end of a line is pending until it is known
whether the next line is joined to it; lines that begin with a blank are not joined. -/
def scanBlockLines? (literal : Bool) (indent : Nat) (chomping : Chomping) :
    Nat → (pending breaks : List Char) → (afterBlank : Bool) → Scan (List Char)
  | 0, _, _, _, _ => none
  | steps + 1, pending, breaks, afterBlank, c =>
    if c.column == indent && !c.rest.isEmpty then do
      let blank := c.isBlank
      let joined := !literal && pending == ['\n'] && !afterBlank && !blank
      let start := if joined then (if breaks.isEmpty then [' '] else []) else pending
      let line := c.rest.takeWhile (!isBreak ·)
      let c := c.skip line.length
      let (pending, c) := if c.isBreak then (c.breakText, c.nextLine) else ([], c)
      let ((later, _), c) ← scanEmptyLines? (some indent) (c.rest.length + 1) 0 c
      let (more, c) ← scanBlockLines? literal indent chomping steps pending later blank c
      return (start ++ breaks ++ line ++ more, c)
    else
      let last := match chomping with
        | .strip => []
        | .clip => pending
        | .keep => pending ++ breaks
      some (last, c)

/-- A block, at its first character, inside a structure with the given indentation. The
indentation of the block is that of its first line that is not empty, unless its header
says it. -/
def scanBlock? (literal : Bool) (parent : Int) : Scan (List Char) := fun c => do
  let ((chomping, increment), c) ← scanBlockHeader? c.next
  let given := increment.map fun n => (max parent 0).toNat + n
  let ((breaks, reached), c) ← scanEmptyLines? given (c.rest.length + 1) 0 c
  let indent := given.getD (max reached (max (parent + 1) 1).toNat)
  scanBlockLines? literal indent chomping (c.rest.length + 1) [] breaks false c

end TypedClient.Yaml
