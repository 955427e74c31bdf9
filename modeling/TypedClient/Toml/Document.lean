import TypedClient.Toml.Lexeme
import TypedClient.Toml.Value

/-!
# TOML documents

A document is a list of lines: key-value lines and headers, which say which table the
lines after them belong to.

## Main definitions

* `Toml.readValue?`: a value
* `Toml.Line`, `Toml.readLines`: the lines of a document
* `Toml.ofText?`: the table of a document
-/

namespace TypedClient.Toml

/-! ## Values -/

/-- A value that is a single lexeme. What begins like a date is read as one, and what
begins like a number with a fraction as such, before it is taken for an integer. -/
def readScalarValue? (cs : List Char) : Option (Toml × List Char) :=
  match cs with
  | '"' :: _ | '\'' :: _ => (fun (s, rest) => (.string s, rest)) <$> readString? cs
  | 't' :: 'r' :: 'u' :: 'e' :: rest => some (.bool true, rest)
  | 'f' :: 'a' :: 'l' :: 's' :: 'e' :: rest => some (.bool false, rest)
  | _ =>
    match readDatetime? cs with
    | some (text, rest) => some (.datetime text, rest)
    | none =>
      match readFloat? cs with
      | some (value, rest) => some (.float (Decimal.text value), rest)
      | none => (fun (n, rest) => (.integer n, rest)) <$> readInteger? cs

/-- The table of the key-value pairs between braces. -/
def tableOf? (pairs : List (List String × Toml)) : Option Toml := do
  let t ← pairs.foldlM (fun t (path, value) => Table.define path value t) {}
  return .table (finishEntries t.entries)

mutual

/-- A value, where arrays and tables may still be nested `depth` deep. The steps bound
the number of values in it. -/
def readValue? (depth : Nat) : Nat → Scan Toml
  | 0, _ => none
  | steps + 1, cs =>
    match cs with
    | '[' :: cs =>
      match depth with
      | 0 => none
      | d + 1 => do
        let (items, rest) ← readItems? d steps cs
        return (.array items, rest)
    | '\x7b' :: cs =>
      match depth with
      | 0 => none
      | d + 1 =>
        match skipBlanks cs with
        | '\x7d' :: rest => some (.table [], rest)
        | cs => do
          let (pairs, rest) ← readPairs? d steps cs
          return (← tableOf? pairs, rest)
    | cs => readScalarValue? cs

/-- The items of an array up to its closing bracket; a comma may stand after the last
one, and ends of lines and comments anywhere between them. -/
def readItems? (depth : Nat) : Nat → Scan (List Toml)
  | 0, _ => none
  | steps + 1, cs =>
    match skipSpace cs.length cs with
    | ']' :: rest => some ([], rest)
    | cs => do
      let (item, cs) ← readValue? depth steps cs
      match skipSpace cs.length cs with
      | ']' :: rest => return ([item], rest)
      | ',' :: cs =>
        let (items, rest) ← readItems? depth steps cs
        return (item :: items, rest)
      | _ => none

/-- The key-value pairs of a table up to its closing brace, all on one line. -/
def readPairs? (depth : Nat) : Nat → Scan (List (List String × Toml))
  | 0, _ => none
  | steps + 1, cs => do
    let (path, cs) ← readKey? cs
    let cs ← readChar? '=' cs
    let (value, cs) ← readValue? depth steps (skipBlanks cs)
    match skipBlanks cs with
    | '\x7d' :: rest => return ([(path, value)], rest)
    | ',' :: cs =>
      let (pairs, rest) ← readPairs? depth steps cs
      return ((path, value) :: pairs, rest)
    | _ => none

end

/-! ## Lines -/

/-- A line that says something: a value for a key, the name of a table, or the name of an
array of tables. -/
inductive Line
  | pair (path : List String) (value : Toml)
  | table (path : List String)
  | element (path : List String)

/-- A line that says something, and what comes after it. -/
def readStatement? : Scan Line
  | '[' :: '[' :: cs => do
    let (path, cs) ← readKey? cs
    let cs ← readChar? ']' cs
    let cs ← readChar? ']' cs
    return (.element path, ← readLineEnd? cs)
  | '[' :: cs => do
    let (path, cs) ← readKey? cs
    let cs ← readChar? ']' cs
    return (.table path, ← readLineEnd? cs)
  | cs => do
    let (path, cs) ← readKey? cs
    let cs ← readChar? '=' cs
    let (value, cs) ← readValue? depthLimit (2 * cs.length + 2) (skipBlanks cs)
    return (.pair path value, ← readLineEnd? cs)

/-- The lines of a text, of which at most `steps` are read. -/
def readDocument? : Nat → List Char → Option (List Line)
  | 0, cs => if cs.isEmpty then some [] else none
  | steps + 1, cs =>
    match skipBlanks cs with
    | [] => some []
    | cs =>
      match readLineEnd? cs with
      | some rest => readDocument? steps rest
      | none => do
        let (line, rest) ← readStatement? cs
        return line :: (← readDocument? steps rest)

/-- A table with the lines of a document, of which the first ones belong to the table
with the given name. -/
def build? (name : List String) (t : Table) : List Line → Option Table
  | [] => some t
  | .pair path value :: lines => do
    build? name (← Table.update false (Table.define path value) name t) lines
  | .table path :: lines => do build? path (← Table.openTable path t) lines
  | .element path :: lines => do build? path (← Table.openElement path t) lines

/-- The entries of the table of a document. A byte order mark at its beginning does not
count. -/
def ofText? (text : String) : Option (List (String × Toml)) := do
  let cs := match text.toList with
    | '\ufeff' :: cs => cs
    | cs => cs
  let lines ← readDocument? (cs.length + 1) cs
  return finishEntries (← build? [] {} lines).entries

end TypedClient.Toml
