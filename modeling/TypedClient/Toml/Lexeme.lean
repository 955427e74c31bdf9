import TypedClient.Number.Decimal
import TypedClient.Number.Digits

/-!
# TOML lexemes

Keys, strings, numbers and points in time. Each reader takes what it reads from the
beginning of a text and returns the rest; it fails on anything else.

## Main definitions

* `Toml.readKey?`: a dotted key
* `Toml.readString?`: a string of any of the four kinds
* `Toml.readInteger?`, `Toml.readFloat?`, `Toml.readDatetime?`
-/

namespace TypedClient.Toml

/-- A reader of the beginning of a text, with the rest as its second result. -/
abbrev Scan (α : Type) := List Char → Option (α × List Char)

/-! ## Blanks and ends of lines -/

/-- The blanks within a line. -/
def isBlank (c : Char) : Bool :=
  c == ' ' || c == '\t'

/-- The characters that may stand in a comment or a string besides escapes: no control
characters but the tabulator. -/
def isPrintable (c : Char) : Bool :=
  c == '\t' || (0x20 ≤ c.toNat && c.toNat != 0x7F)

/-- A text without the blanks at its beginning. -/
def skipBlanks (cs : List Char) : List Char :=
  cs.dropWhile isBlank

/-- The end of a line. -/
def readNewline? : List Char → Option (List Char)
  | '\n' :: cs => some cs
  | '\r' :: '\n' :: cs => some cs
  | _ => none

/-- The rest of a line after its content: blanks, perhaps a comment, and the end of the
line or of the text. -/
def readLineEnd? (cs : List Char) : Option (List Char) :=
  let cs := skipBlanks cs
  let cs := match cs with
    | '#' :: comment => comment.dropWhile isPrintable
    | _ => cs
  if cs.isEmpty then some [] else readNewline? cs

/-- A text after blanks, ends of lines and comments, for places where they do not
matter. -/
def skipSpace : Nat → List Char → List Char
  | 0, cs => cs
  | steps + 1, cs =>
    match skipBlanks cs with
    | '#' :: comment => skipSpace steps (comment.dropWhile isPrintable)
    | cs =>
      match readNewline? cs with
      | some rest => skipSpace steps rest
      | none => cs

/-! ## Strings -/

/-- The character with a number given by so many hexadecimal digits. -/
def readScalar? (count : Nat) (cs : List Char) : Option (Char × List Char) := do
  if (cs.take count).length < count then none
  let n ← Digits.value? 16 (cs.take count)
  if h : n.isValidChar then some (Char.ofNatAux n h, cs.drop count) else none

/-- The character of an escape, after the backslash. -/
def readEscape? : List Char → Option (Char × List Char)
  | 'b' :: cs => some ('\x08', cs)
  | 't' :: cs => some ('\t', cs)
  | 'n' :: cs => some ('\n', cs)
  | 'f' :: cs => some ('\x0c', cs)
  | 'r' :: cs => some ('\r', cs)
  | '"' :: cs => some ('"', cs)
  | '\\' :: cs => some ('\\', cs)
  | 'u' :: cs => readScalar? 4 cs
  | 'U' :: cs => readScalar? 8 cs
  | _ => none

/-- A string on one line after its opening quote. Escapes count in strings between double
quotes only. -/
def readLine? (quote : Char) : Nat → Scan (List Char)
  | 0, _ => none
  | _, [] => none
  | steps + 1, c :: cs =>
    if c == quote then some ([], cs)
    else if c == '\\' && quote == '"' then do
      let (d, cs) ← readEscape? cs
      let (ds, rest) ← readLine? quote steps cs
      return (d :: ds, rest)
    else if isPrintable c then do
      let (ds, rest) ← readLine? quote steps cs
      return (c :: ds, rest)
    else none

/-- A text without the blanks and the ends of lines at its beginning. -/
def skipBlankLines : List Char → List Char
  | '\r' :: '\n' :: cs => skipBlankLines cs
  | c :: cs => if isBlank c || c == '\n' then skipBlankLines cs else c :: cs
  | [] => []

/-- What follows a backslash at the end of a line: blanks and ends of lines, at least one
of the latter. -/
def skipFolded? (cs : List Char) : Option (List Char) :=
  skipBlankLines <$> readNewline? (skipBlanks cs)

/-- A string over several lines after its opening quotes. Up to two quotes may stand
together in it, also before the closing ones. -/
def readLines? (quote : Char) : Nat → Scan (List Char)
  | 0, _ => none
  | _, [] => none
  | steps + 1, c :: cs =>
    if c == quote then
      -- three quotes end the string, and up to two before them belong to it
      let more := cs.takeWhile (· == quote)
      let inside := if more.length < 2 then more.length + 1 else min (more.length - 2) 2
      if more.length < 2 then do
        let (ds, rest) ← readLines? quote steps (cs.drop more.length)
        return (List.replicate inside quote ++ ds, rest)
      else some (List.replicate inside quote, cs.drop (inside + 2))
    else if c == '\\' && quote == '"' then
      match skipFolded? cs with
      | some cs => readLines? quote steps cs
      | none => do
        let (d, cs) ← readEscape? cs
        let (ds, rest) ← readLines? quote steps cs
        return (d :: ds, rest)
    else
      match readNewline? (c :: cs) with
      | some cs => do
        let (ds, rest) ← readLines? quote steps cs
        return ('\n' :: ds, rest)
      | none =>
        if isPrintable c then do
          let (ds, rest) ← readLines? quote steps cs
          return (c :: ds, rest)
        else none

/-- A string over several lines; an end of line right after the opening quotes does not
count. -/
def readMultiline? (quote : Char) (cs : List Char) : Option (String × List Char) := do
  let cs := (readNewline? cs).getD cs
  let (ds, rest) ← readLines? quote (cs.length + 1) cs
  return (String.ofList ds, rest)

/-- A string on one line. -/
def readSingle? (quote : Char) (cs : List Char) : Option (String × List Char) := do
  let (ds, rest) ← readLine? quote (cs.length + 1) cs
  return (String.ofList ds, rest)

/-- A string of any kind. -/
def readString? : Scan String
  | '"' :: '"' :: '"' :: cs => readMultiline? '"' cs
  | '\'' :: '\'' :: '\'' :: cs => readMultiline? '\'' cs
  | '"' :: cs => readSingle? '"' cs
  | '\'' :: cs => readSingle? '\'' cs
  | _ => none

/-! ## Keys -/

/-- The characters of a key without quotes. -/
def isBare (c : Char) : Bool :=
  c.isAlphanum || c == '_' || c == '-'

/-- One part of a key. -/
def readKeyPart? : Scan String
  | '"' :: cs => readSingle? '"' cs
  | '\'' :: cs => readSingle? '\'' cs
  | cs =>
    let key := cs.takeWhile isBare
    if key.isEmpty then none else some (String.ofList key, cs.dropWhile isBare)

/-- The parts of a dotted key with the blanks around it, at most `steps` of them. -/
def readKeyParts? : Nat → Scan (List String)
  | 0, _ => none
  | steps + 1, cs => do
    let (part, cs) ← readKeyPart? (skipBlanks cs)
    match skipBlanks cs with
    | '.' :: cs =>
      let (parts, rest) ← readKeyParts? steps cs
      return (part :: parts, rest)
    | rest => return ([part], rest)

/-- The largest number of parts of a key, and the largest depth of a value. -/
def depthLimit : Nat := 79

/-- A dotted key with the blanks around it. -/
def readKey? : Scan (List String) :=
  readKeyParts? depthLimit

/-! ## Numbers -/

/-- Digits of a base, in groups parted by single underscores. -/
def readDigits? (base : Nat) (cs : List Char) : Option (List Char × List Char) :=
  let isDigit := fun c => (Digits.digit? base c).isSome
  let run := cs.takeWhile fun c => isDigit c || c == '_'
  let ok := run.head?.any isDigit && run.getLast?.any isDigit
    && !(run.zip run.tail).any fun (a, b) => a == '_' && b == '_'
  if ok then some (run.filter (· != '_'), cs.drop run.length) else none

/-- A sign, if there is one: whether it is a minus sign. -/
def readSign : List Char → Option Bool × List Char
  | '-' :: cs => (some true, cs)
  | '+' :: cs => (some false, cs)
  | cs => (none, cs)

/-- Decimal digits without a zero before another digit. -/
def readDecimal? (cs : List Char) : Option (List Char × List Char) := do
  let (digits, rest) ← readDigits? 10 cs
  match digits with
  | '0' :: _ :: _ => none
  | _ => some (digits, rest)

/-- An integer of 64 bits: in decimal with an optional sign, or without a sign in base
sixteen, eight or two. -/
def readInteger? (cs : List Char) : Option (Int × List Char) :=
  let inBase := fun (base : Nat) (cs : List Char) => do
    let (digits, rest) ← readDigits? base cs
    let n ← Digits.value? base digits
    if n < Nat.pow 2 63 then some ((n : Int), rest) else none
  match cs with
  | '0' :: 'x' :: cs => inBase 16 cs
  | '0' :: 'o' :: cs => inBase 8 cs
  | '0' :: 'b' :: cs => inBase 2 cs
  | cs => do
    let (minus, cs) := readSign cs
    let (digits, rest) ← readDecimal? cs
    let n := Decimal.digitsValue digits
    if minus == some true then
      if n ≤ Nat.pow 2 63 then some (-(n : Int), rest) else none
    else if n < Nat.pow 2 63 then some ((n : Int), rest)
    else none

/-- The digits after a point, if there is one. -/
def readFraction? : Scan (Option (List Char))
  | '.' :: cs => do
    let (digits, rest) ← readDigits? 10 cs
    return (some digits, rest)
  | cs => some (none, cs)

/-- The exponent, if there is one. -/
def readExponent? : Scan (Option Int)
  | c :: cs =>
    if c == 'e' || c == 'E' then do
      let (minus, cs) := readSign cs
      let (digits, rest) ← readDigits? 10 cs
      let n : Int := Decimal.digitsValue digits
      return (some (if minus == some true then -n else n), rest)
    else some (none, c :: cs)
  | [] => some (none, [])

/-- A number with a point or an exponent, or one of the words for infinity and for no
number. A positive number may not be too large. -/
def readFloat? (cs : List Char) : Option (Binary64 × List Char) :=
  let (minus, unsigned) := readSign cs
  let negative := minus == some true
  match unsigned with
  | 'i' :: 'n' :: 'f' :: rest => some (.infinite negative, rest)
  | 'n' :: 'a' :: 'n' :: rest => some (.nan, rest)
  | _ => do
    let (whole, cs) ← readDecimal? unsigned
    let (fraction, cs) ← readFraction? cs
    let (exponent, rest) ← readExponent? cs
    if fraction.isNone && exponent.isNone then none
    let places := fraction.getD []
    let value := Binary64.ofDecimal negative (Decimal.digitsValue (whole ++ places))
      (exponent.getD 0 - places.length)
    if value = .infinite false then none else some (value, rest)

/-! ## Points in time -/

/-- A decimal number of exactly so many digits, between two bounds. -/
def readField? (count low high : Nat) (cs : List Char) : Option (Nat × List Char) :=
  let digits := cs.take count
  let n := Decimal.digitsValue digits
  if digits.length == count && digits.all Char.isDigit && low ≤ n && n ≤ high then
    some (n, cs.drop count)
  else none

/-- A text after a given character. -/
def readChar? (c : Char) : List Char → Option (List Char)
  | [] => none
  | d :: cs => if c == d then some cs else none

/-- The number of days of a month. -/
def daysIn (year month : Nat) : Nat :=
  if month == 2 then
    if (year % 4 == 0 && year % 100 != 0) || year % 400 == 0 then 29 else 28
  else if month == 4 || month == 6 || month == 9 || month == 11 then 30
  else 31

/-- A date. -/
def readDate? (cs : List Char) : Option (List Char) := do
  let (year, cs) ← readField? 4 0 9999 cs
  let cs ← readChar? '-' cs
  let (month, cs) ← readField? 2 1 12 cs
  let cs ← readChar? '-' cs
  let (_, rest) ← readField? 2 1 (daysIn year month) cs
  return rest

/-- A time of day, its seconds perhaps with a fraction. -/
def readTime? (cs : List Char) : Option (List Char) := do
  let (_, cs) ← readField? 2 0 23 cs
  let cs ← readChar? ':' cs
  let (_, cs) ← readField? 2 0 59 cs
  let cs ← readChar? ':' cs
  let (_, cs) ← readField? 2 0 60 cs
  match cs with
  | '.' :: c :: rest =>
    if c.isDigit then return rest.dropWhile Char.isDigit else return cs
  | cs => return cs

/-- The difference to universal time, if there is one. -/
def readOffset? (cs : List Char) : Option (List Char) :=
  match cs with
  | 'Z' :: rest | 'z' :: rest => some rest
  | '+' :: cs | '-' :: cs => do
    let (_, cs) ← readField? 2 0 23 cs
    let cs ← readChar? ':' cs
    let (_, rest) ← readField? 2 0 59 cs
    return rest
  | cs => some cs

/-- A date with an optional time of day, or a time of day, as it is written. -/
def readDatetime? (cs : List Char) : Option (String × List Char) := do
  let rest ←
    match readDate? cs with
    | none => readTime? cs
    | some rest =>
      match rest with
      | 'T' :: time | 't' :: time => readTime? time >>= readOffset?
      | ' ' :: time =>
        match readTime? time with
        | some zone => readOffset? zone
        | none => some rest
      | _ => some rest
  return (String.ofList (cs.take (cs.length - rest.length)), rest)

end TypedClient.Toml
