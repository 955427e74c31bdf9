import TypedClient.Json.Value
import TypedClient.Number.Digits

/-!
# JSON texts

Reading a tree from a text. Every text has a tree; where it stops being JSON the tree is
broken.

## Main definitions

* `Json.readString?`: a string after its opening quote
* `Json.readNumeral?`: a number
* `Json.ofText`: the tree at the beginning of a text, and what comes after it
-/

namespace TypedClient.Json

/-- The blanks between the parts of a text. -/
def isBlank (c : Char) : Bool :=
  c == ' ' || c == '\n' || c == '\t' || c == '\r'

/-- A text without the blanks at its beginning. -/
def skipBlanks (cs : List Char) : List Char :=
  cs.dropWhile isBlank

/-! ## Strings -/

/-- A part of a string: a character, or the code unit of a numeric escape. -/
inductive CodeUnit
  | char (c : Char)
  | code (n : Nat)
  deriving DecidableEq, Repr

/-- The character of an escape with one letter. -/
def escape? : Char → Option Char
  | '"' => some '"'
  | '\\' => some '\\'
  | '/' => some '/'
  | 'b' => some '\x08'
  | 'f' => some '\x0c'
  | 'n' => some '\n'
  | 'r' => some '\r'
  | 't' => some '\t'
  | _ => none

/-- The parts of a string up to its closing quote, and what comes after it. Control
characters have to be escaped. -/
def readUnits? : List Char → Option (List CodeUnit × List Char)
  | [] => none
  | '"' :: cs => some ([], cs)
  | '\\' :: 'u' :: a :: b :: c :: d :: cs => do
    let n ← Digits.value? 16 [a, b, c, d]
    let (us, rest) ← readUnits? cs
    return (.code n :: us, rest)
  | '\\' :: e :: cs => do
    let c ← escape? e
    let (us, rest) ← readUnits? cs
    return (.char c :: us, rest)
  | c :: cs =>
    if c == '\\' || c.toNat < 0x20 then none
    else do
      let (us, rest) ← readUnits? cs
      return (.char c :: us, rest)

/-- The first half of a surrogate pair. -/
def isHighSurrogate (n : Nat) : Bool :=
  0xD800 ≤ n && n < 0xDC00

/-- The second half of a surrogate pair. -/
def isLowSurrogate (n : Nat) : Bool :=
  0xDC00 ≤ n && n < 0xE000

/-- The characters that parts of a string denote, absent for half a surrogate pair. -/
def decodeUnits? : List CodeUnit → Option (List Char)
  | [] => some []
  | .char c :: us => (c :: ·) <$> decodeUnits? us
  | .code n :: .code m :: us =>
    if isHighSurrogate n then
      if isLowSurrogate m then
        (Char.ofNat (0x10000 + (n - 0xD800) * 0x400 + (m - 0xDC00)) :: ·) <$> decodeUnits? us
      else none
    else if isLowSurrogate n then none
    else (Char.ofNat n :: ·) <$> decodeUnits? (.code m :: us)
  | .code n :: us =>
    if isHighSurrogate n || isLowSurrogate n then none
    else (Char.ofNat n :: ·) <$> decodeUnits? us

/-- A string after its opening quote, and what comes after it. -/
def readString? (cs : List Char) : Option (Option String × List Char) := do
  let (us, rest) ← readUnits? cs
  return ((decodeUnits? us).map String.ofList, rest)

/-! ## Numbers -/

/-- At least one digit, and what comes after the digits. -/
def readDigits? (cs : List Char) : Option (List Char × List Char) :=
  let digits := cs.takeWhile Char.isDigit
  if digits.isEmpty then none else some (digits, cs.dropWhile Char.isDigit)

/-- The whole part of a number, which has no zero before another digit. -/
def readWhole? : List Char → Option (List Char × List Char)
  | '0' :: cs => if (cs.head?.map Char.isDigit).getD false then none else some (['0'], cs)
  | cs => readDigits? cs

/-- The digits after a point, if there is one. -/
def readFraction? : List Char → Option (Option (List Char) × List Char)
  | '.' :: cs => (fun (digits, rest) => (some digits, rest)) <$> readDigits? cs
  | cs => some (none, cs)

/-- The sign and the digits of an exponent, if there is one. -/
def readExponent? : List Char → Option (Option (Bool × List Char) × List Char)
  | c :: cs =>
    if c == 'e' || c == 'E' then do
      let (negative, ds) := match cs with
        | '-' :: ds => (true, ds)
        | '+' :: ds => (false, ds)
        | ds => (false, ds)
      let (digits, rest) ← readDigits? ds
      return (some (negative, digits), rest)
    else some (none, c :: cs)
  | [] => some (none, [])

/-- A number, and what comes after it. -/
def readNumeral? (cs : List Char) : Option (Numeral × List Char) := do
  let (negative, cs) := match cs with
    | '-' :: ds => (true, ds)
    | ds => (false, ds)
  let (whole, cs) ← readWhole? cs
  let (fraction, cs) ← readFraction? cs
  let (exponent, rest) ← readExponent? cs
  return ({ negative, whole, fraction, exponent }, rest)

/-! ## Values -/

mutual

/-- The tree at the beginning of a text, and what comes after it. The number of steps
bounds how much of the text is read. -/
def readValue : Nat → List Char → Json × List Char
  | 0, _ => (.broken, [])
  | steps + 1, cs =>
    match skipBlanks cs with
    | 'n' :: 'u' :: 'l' :: 'l' :: cs => (.null, cs)
    | 't' :: 'r' :: 'u' :: 'e' :: cs => (.bool true, cs)
    | 'f' :: 'a' :: 'l' :: 's' :: 'e' :: cs => (.bool false, cs)
    | '"' :: cs =>
      match readString? cs with
      | some (text, rest) => (.string text, rest)
      | none => (.broken, [])
    | '[' :: cs =>
      match skipBlanks cs with
      | ']' :: cs => (.array [], cs)
      | cs =>
        let (items, rest) := readItems steps cs
        (.array items, rest)
    | '\x7b' :: cs =>
      match skipBlanks cs with
      | '\x7d' :: cs => (.object [], cs)
      | cs =>
        let (members, rest) := readMembers steps cs
        (.object members, rest)
    | cs =>
      match readNumeral? cs with
      | some (numeral, rest) => (.number numeral, rest)
      | none => (.broken, [])

/-- The items of an array up to its end, at least one. -/
def readItems : Nat → List Char → List Json × List Char
  | 0, _ => ([.broken], [])
  | steps + 1, cs =>
    let (item, cs) := readValue steps cs
    match skipBlanks cs with
    | ']' :: cs => ([item], cs)
    | ',' :: cs =>
      let (items, rest) := readItems steps cs
      (item :: items, rest)
    | _ => ([item, .broken], [])

/-- The members of an object up to its end, at least one. -/
def readMembers : Nat → List Char → List (Option String × Json) × List Char
  | 0, _ => ([(none, .broken)], [])
  | steps + 1, cs =>
    match skipBlanks cs with
    | '"' :: cs =>
      match readString? cs with
      | none => ([(none, .broken)], [])
      | some (key, cs) =>
        match skipBlanks cs with
        | ':' :: cs =>
          let (value, cs) := readValue steps cs
          match skipBlanks cs with
          | '\x7d' :: cs => ([(key, value)], cs)
          | ',' :: cs =>
            let (members, rest) := readMembers steps cs
            ((key, value) :: members, rest)
          | _ => ([(key, value), (none, .broken)], [])
        | _ => ([(key, .broken)], [])
    | _ => ([(none, .broken)], [])

end

/-- The tree at the beginning of a text, and what comes after it. Every value takes at
least one character, and a list of values one step more than each of them. -/
def ofText (cs : List Char) : Json × List Char :=
  readValue (2 * cs.length + 2) cs

end TypedClient.Json
