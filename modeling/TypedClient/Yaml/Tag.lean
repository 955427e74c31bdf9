import TypedClient.Number.Digits
import TypedClient.Yaml.Cursor

/-!
# YAML tags

A tag says of what type a node is. It is written in full between angle brackets, or as a
handle that stands for the beginning of its name and the rest of it. Lines in front of a
document can give handles their meaning. A name consists of octets, since any octet can
be written as a percent sign and two digits.

## Main definitions

* `Yaml.Tag`: what a node says about its own type
* `Yaml.scanTag?`: a tag as it is written
* `Yaml.Directive`, `Yaml.scanDirective?`: a line in front of a document
* `Yaml.Handles`, `Yaml.Handles.tag?`: the meaning of a tag
-/

namespace TypedClient.Yaml

/-- An octet of the name of a tag. -/
abbrev Octet := UInt8

/-- The octets of a text of basic letters. -/
def octetsOf (cs : List Char) : List Octet :=
  cs.map fun c => c.toNat.toUInt8

/-- The text that octets encode, none if they encode no text. -/
def textOf? (octets : List Octet) : Option String :=
  String.fromUTF8? ⟨octets.toArray⟩

/-! ## The types of nodes -/

/-- What a node says about its own type: one of the types of the standard, a type of the
document's own, one whose name is no text, or any other one. -/
inductive Tag
  | core (name : String)
  | own (name : String)
  | unnamed
  | other
  deriving DecidableEq, Repr

/-- The name that the standard gives to its own types before their short names. -/
def coreNames : List Octet :=
  octetsOf "tag:yaml.org,2002:".toList

/-- The name that begins all types of a document's own. -/
def ownNames : List Octet :=
  octetsOf ['!']

/-- The tag of its full name. -/
def Tag.ofName (name : List Octet) : Tag :=
  if ownNames.isPrefixOf name then
    ((textOf? (name.drop ownNames.length)).map Tag.own).getD .unnamed
  else if coreNames.isPrefixOf name then
    ((textOf? (name.drop coreNames.length)).map Tag.core).getD .other
  else .other

/-! ## Names -/

/-- The characters of the name of an anchor or a handle. -/
def isNameChar (c : Char) : Bool :=
  c.isAlphanum || c == '-' || c == '_'

/-- The characters of the name of a tag. Those that separate the items of a list need
angle brackets around the name. -/
def isTagChar (enclosed : Bool) (c : Char) : Bool :=
  isNameChar c || "%;/?:@&=+$.!~*'()".toList.contains c
    || (enclosed && ",[]".toList.contains c)

/-- An octet after a percent sign. -/
def scanOctet? : Scan Octet := fun c =>
  match c.rest with
  | '%' :: high :: low :: _ => do
    let n ← Digits.value? 16 [high, low]
    return (n.toUInt8, c.skip 3)
  | _ => none

/-- The number of octets that a character with the given first octet has. -/
def octetCount? (first : Octet) : Option Nat :=
  if first < 0x80 then some 1
  else if first < 0xC0 then none
  else if first < 0xE0 then some 2
  else if first < 0xF0 then some 3
  else if first < 0xF8 then some 4
  else none

/-- The further octets of a character. -/
def scanFurtherOctets? : Nat → Scan (List Octet)
  | 0, c => some ([], c)
  | n + 1, c => do
    let (octet, c) ← scanOctet? c
    if octet < 0x80 || 0xC0 ≤ octet then none
    let (octets, c) ← scanFurtherOctets? n c
    return (octet :: octets, c)

/-- The octets of a character, each of them after a percent sign. -/
def scanEscaped? : Scan (List Octet) := fun c => do
  let (first, c) ← scanOctet? c
  let count ← octetCount? first
  let (octets, c) ← scanFurtherOctets? (count - 1) c
  return (first :: octets, c)

/-- The octets of a name, as many as there are. -/
def scanName? (enclosed : Bool) : Nat → Scan (List Octet)
  | 0, _ => none
  | steps + 1, c =>
    match c.peek? with
    | none => some ([], c)
    | some char =>
      if !isTagChar enclosed char then some ([], c)
      else do
        let (octets, c) ← if char == '%' then scanEscaped? c else some (octetsOf [char], c.next)
        let (more, c) ← scanName? enclosed steps c
        return (octets ++ more, c)

/-- The part of a name that counts: it ends before an octet of zero. -/
def untilZero (octets : List Octet) : List Octet :=
  octets.takeWhile (· != 0)

/-- A handle: an exclamation mark and a word, and another exclamation mark if there is
one. -/
def scanHandle? : Scan (List Char) := fun c =>
  if !c.isAt '!' then none
  else
    let word := c.next.rest.takeWhile isNameChar
    let after := c.next.skip word.length
    if after.isAt '!' then some ('!' :: word ++ ['!'], after.next) else some ('!' :: word, after)

/-- Whether a handle ends with an exclamation mark of its own. -/
def isClosed (handle : List Char) : Bool :=
  1 < handle.length && handle.getLast? == some '!'

/-! ## Tags as they are written -/

/-- A tag as it is written: a handle, which is empty before a full name, and the rest of
the name. -/
structure TagText where
  handle : String
  rest : List Octet
  deriving DecidableEq, Repr

/-- A tag, at its exclamation mark. -/
def scanTag? : Scan TagText := fun c => do
  if c.peekAt? 1 == some '<' then
    let (name, c) ← scanName? true (c.rest.length + 1) (c.skip 2)
    if name.isEmpty || !c.isAt '>' then none
    return (⟨"", untilZero name⟩, c.next)
  else
    let (handle, c) ← scanHandle? c
    let (name, c) ← scanName? false (c.rest.length + 1) c
    if isClosed handle then
      if name.isEmpty then none
      return (⟨String.ofList handle, untilZero name⟩, c)
    else
      -- the word belongs to the name, and a mere exclamation mark is a full name
      let name := untilZero (octetsOf handle.tail ++ name)
      return (if name.isEmpty then ⟨"", ownNames⟩ else ⟨"!", name⟩, c)

/-! ## Lines in front of a document -/

/-- A line in front of a document: the version of the standard that it follows, or the
meaning of a handle. -/
inductive Directive
  | version (major minor : Nat)
  | handle (handle : String) (names : List Octet)
  deriving DecidableEq, Repr

/-- The most digits that a number of a version has. -/
def maxVersionDigits : Nat := 9

/-- A number of a version. -/
def scanVersionNumber? : Scan Nat := fun c => do
  let digits := c.rest.takeWhile Char.isDigit
  if digits.isEmpty || maxVersionDigits < digits.length then none
  return (← Digits.value? 10 digits, c.skip digits.length)

/-- A version, after its word. -/
def scanVersion? : Scan Directive := fun c => do
  let (major, c) ← scanVersionNumber? (c.skipWhile isBlank)
  if !c.isAt '.' then none
  let (minor, c) ← scanVersionNumber? c.next
  return (.version major minor, c)

/-- The meaning of a handle, after its word: the handle and the beginning of the names,
with a blank after either of them. -/
def scanHandleMeaning? : Scan Directive := fun c => do
  let (handle, c) ← scanHandle? (c.skipWhile isBlank)
  if handle != ['!'] && !isClosed handle then none
  if !c.isBlank then none
  let (names, c) ← scanName? true (c.rest.length + 1) (c.skipWhile isBlank)
  if names.isEmpty || !c.isSpaceAt 0 then none
  return (.handle (String.ofList handle) (untilZero names), c)

/-- A line in front of a document, at its percent sign, with its end. A comment may come
after it. -/
def scanDirective? : Scan Directive := fun c => do
  let word := c.next.rest.takeWhile isNameChar
  let after := c.next.skip word.length
  if !after.isSpaceAt 0 then none
  let (directive, c) ←
    if word == "YAML".toList then scanVersion? after
    else if word == "TAG".toList then scanHandleMeaning? after
    else none
  let c := c.skipWhile isBlank
  let c := if c.isAt '#' then c.skipWhile (!isBreak ·) else c
  if c.rest.isEmpty then return (directive, c)
  if !c.isBreak then none
  return (directive, c.nextLine)

/-! ## The meaning of tags -/

/-- The names that handles stand for. -/
abbrev Handles := List (String × List Octet)

namespace Handles

/-- The handles that have a meaning in every document. -/
def usual : Handles :=
  [("!", ownNames), ("!!", coreNames)]

/-- The meaning of the handles of a document, which may be given at most once each; the
version may be given at most once too, and has to be a known one. -/
def ofDirectives? : Bool → Handles → List Directive → Option Handles
  | _, handles, [] => some (handles ++ usual)
  | versioned, handles, .version major minor :: ds =>
    if versioned || major != 1 || (minor != 1 && minor != 2) then none
    else ofDirectives? true handles ds
  | versioned, handles, .handle handle names :: ds =>
    if (handles.lookup handle).isSome then none
    else ofDirectives? versioned ((handle, names) :: handles) ds

/-- The tag of a text. -/
def tag? (handles : Handles) (text : TagText) : Option Tag :=
  if text.handle.isEmpty then some (Tag.ofName text.rest)
  else (handles.lookup text.handle).map fun names => Tag.ofName (names ++ text.rest)

end Handles

end TypedClient.Yaml
