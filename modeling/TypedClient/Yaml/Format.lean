import TypedClient.Number.Decimal
import TypedClient.Reading
import TypedClient.Yaml.Node

/-!
# YAML as a format of documents

How a YAML tree is taken for the parts of a document. Scalars are texts wherever a text
is expected; where any constant may stand, a scalar without quotes is null, a truth value
or a number if it is written like one.

## Main definitions

* `Yaml.constantOf`: the constant of a scalar
* `Yaml.Part`: a node in its document
* `Yaml.format`: the readers of the basic shapes
* `Yaml.decode`: a document read from its text
-/

namespace TypedClient.Yaml

/-! ## Constants -/

/-- The words for null. -/
def isNullWord (text : String) : Bool :=
  text == "null" || text == "Null" || text == "NULL" || text == "~"

/-- The truth value of a word. -/
def boolOf? (text : String) : Option Bool :=
  match text with
  | "true" | "True" | "TRUE" => some true
  | "false" | "False" | "FALSE" => some false
  | _ => none

/-- The value of a non-empty text of digits. -/
def natOf? (base : Nat) (digits : List Char) : Option Nat :=
  if digits.isEmpty then none else Digits.value? base digits

/-- The natural number of a numeral without a sign: in base sixteen, eight or two after a
mark, otherwise in decimal without a zero before another digit. -/
def unsignedOf? : List Char → Option Nat
  | '0' :: 'x' :: digits => natOf? 16 digits
  | '0' :: 'o' :: digits => natOf? 8 digits
  | '0' :: 'b' :: digits => natOf? 2 digits
  | '0' :: _ :: _ => none
  | digits => natOf? 10 digits

/-- The integer of a numeral. -/
def integerOf? : List Char → Option Int
  | '-' :: cs => (fun n : Nat => -(n : Int)) <$> unsignedOf? cs
  | '+' :: cs => (fun n : Nat => (n : Int)) <$> unsignedOf? cs
  | cs => (fun n : Nat => (n : Int)) <$> unsignedOf? cs

/-- The constant of an integer. Beyond 64 bits with a sign it is a number, up to the
largest one of 64 bits without a sign; the integers after that have none, up to those of
128 bits, from where on they do not count as integers. -/
def ofInteger? (i : Int) : Option (Except ReadFault Literal) :=
  if -(Nat.pow 2 63 : Int) ≤ i ∧ i < Nat.pow 2 63 then some (.ok (.integer i))
  else if 0 ≤ i ∧ i < Nat.pow 2 64 then some (.ok (.number (.ofNat i.toNat)))
  else if -(Nat.pow 2 127 : Int) ≤ i ∧ i < Nat.pow 2 128 then some (.error .unexpected)
  else none

/-- A numeral that begins with a zero but is not in one of the other bases. -/
def isPadded (cs : List Char) : Bool :=
  match (Decimal.sign cs).2 with
  | '0' :: d :: ds => (d :: ds).all Char.isDigit
  | _ => false

/-- The number of a numeral, which may not be too large; infinity and no number have
words of their own. -/
def numberOf? (text : String) : Option Binary64 :=
  let cs := text.toList
  let unsigned := match cs with
    | '+' :: rest => rest
    | _ => cs
  let word := String.ofList unsigned
  if word == ".inf" || word == ".Inf" || word == ".INF" then some (.infinite false)
  else if text == "-.inf" || text == "-.Inf" || text == "-.INF" then some (.infinite true)
  else if text == ".nan" || text == ".NaN" || text == ".NAN" then some .nan
  else if cs.head? == some '+' && (unsigned.head?.any fun c => c == '+' || c == '-') then
    none
  else (Decimal.ofText? word).filter (·.isFinite)

/-- The constant of a scalar without quotes and without a tag. -/
def plainConstant (text : String) : Except ReadFault Literal :=
  if text.isEmpty || isNullWord text then .ok .null
  else
    match boolOf? text with
    | some b => .ok (.bool b)
    | none =>
      match integerOf? text.toList >>= ofInteger? with
      | some read => read
      | none =>
        match if isPadded text.toList then none else numberOf? text with
        | some x => .ok (.number x)
        | none => .ok (.string text)

/-- The constant of a scalar that says that it is of a type of the standard. -/
def taggedConstant (name text : String) : Except ReadFault Literal :=
  let orFault := fun (value : Option Literal) =>
    match value with
    | some v => Except.ok v
    | none => Except.error ReadFault.unexpected
  match name with
  | "bool" => orFault ((boolOf? text).map .bool)
  | "int" => (integerOf? text.toList >>= ofInteger?).getD (.error .unexpected)
  | "float" => orFault ((numberOf? text).map .number)
  | "null" => if isNullWord text then .ok .null else .error .unexpected
  | _ => .ok (.string text)

/-- The constant of a scalar. Types of the document's own have no constants. -/
def constantOf (tag : Option Tag) (style : Style) (text : String) :
    Except ReadFault Literal :=
  let untagged := if style = .plain then plainConstant text else .ok (.string text)
  match tag with
  | none => untagged
  | some (.core name) => taggedConstant name text
  | some (.own _) => .error .unexpected
  -- a type without a name is no type
  | some .unnamed => untagged
  | some .other => .ok (.string text)

/-! ## Parts of a document -/

/-- A node in its document. -/
structure Part where
  document : Document
  node : Yaml

/-- A reading of a document, which spends from the number of references that may still be
followed. -/
abbrev Reading (α : Type) := StateT Nat (Except ReadFault) α

namespace Part

/-- Another node of the same document. -/
def sibling (p : Part) (node : Yaml) : Part :=
  { p with node }

/-- The node that a reference stands for, or the node itself. -/
def follow (p : Part) : Reading Part := do
  match p.node with
  | .reference number =>
    match ← get, p.document.nodes.lookup number with
    | left + 1, some node =>
      set left
      return p.sibling node
    | _, _ => throw .tooDeep
  | _ => return p

/-- A reader of nodes that are not references as a reader of parts. -/
def reading {α : Type} (read : Yaml → Except ReadFault α) (p : Part) : Reading α := do
  liftM (read (← p.follow).node)

end Part

/-! ## Shapes -/

/-- The text of any scalar. -/
def asText : Yaml → Except ReadFault String
  | .scalar _ _ text => .ok text
  | _ => .error .unexpected

/-- Whether a scalar can be a truth value: without quotes, or a literal block that says
so. -/
def mayBeFlag (tag : Option Tag) (style : Style) : Bool :=
  style == .plain || (style == .literal && tag == some (.core "bool"))

/-- A truth value. -/
def asFlag : Yaml → Except ReadFault Bool
  | .scalar tag style text =>
    match if mayBeFlag tag style then boolOf? text else none with
    | some b => .ok b
    | none => .error .unexpected
  | _ => .error .unexpected

/-- A constant. -/
def asConstant : Yaml → Except ReadFault Literal
  | .scalar tag style text => constantOf tag style text
  | _ => .error .unexpected

/-- The name of an alternative: a scalar, or the type of the document's own that null
has. -/
def asChoice : Yaml → Except ReadFault String
  | .scalar (some (.own name)) style text =>
    if style = .plain && (text.isEmpty || isNullWord text) then .ok name
    else .error .unexpected
  | v => asText v

/-- Whether a node is null: a scalar without quotes that is empty or one of the words. A
scalar that says that it is null has to be one of the words. -/
def isNull : Yaml → Except ReadFault Bool
  | .scalar none .plain text => .ok (text.isEmpty || isNullWord text)
  | .scalar (some (.core "null")) .plain text =>
    if isNullWord text then .ok true else .error .unexpected
  | _ => .ok false

/-- Whether there is nothing where a list or a record belongs. -/
def isNothing : Yaml → Bool
  | .scalar _ .plain text => text.isEmpty
  | _ => false

/-- The items of a sequence. -/
def asItems (p : Part) : Reading (List Part) := do
  let p ← p.follow
  match p.node with
  | .sequence _ items => return items.map p.sibling
  | _ => throw .unexpected

/-- The entries of a mapping with their keys. -/
def asEntries (p : Part) : Reading (List (Reading String × Part)) := do
  let p ← p.follow
  match p.node with
  | .mapping _ entries =>
    return entries.map fun (key, v) => ((p.sibling key).reading asText, p.sibling v)
  | _ => throw .unexpected

/-- YAML as a format of documents. Records are given by name. What is passed over is not
followed. -/
def format : Format Reading Part where
  depth := 128
  follow := Part.follow
  text := Part.reading asText
  flag := Part.reading asFlag
  constant := Part.reading asConstant
  choice := Part.reading asChoice
  isAbsent := Part.reading isNull
  isNothing := fun p => p.node.isNothing
  items := asItems
  entries := asEntries
  fields := fun p => .named <$> asEntries p
  skip := fun _ => return ()

/-- The number of references that may be followed for every mark of a document. -/
def followsPerMark : Nat := 100

/-- A document read from its text. -/
def decode {α : Type} (read : Reader Reading Part α) (text : String) : Except ReadFault α :=
  match ofText? text with
  | some document =>
    (read ⟨document, document.root⟩).run' (followsPerMark * document.root.size)
  | none => .error .malformed

end TypedClient.Yaml
