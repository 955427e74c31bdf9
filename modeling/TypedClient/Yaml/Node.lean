import TypedClient.Yaml.Token

/-!
# YAML trees

The tokens of a text form a tree of scalars, sequences and mappings. A node that is left
out is an empty scalar without quotes. A reference stands for the node that has its
number, which may be a node around it.

## Main definitions

* `Yaml`: the trees
* `Yaml.Document`: a tree with the nodes that references stand for
* `Yaml.Anchors`: the numbers of the names of nodes
* `Yaml.ofText?`: the document of a text
-/

namespace TypedClient

/-- A YAML tree. -/
inductive Yaml
  | scalar (tag : Option Yaml.Tag) (style : Yaml.Style) (text : String)
  | sequence (tag : Option Yaml.Tag) (items : List Yaml)
  | mapping (tag : Option Yaml.Tag) (entries : List (Yaml × Yaml))
  /-- The node with a number once more. -/
  | reference (number : Nat)
  deriving Repr

namespace Yaml

/-- A node that is left out. -/
def absent : Yaml :=
  .scalar none .plain ""

mutual

/-- The number of the marks that make up a tree: one for a scalar or a reference, two
around the nodes of a sequence or a mapping. -/
def size : Yaml → Nat
  | .scalar _ _ _ => 1
  | .reference _ => 1
  | .sequence _ items => sizeOfItems items + 2
  | .mapping _ entries => sizeOfEntries entries + 2

/-- The number of the marks of several trees. -/
def sizeOfItems : List Yaml → Nat
  | [] => 0
  | v :: vs => v.size + sizeOfItems vs

/-- The number of the marks of several entries. -/
def sizeOfEntries : List (Yaml × Yaml) → Nat
  | [] => 0
  | (key, v) :: es => key.size + v.size + sizeOfEntries es

end

/-- A tree with the nodes that references stand for, by their numbers. -/
structure Document where
  root : Yaml
  nodes : List (Nat × Yaml) := []

/-! ## Anchors -/

/-- The numbers of the anchors so far. The first anchor is number zero, and an anchor has
as its number the count of the different names before it. So the anchor after one whose
name is not new has the number of that one, which it takes over. -/
structure Anchors where
  /-- The number of each name. -/
  numbers : List (String × Nat) := []
  /-- The place of the anchor that has a number, with the latest anchor first. -/
  places : List (Nat × Nat) := []

/-- The anchors with one more, which has a name and a place. -/
def Anchors.add (anchors : Anchors) (name : String) (place : Nat) : Anchors :=
  let number := anchors.numbers.length
  { numbers := (name, number) :: anchors.numbers.filter (·.1 != name)
    places := (number, place) :: anchors.places }

/-- The number of a name. -/
def Anchors.number? (anchors : Anchors) (name : String) : Option Nat :=
  anchors.numbers.lookup name

/-- The nodes by their numbers, from the nodes by their places. -/
def Anchors.nodes (anchors : Anchors) (placed : List (Nat × Yaml)) : List (Nat × Yaml) :=
  anchors.places.filterMap fun (number, place) => (number, ·) <$> placed.lookup place

/-! ## Nodes from tokens -/

/-- The tokens that are left, the meaning of the handles of tags, and the anchors so far
with their nodes. The place of an anchor is the number of the tokens that are left. -/
structure Remainder where
  tokens : List Token
  handles : Handles := Handles.usual
  anchors : Anchors := {}
  placed : List (Nat × Yaml) := []

/-- A builder of a part of the tree, which takes its tokens from the front. -/
abbrev Build (α : Type) := StateT Remainder Option α

/-- The next token, which stays in place. -/
def peek : Build (Option Token) :=
  return (← get).tokens.head?

/-- Passes over one token. -/
def advance : Build Unit :=
  modify fun r => { r with tokens := r.tokens.tail }

/-- Whether the next token is one of the given ones. -/
def isBefore (tokens : List Token) : Build Bool :=
  return ((← peek).map tokens.contains).getD true

/-- Passes over the next token if it is the given one. -/
def accept (token : Token) : Build Bool := do
  if (← peek) == some token then
    advance
    return true
  return false

/-- Passes over the next token, which has to be the given one. -/
def expect (token : Token) : Build Unit := do
  if !(← accept token) then failure

/-- What may be said before a node: an anchor and a tag, in either order. -/
structure Prelude where
  anchor : Option String := none
  tag : Option TagText := none

/-- The anchor and the tag before a node, of which at most `n` are taken. -/
def buildPrelude : Nat → Prelude → Build Prelude
  | 0, p => return p
  | n + 1, p => do
    match (← peek), p.anchor, p.tag with
    | some (.anchor name), none, _ =>
      advance
      buildPrelude n { p with anchor := some name }
    | some (.tag text), _, none =>
      advance
      buildPrelude n { p with tag := some text }
    | _, _, _ => return p

/-- The structure around a node: brackets or braces, a block, or an entry of a block
mapping, where a sequence need not be indented. -/
inductive Place
  | flow
  | block
  | entry
  deriving DecidableEq, Repr

mutual

/-- A node. -/
def buildNode (place : Place) : Nat → Build Yaml
  | 0 => failure
  | steps + 1 => do
    match ← peek with
    | some (.reference name) =>
      advance
      return .reference (← (← get).anchors.number? name)
    | _ =>
      let said ← buildPrelude 2 {}
      let r ← get
      let tag ← match said.tag with
        | some text => some <$> r.handles.tag? text
        | none => pure none
      let position := r.tokens.length
      -- the anchor counts from here on, so a node can refer to itself
      if let some name := said.anchor then
        set { r with anchors := r.anchors.add name position }
      let node ← buildContent place (said.anchor.isSome || said.tag.isSome) tag steps
      if said.anchor.isSome then
        modify fun r => { r with placed := (position, node) :: r.placed }
      return node

/-- What a node consists of. Nothing at all is enough after an anchor or a tag. -/
def buildContent (place : Place) (mayBeAbsent : Bool) (tag : Option Tag) :
    Nat → Build Yaml
  | 0 => failure
  | steps + 1 => do
    match (← peek), place with
    | some (.scalar style text), _ =>
      advance
      return .scalar tag style text
    | some .flowSequence, _ =>
      advance
      return .sequence tag (← buildFlowItems true steps)
    | some .flowMapping, _ =>
      advance
      return .mapping tag (← buildFlowEntries true steps)
    | some .blockEntry, .entry => return .sequence tag (← buildOpenItems steps)
    | some .blockSequence, .block | some .blockSequence, .entry =>
      advance
      return .sequence tag (← buildItems steps)
    | some .blockMapping, .block | some .blockMapping, .entry =>
      advance
      return .mapping tag (← buildEntries steps)
    | _, _ => if mayBeAbsent then return .scalar tag .plain "" else failure

/-- A node that is left out before one of the given tokens. -/
def buildOptional (place : Place) (ends : List Token) : Nat → Build Yaml
  | 0 => failure
  | steps + 1 => do
    if ← isBefore ends then return absent else buildNode place steps

/-- The items of an indented sequence. -/
def buildItems : Nat → Build (List Yaml)
  | 0 => failure
  | steps + 1 => do
    if ← accept .blockEnd then return []
    expect .blockEntry
    let item ← buildOptional .block [.blockEntry, .blockEnd] steps
    return item :: (← buildItems steps)

/-- The items of a sequence that is not indented, which ends before any other token. -/
def buildOpenItems : Nat → Build (List Yaml)
  | 0 => failure
  | steps + 1 => do
    if !(← accept .blockEntry) then return []
    let item ← buildOptional .block [.blockEntry, .key, .value, .blockEnd] steps
    return item :: (← buildOpenItems steps)

/-- The entries of an indented mapping. -/
def buildEntries : Nat → Build (List (Yaml × Yaml))
  | 0 => failure
  | steps + 1 => do
    if ← accept .blockEnd then return []
    expect .key
    let ends := [.key, .value, .blockEnd]
    let key ← buildOptional .entry ends steps
    let value ←
      if ← accept .value then buildOptional .entry ends steps else pure absent
    return (key, value) :: (← buildEntries steps)

/-- The items between brackets. A key among them makes a mapping of one entry. If nothing
stands for the key, the token in its place is passed over. -/
def buildFlowItems (first : Bool) : Nat → Build (List Yaml)
  | 0 => failure
  | steps + 1 => do
    if ← accept .flowSequenceEnd then return []
    if !first then expect .flowEntry
    if ← accept .flowSequenceEnd then return []
    let item ←
      if ← accept .key then do
        let ends := [.value, .flowEntry, .flowSequenceEnd]
        let left ← isBefore ends
        let key ← buildOptional .flow ends steps
        if left then advance
        let value ← buildFlowValue .flowSequenceEnd steps
        pure (.mapping none [(key, value)])
      else buildNode .flow steps
    return item :: (← buildFlowItems false steps)

/-- The entries between braces. An entry may be a key without a value. -/
def buildFlowEntries (first : Bool) : Nat → Build (List (Yaml × Yaml))
  | 0 => failure
  | steps + 1 => do
    if ← accept .flowMappingEnd then return []
    if !first then expect .flowEntry
    if ← accept .flowMappingEnd then return []
    let entry ←
      if ← accept .key then do
        let key ← buildOptional .flow [.value, .flowEntry, .flowMappingEnd] steps
        let value ← buildFlowValue .flowMappingEnd steps
        pure (key, value)
      else do
        let key ← buildNode .flow steps
        pure (key, absent)
    return entry :: (← buildFlowEntries false steps)

/-- The value of an entry in brackets or braces, which may be left out. -/
def buildFlowValue (close : Token) : Nat → Build Yaml
  | 0 => failure
  | steps + 1 => do
    if ← accept .value then buildOptional .flow [.flowEntry, close] steps
    else return absent

end

/-! ## Documents -/

/-- Passes over all tokens from here that are the given one. -/
def skipAll (token : Token) : Build Unit :=
  modify fun r => { r with tokens := r.tokens.dropWhile (· == token) }

/-- The lines in front of a document, of which at most `n` are taken. -/
def buildDirectives : Nat → Build (List Directive)
  | 0 => return []
  | n + 1 => do
    match ← peek with
    | some (.directive d) =>
      advance
      return d :: (← buildDirectives n)
    | _ => return []

/-- The root of a document. After the mark of its beginning it may be left out; the lines
in front of a document need that mark. -/
def buildRoot (steps : Nat) : Build Yaml := do
  match ← peek with
  | none => return absent
  | some (.directive _) | some .documentStart =>
    let handles ← Handles.ofDirectives? false [] (← buildDirectives steps)
    modify fun r => { r with handles }
    expect .documentStart
    match ← peek with
    | some (.directive _) => return absent
    | _ => buildOptional .block [.documentStart, .documentEnd] steps
  | _ => buildNode .block steps

/-- The document of a list of tokens, which has to be only one. -/
def ofTokens? (tokens : List Token) : Option Document := do
  let build : Build Yaml := do
    -- every second step at least takes a token
    let root ← buildRoot (4 * tokens.length + 4)
    skipAll .documentEnd
    return root
  let (root, rest) ← build.run { tokens }
  if !rest.tokens.isEmpty then none
  return { root, nodes := rest.anchors.nodes rest.placed }

/-- The document of a text. -/
def ofText? (text : String) : Option Document :=
  tokens? text >>= ofTokens?

end Yaml

end TypedClient
