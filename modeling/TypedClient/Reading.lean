import TypedClient.Literal

/-!
# Reading records

A document is a tree in one of several formats. A format says how a tree is taken for a
text, a truth value, a list or a record; a record is read field by field, in the order in
which the document gives them, and the first fault ends the reading.

## Main definitions

* `ReadFault`: the faults of a document
* `Format`: the readers of the basic shapes
* `Format.option`, `Format.list`, `Format.map`: values of several shapes
* `Format.record`: the fields of a record, by name or by position
* `requiredField`, `optionalField`: a field that must be there, and one that may be absent
-/

namespace TypedClient

/-- A fault of a document. -/
inductive ReadFault
  /-- The document is not written in its format. -/
  | malformed
  /-- A field that must be there is missing. -/
  | missingField (name : String)
  /-- A field is given twice. -/
  | repeatedField (name : String)
  /-- A value is not of the sort that belongs in its place. -/
  | unexpected
  /-- Lists and records are nested too deeply. -/
  | tooDeep
  deriving DecidableEq, Repr

/-- The wording of a fault about a field. -/
def ReadFault.fieldMessage? : ReadFault → Option String
  | missingField name => some ("missing field `" ++ name ++ "`")
  | repeatedField name => some ("duplicate field `" ++ name ++ "`")
  | _ => none

/-- The wording of a fault. -/
def ReadFault.message (fault : ReadFault) : String :=
  match fault with
  | malformed => "the text is malformed"
  | unexpected => "a value is out of place"
  | tooDeep => "recursion limit exceeded"
  | _ => fault.fieldMessage?.getD ""

/-- The fields of a record: by name, where the name is read first, or by position. -/
inductive Fields (m : Type → Type) (ν : Type)
  | named (entries : List (m String × ν))
  | positional (values : List ν)

/-- How the trees of a format are taken for values. A reading goes on in a monad of the
format, which has the faults of documents. -/
structure Format (m : Type → Type) (ν : Type) where
  /-- The number of lists and records that may stand inside each other. -/
  depth : Nat
  /-- The value that a value stands for, if it stands for another one. -/
  follow : ν → m ν
  text : ν → m String
  flag : ν → m Bool
  constant : ν → m Literal
  /-- The name of one of several alternatives. -/
  choice : ν → m String
  /-- Whether the value stands for an absent one. -/
  isAbsent : ν → m Bool
  /-- Whether the value counts as a list or a record of nothing. -/
  isNothing : ν → Bool
  items : ν → m (List ν)
  entries : ν → m (List (m String × ν))
  fields : ν → m (Fields m ν)
  /-- Passes over a value about which nothing is to be known. -/
  skip : ν → m Unit

/-- A reader of values. -/
abbrev Reader (m : Type → Type) (ν α : Type) := ν → m α

variable {m : Type → Type} [Monad m] [MonadExcept ReadFault m] {ν α φ : Type}

/-- A value that may stand for an absent one. -/
def Format.option (f : Format m ν) (read : Reader m ν α) : Reader m ν (Option α) := fun v => do
  let v ← f.follow v
  if ← f.isAbsent v then return none else some <$> read v

/-- One of several alternatives, by name. -/
def Format.oneOf (f : Format m ν) (ofName? : String → Option α) : Reader m ν α := fun v => do
  match ofName? (← f.choice v) with
  | some a => return a
  | none => throw .unexpected

/-- A value inside which lists and records may still be nested one level less than
`depth`. Nothing takes up no level. -/
def Format.nested (f : Format m ν) (depth : Nat) (nothing : α) (read : Nat → Reader m ν α) :
    Reader m ν α := fun v => do
  let v ← f.follow v
  if f.isNothing v then return nothing
  match depth with
  | 0 => throw .tooDeep
  | d + 1 => read d v

/-- All values of a list, one after another. -/
def readAll (read : Reader m ν α) : List ν → m (List α)
  | [] => return []
  | v :: vs => return (← read v) :: (← readAll read vs)

/-- A list, where lists and records may still be nested `depth` deep. -/
def Format.list (f : Format m ν) (depth : Nat) (read : Nat → Reader m ν α) :
    Reader m ν (List α) :=
  f.nested depth [] fun d v => f.items v >>= readAll (read d)

/-- All entries of a map, one after another. -/
def readEntries (read : Reader m ν α) : List (m String × ν) → m (List (String × α))
  | [] => return []
  | (key, v) :: es => return (← key, ← read v) :: (← readEntries read es)

/-- A map with arbitrary keys. -/
def Format.map (f : Format m ν) (depth : Nat) (read : Nat → Reader m ν α) :
    Reader m ν (List (String × α)) :=
  f.nested depth [] fun d v => f.entries v >>= readEntries (read d)

/-! ## Records -/

/-- The known fields of a record by name, with the readers of their values. -/
abbrev FieldReaders (m : Type → Type) (ν φ : Type) := List (String × Reader m ν φ)

/-- The fields given by name. Unknown fields are passed over; a known field may be given
only once, which is seen before its value is read. -/
def readNamed (skip : Reader m ν Unit) (readers : FieldReaders m ν φ) (seen : List String) :
    List (m String × ν) → m (List φ)
  | [] => return []
  | (key, v) :: es => do
    let name ← key
    match readers.lookup name with
    | none =>
      skip v
      readNamed skip readers seen es
    | some read =>
      -- a repetition counts before anything in the value does
      if name ∈ seen then throw (.repeatedField name)
      return (← read v) :: (← readNamed skip readers (name :: seen) es)

/-- The fields given by position, as many as there are. -/
def readPositional : FieldReaders m ν φ → List ν → m (List φ)
  | _, [] => return []
  | [], _ :: _ => throw .unexpected
  | (_, read) :: rs, v :: vs => return (← read v) :: (← readPositional rs vs)

/-- The fields of a record. By position at least the first `least` must be given. -/
def Format.record (f : Format m ν) (depth : Nat) (least : Nat)
    (readers : Nat → FieldReaders m ν φ) : Reader m ν (List φ) :=
  f.nested depth [] fun d v => do
    match ← f.fields v with
    | .named entries => readNamed f.skip (readers d) [] entries
    | .positional values =>
      let read ← readPositional (readers d) values
      if values.length < least then throw .unexpected
      return read

/-- A record from its fields. -/
def Format.recordOf (f : Format m ν) (depth : Nat) (least : Nat)
    (readers : Nat → FieldReaders m ν φ) (ofFields : List φ → Except ReadFault α) :
    Reader m ν α := fun v => do
  MonadExcept.ofExcept (ofFields (← f.record depth least readers v))

/-- The value of a field that may be absent. -/
def optionalField (select : φ → Option α) (fields : List φ) : Option α :=
  fields.findSome? select

/-- The value of a field that must be there. -/
def requiredField (name : String) (select : φ → Option α) (fields : List φ) :
    Except ReadFault α :=
  match fields.findSome? select with
  | some a => .ok a
  | none => .error (.missingField name)

end TypedClient
