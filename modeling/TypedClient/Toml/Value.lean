/-!
# TOML values

A TOML document is a table. Its tables are put together from key-value lines and headers,
and the rules about which table may be opened again depend on how a table came about.

## Main definitions

* `Toml`: the values
* `Toml.Table`: a table under construction, `Toml.Entry`: one of its entries
* `Toml.Table.update`: a change of the table at a path
* `Toml.Table.define`, `Toml.Table.openTable`, `Toml.Table.openElement`: a key-value line
  and the two kinds of headers
-/

namespace TypedClient

/-- A TOML value. Numbers with a fraction and points in time are kept as they are
written. -/
inductive Toml
  | string (text : String)
  | integer (value : Int)
  | float (text : String)
  | bool (value : Bool)
  | datetime (text : String)
  | array (items : List Toml)
  | table (entries : List (String × Toml))
  deriving Repr

namespace Toml

/-- An entry of a table under construction: a finished value, a table, or an array of
tables of which the last may still grow. A table is implicit if no header has named it,
and dotted if a dotted key made it. -/
inductive Entry
  | value (value : Toml)
  | table (isImplicit isDotted : Bool) (entries : List (String × Entry))
  | tables (elements : List (List (String × Entry)))

/-- A table under construction. -/
structure Table where
  isImplicit : Bool := false
  isDotted : Bool := false
  entries : List (String × Entry) := []

/-- Entries with one of them replaced, or added at the end. -/
def setEntry (key : String) (e : Entry) : List (String × Entry) → List (String × Entry)
  | [] => [(key, e)]
  | (k, d) :: es => if k = key then (key, e) :: es else (k, d) :: setEntry key e es

namespace Table

/-- A table with one entry replaced, or added at the end. -/
def set (t : Table) (key : String) (e : Entry) : Table :=
  { t with entries := setEntry key e t.entries }

/-- A table as an entry of another one. -/
def toEntry (t : Table) : Entry :=
  .table t.isImplicit t.isDotted t.entries

/-- The table with a change at a path. Tables on the path that are not there are made,
and of an array of tables the last one is meant. A dotted path leads only through tables
that no header has named. -/
def update (dotted : Bool) (change : Table → Option Table) : List String → Table →
    Option Table
  | [], t => change t
  | key :: path, t =>
    match t.entries.lookup key with
    | none => do
      let child : Table := { isImplicit := true, isDotted := dotted }
      return t.set key (← update dotted change path child).toEntry
    | some (.value _) => none
    | some (.table isImplicit isDotted entries) =>
      -- a dotted key may not reach into a table that a header has finished
      if dotted && !isImplicit then none
      else do
        let child : Table := { isImplicit, isDotted, entries }
        return t.set key (← update dotted change path child).toEntry
    | some (.tables elements) => do
      -- a path means the element that was opened last
      let last ← elements.getLast?
      let child ← update dotted change path { entries := last }
      return t.set key (.tables (elements.dropLast ++ [child.entries]))

/-- A table with a new entry. A table that was made by a dotted key grows by dotted keys
only, and every other table by plain keys only. -/
def add (isDotted : Bool) (key : String) (value : Toml) (t : Table) : Option Table :=
  if t.isDotted != isDotted || (t.entries.lookup key).isSome then none
  else some (t.set key (.value value))

/-- A table with a key-value line. The path is not empty. -/
def define (path : List String) (value : Toml) (t : Table) : Option Table := do
  let key ← path.getLast?
  let parent := path.dropLast
  update true (add (!parent.isEmpty) key value) parent t

/-- A table with the table that a header names: a new one, or one that was only on the
way to another table. -/
def openTable (path : List String) (t : Table) : Option Table := do
  let key ← path.getLast?
  let name := fun (parent : Table) =>
    match parent.entries.lookup key with
    | none => some (parent.set key (.table false false []))
    | some (.table true false entries) => some (parent.set key (.table false false entries))
    | _ => none
  update false name path.dropLast t

/-- A table with one more element of the array of tables that a header names. -/
def openElement (path : List String) (t : Table) : Option Table := do
  let key ← path.getLast?
  let push := fun (parent : Table) =>
    match parent.entries.lookup key with
    | none => some (parent.set key (.tables [[]]))
    | some (.tables elements) => some (parent.set key (.tables (elements ++ [[]])))
    | _ => none
  update false push path.dropLast t

end Table

/-! ## Finished tables -/

mutual

/-- The value of an entry. -/
def Entry.finish : Entry → Toml
  | .value value => value
  | .table _ _ entries => .table (finishEntries entries)
  | .tables elements => .array (finishElements elements)

/-- The values of the entries of a table. -/
def finishEntries : List (String × Entry) → List (String × Toml)
  | [] => []
  | e :: es => finishPair e :: finishEntries es

/-- The value of an entry with its key. -/
def finishPair : String × Entry → String × Toml
  | (key, e) => (key, e.finish)

/-- The values of an array of tables. -/
def finishElements : List (List (String × Entry)) → List Toml
  | [] => []
  | es :: ts => .table (finishEntries es) :: finishElements ts

end

end Toml

end TypedClient
