import TypedClient.Fault
import TypedClient.Identifier
import TypedClient.OrderedMap
import TypedClient.TypeScript.Expr

/-!
# References and object literals

An access path such as `params.headers.Accept` becomes a chain of accesses, and a map of
entries becomes an object literal.

## Main definitions

* `access`: the member or element of an expression with a given name
* `pathReference`: the expression of a dotted path
* `parameterReference`: the expression of a parameter
* `EntryValue`, `EntryMap`, `objectLiteral`: the entries of an object literal, and the
  literal
-/

namespace TypedClient

open TypeScript

/-- The part of an expression with a given key: a member if the key is a name, an element
otherwise. -/
def access (receiver : Expr) (key : String) : Expr :=
  if Identifier.isValid key then .member receiver key else .element receiver key

/-- The segments of a dotted path. -/
def pathSegments (path : String) : List String :=
  (Text.pieces (· == '.') path.toList).map String.ofList

/-- Whether a segment begins with a slash. -/
def beginsWithSlash (segment : String) : Bool :=
  segment.toList.head? == some '/'

/-- The expression of a dotted path: the first segment is a variable, and each further
one a part of what comes before it. No segment may begin with a slash. -/
def pathReference (path : String) : Except Fault Expr :=
  let segments := pathSegments path
  if segments.any beginsWithSlash then .error (.invalidPath path)
  else
    match segments with
    | [] => .ok (.ident "")
    | root :: rest => .ok (rest.foldl access (.ident root))

/-- The expression of the parameter with a name. The name is one segment, whatever
characters it holds. -/
def parameterReference (name : String) : Expr :=
  access (.member (.ident "params") "parameter") name

/-! ## Object literals -/

/-- The value of an entry: a text, the value at a path, or the value of a parameter. -/
inductive EntryValue
  | constant (text : String)
  | variable (path : String)
  | parameter (name : String)
  deriving DecidableEq, Repr

/-- The expression of the value of an entry. -/
def EntryValue.toExpr : EntryValue → Except Fault Expr
  | .constant text => .ok (.text text)
  | .variable path => pathReference path
  | .parameter name => .ok (parameterReference name)

/-- The entries of an object literal by key. -/
abbrev EntryMap := OrderedMap EntryValue

/-- The fields of an object literal. The first entry without an expression is the fault. -/
def entryFields : List (String × EntryValue) → Except Fault (List (ObjectField Expr))
  | [] => .ok []
  | (key, value) :: es => return ⟨key, ← value.toExpr⟩ :: (← entryFields es)

/-- The object literal of given fields and, after them, of a map of entries, with one
field a line. -/
def objectLiteral (entries : EntryMap) (first : List (ObjectField Expr)) : Except Fault Expr :=
  return .object (first ++ (← entryFields entries.entries)) true

end TypedClient
