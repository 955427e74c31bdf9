import TypedClient.Number.Binary64

/-!
# Constants

The constants of a schema's enumeration, which become types and expressions of the
generated program.

## Main definitions

* `Literal`: a text, a number, an integer, a truth value or null
-/

namespace TypedClient

/-- A constant. An integer is kept apart from a number, because it is exact. -/
inductive Literal
  | string (text : String)
  | number (value : Binary64)
  | integer (value : Int)
  | bool (value : Bool)
  | null
  deriving DecidableEq, Repr

end TypedClient
