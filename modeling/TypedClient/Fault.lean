/-!
# Faults of an operation

The reasons for which no method can be made for an operation.

## Main definitions

* `Fault`: the reasons
* `Fault.message`: their wording
* `Fault.isInternal`: whether the fault is in the generator and not in the operation
-/

namespace TypedClient

/-- A reason for which no method can be made for an operation. -/
inductive Fault
  /-- The kind of a schema is not one of the known kinds. -/
  | unsupportedKind (kind : String)
  /-- A segment of an access path begins with a slash. -/
  | invalidPath (path : String)
  /-- A path parameter has no placeholder in the request address. -/
  | undefinedParameter (name uri : String)
  /-- A text of a template stands where a substitution has to begin. -/
  | misplacedText (index : Nat)
  deriving DecidableEq, Repr

namespace Fault

/-- The wording of a fault. -/
def message : Fault → String
  | unsupportedKind kind => "unsupported schema kind `" ++ kind ++ "`"
  | invalidPath path =>
    "invalid identifier `" ++ path ++ "`: a path segment cannot start with '/'"
  | undefinedParameter name uri =>
    "path parameter `" ++ name ++ "` not found in request URI `" ++ uri ++ "`"
  | misplacedText index =>
    "builder invariant violated at template item " ++ Nat.repr index
      ++ ": expected an expression item, found literal text"

/-- Whether a fault shows an error of the generator: texts and substitutions come from
the generator itself. -/
def isInternal : Fault → Bool
  | misplacedText _ => true
  | _ => false

end Fault

end TypedClient
