import TypedClient.Fault
import TypedClient.Files
import TypedClient.Reading

/-!
# Failures of commands

## Main definitions

* `DocumentFormat`: the formats of documents
* `Failure`: why a command failed
* `Failure.message`: the wording of a failure
-/

namespace TypedClient

/-- A format of documents. -/
inductive DocumentFormat
  | json
  | yaml
  deriving DecidableEq, Repr

/-- The format of the files with an extension, in letters of either case. -/
def DocumentFormat.ofExtension? (extension : String) : Option DocumentFormat :=
  match String.ofList (extension.toList.map Char.toLower) with
  | "json" => some .json
  | "yaml" | "yml" => some .yaml
  | _ => none

/-- The name of a format. -/
def DocumentFormat.name : DocumentFormat → String
  | json => "JSON"
  | yaml => "YAML"

/-- Why a command failed. -/
inductive Failure
  /-- The file with the choices cannot be read. -/
  | unreadableConfig (path : String) (fault : FileFault)
  /-- The file with the choices is not written as it should be. -/
  | malformedConfig
  /-- A document cannot be read. -/
  | unreadableDocument (path : String) (fault : FileFault)
  /-- A document is in none of the formats. -/
  | unknownFormat (path : String)
  /-- A document is not written as it should be. -/
  | malformedDocument (format : DocumentFormat) (fault : ReadFault)
  /-- No interface can be made of the schemas. -/
  | faultySchema (fault : Fault)
  /-- Operations had to be left out although none may be. -/
  | incomplete (omitted total : Nat)
  /-- The directory of the output cannot be made. -/
  | uncreatableDirectory (path : String) (fault : FileFault)
  /-- The output cannot be written. -/
  | unwritableOutput (path : String) (fault : FileFault)
  /-- The output that is to be checked cannot be read. -/
  | unreadableOutput (path : String) (fault : FileFault)
  /-- The output differs from what was generated. -/
  | staleOutput (path : String) (differences : String)
  deriving DecidableEq, Repr

namespace Failure

/-- What went wrong. -/
def headline : Failure → String
  | unreadableConfig path _ => "failed to read config " ++ path ++ ":"
  | malformedConfig => "failed to parse config:"
  | unreadableDocument path _ => "failed to read " ++ path ++ ":"
  | unknownFormat path =>
    "unsupported descriptor format for " ++ path ++ " (expected .json, .yaml or .yml)"
  | malformedDocument format _ => "failed to parse descriptor " ++ format.name ++ ":"
  | faultySchema fault => fault.message
  | incomplete omitted total =>
    "refusing to write: " ++ Nat.repr omitted ++ " of " ++ Nat.repr total
      ++ " operation(s) failed"
  | uncreatableDirectory path _ => "Failed to create " ++ path ++ ":"
  | unwritableOutput path _ => "Failed to write " ++ path ++ ":"
  | unreadableOutput path _ => "Failed to read " ++ path ++ ":"
  | staleOutput path differences => differences ++ path ++ " is out of date"

/-- The reason that a machine or a reader gives. -/
def reason? : Failure → Option String
  | unreadableConfig _ fault => some fault.message
  | malformedConfig => some "the text is malformed"
  | unreadableDocument _ fault => some fault.message
  | malformedDocument _ fault => some fault.message
  | uncreatableDirectory _ fault => some fault.message
  | unwritableOutput _ fault => some fault.message
  | unreadableOutput _ fault => some fault.message
  | _ => none

/-- The wording of a failure. -/
def message (failure : Failure) : String :=
  match failure.reason? with
  | some reason => failure.headline ++ " " ++ reason
  | none => failure.headline

end Failure

end TypedClient
