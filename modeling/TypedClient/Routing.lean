import TypedClient.Operation
import TypedClient.Reference

/-!
# Routing of parameters

Where the values of a request are sent: the headers and the query of an operation.

## Main definitions

* `contentTypeEntry`: the header entry for a list of content types
* `Operation.headers`: the headers by name
* `Operation.query?`: the query, if there is one
-/

namespace TypedClient

open TypeScript

/-- The header entry for the content types of a request or a response: none without
content types, the content type itself if there is just one, and the caller's choice,
found at `path`, if there are more. -/
def contentTypeEntry (contentTypes : List String) (path : String) : Option EntryValue :=
  match contentTypes with
  | [] => none
  | [only] => some (.constant only)
  | _ => some (.variable path)

/-- A map with an entry that may be absent. -/
def insertOptional (entries : EntryMap) (key : String) : Option EntryValue → EntryMap
  | none => entries
  | some value => entries.insert key value

namespace Operation

/-- The headers of an operation: the content type of the request, the accepted content
type, and the header parameters, which replace the former by their names. -/
def headers (op : Operation) : EntryMap :=
  let request := contentTypeEntry op.requestContentTypes "params.headers.Content-Type"
  let response := contentTypeEntry op.responseContentTypes "params.headers.Accept"
  let types := insertOptional (insertOptional ∅ "Content-Type" request) "Accept" response
  (op.parametersIn .header).foldl (fun m p => m.insert p.name (.parameter p.name)) types

end Operation

/-- The entry of a query parameter: its value, its style if one is given, and whether it
is exploded. -/
def queryField (p : Parameter) : ObjectField Expr :=
  let style := p.style.toList.map fun s => ObjectField.mk "style" (Expr.text s.name)
  let fields := [⟨"value", parameterReference p.name⟩] ++ style
    ++ [⟨"explode", .literal (.bool p.explode)⟩]
  ⟨p.name, .object fields false⟩

/-- The query of an operation, absent without query parameters. -/
def Operation.query? (op : Operation) : Option Expr :=
  if op.shape.hasQuery then some (.object ((op.parametersIn .query).map queryField) true)
  else none

end TypedClient
