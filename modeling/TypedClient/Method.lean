import TypedClient.Routing
import TypedClient.Template
import TypedClient.TypeScript.Module

/-!
# Methods

The method of an operation: its signature, its comment and its body.

## Main definitions

* `MethodOptions`: what a user may choose about all methods
* `typeArguments`, `Operation.typeParams`, `parameters`, `Operation.returnType`: the
  signature
* `Operation.url`, `Operation.request`, `Operation.body`: the body
* `Operation.toMethod`: the method
-/

namespace TypedClient

open TypeScript

/-- What a user may choose about all methods. -/
structure MethodOptions where
  /-- The methods return values and not promises. -/
  sync : Bool := false
  /-- The comments name the operation and its address. -/
  extendedComment : Bool := false
  deriving DecidableEq, Repr

/-! ## Signature -/

/-- The type parameter for the content type of the request. -/
def requestChoice : String := "RequestContentType"

/-- The type parameter for the content type of the response. -/
def responseChoice : String := "ResponseContentType"

/-- The arguments of the structured argument's type, one for each choice of a content
type. -/
def typeArguments (shape : Shape) : List TypeExpr :=
  (if shape.hasRequestChoice then [.ref requestChoice] else [])
    ++ if shape.hasResponseChoice then [.ref responseChoice] else []

/-- The parameters of a method: the structured argument if it is needed, then the
options of the request. -/
def methodParams (paramsName : String) (shape : Shape) : List (Param TypeExpr) :=
  (if shape.needsParams then
    [{ name := "params", type := some (.named paramsName (typeArguments shape)) }]
  else [])
    ++ [{ name := "option", type := some (.ref "RequestOption"), optional := true }]

/-- The part of a type by content type that belongs to the content type of a request or
response: all of it without content types, one element for a single content type, and the
chosen element for several. -/
def selectContent (base : TypeExpr) (contentTypes : List String) (choice : String) :
    TypeExpr :=
  match contentTypes with
  | [] => base
  | [only] => .indexed base (.text only)
  | _ => .indexed base (.ref choice)

/-- The type by that name, or the union of the types by several names. -/
def refUnion : List String → TypeExpr
  | [only] => .ref only
  | names => .union (names.map .ref)

namespace Operation

/-- The type parameters of the method and of the structured argument's type. -/
def typeParams (op : Operation) : List (TypeParam TypeExpr) :=
  (if op.shape.hasRequestChoice then
    [⟨requestChoice, some (.ref op.requestContentTypeName)⟩]
  else [])
    ++ if op.shape.hasResponseChoice then
      [⟨responseChoice, some (.ref op.responseContentTypeName)⟩]
    else []

/-- The type of the response: nothing without responses, else the responses' types at
their content type. -/
def resultType (op : Operation) : TypeExpr :=
  if op.responses.isEmpty then .void
  else selectContent (refUnion op.responseNames) op.responseContentTypes responseChoice

/-- The return type of the method, a promise unless it is synchronous. -/
def returnType (op : Operation) (sync : Bool) : TypeExpr :=
  if sync then op.resultType else .promise op.resultType

/-- The comment of the method. An extended comment adds the id and the address of the
operation, each on a line of its own. -/
def methodComment (op : Operation) (options : MethodOptions) : Option String :=
  if options.extendedComment then
    let lines := [op.comment.getD "", "operationId: " ++ op.id, "Request URI: " ++ op.uri]
    some ("\n".intercalate (lines.filter (!·.isEmpty)))
  else op.comment

end Operation

/-! ## Body -/

/-- The mark in an address for the value of a parameter. -/
def placeholder (name : String) : String :=
  "\x7b" ++ name ++ "\x7d"

/-- The first parameter, in order, whose placeholder does not occur in an address. -/
def undefinedParameter? (uri : String) (params : List Parameter) : Option Parameter :=
  params.find? fun p => !Text.occursIn (placeholder p.name).toList uri.toList

/-- A segment of an address: the value of the first parameter whose placeholder it is,
literal text otherwise. -/
def uriPiece (params : List Parameter) (segment : String) : Piece :=
  match params.find? (fun p => placeholder p.name == segment) with
  | some p => .expr (parameterReference p.name)
  | none => .text segment

/-- The template of an address, with every placeholder of a parameter replaced by the
parameter's value. -/
def uriTemplate (uri : String) (params : List Parameter) : Except Fault (Template Expr) :=
  templateOf ((splitAll uri (params.map (placeholder ·.name))).map (uriPiece params))

namespace Operation

/-- The address of the request: the template of the operation's address after the base
address. Every path parameter needs a placeholder. -/
def url (op : Operation) : Except Fault Expr := do
  let params := op.parametersIn .path
  -- with every placeholder in place, only texts and substitutions are left
  match undefinedParameter? op.uri params with
  | some p => throw (.undefinedParameter p.name op.uri)
  | none => return .plus (.member .this "baseUrl") (.template (← uriTemplate op.uri params))

/-- The call that sends the request. -/
def request (op : Operation) : Except Fault Expr := do
  let withBody := insertOptional ∅ "requestBody"
    (if op.shape.hasBody then some (.variable "params.requestBody") else none)
  let entries := insertOptional withBody "queryParameters"
    (if op.query?.isSome then some (.variable "queryParameters") else none)
  let argument ← objectLiteral entries
    [⟨"httpMethod", .text op.httpMethod.name⟩, ⟨"url", .ident "url"⟩,
      ⟨"headers", .ident "headers"⟩]
  return .call (.member (.member .this "apiClient") "request") [argument, .ident "option"]

/-- The statements of the method: the address, the headers, the query if there is one,
and the request. -/
def body (op : Operation) : Except Fault (List Stmt) := do
  let url ← op.url
  let headers ← objectLiteral op.headers []
  let query := op.query?.toList.map fun q =>
    Stmt.const "queryParameters" (some (.ref "QueryParameters")) q
  let request ← op.request
  return [.const "url" none url, .const "headers" none headers] ++ query
    ++ [.return (some request)]

/-- The method of an operation. -/
def toMethod (op : Operation) (options : MethodOptions) : Except Fault Method := do
  return {
    name := op.functionName
    typeParams := op.typeParams
    params := methodParams op.paramsName op.shape
    returnType := op.returnType options.sync
    body := ← op.body
    isAsync := !options.sync
    comment := op.methodComment options
    isDeprecated := op.isDeprecated
  }

end Operation

end TypedClient
