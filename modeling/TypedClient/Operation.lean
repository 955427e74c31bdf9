import TypedClient.Identifier
import TypedClient.OrderedMap
import TypedClient.Schema

/-!
# Operations

An operation is one request of the described interface. What the generator decides from
its shape, and the names of the types it declares, are functions of it.

## Main definitions

* `Operation`, `Parameter`, `RequestBody`, `Response`: the description of a request
* `Operation.functionName`, `Operation.paramsName` and the other names
* `Operation.requestContentTypes`, `Operation.responseContentTypes`: the content types,
  each once
* `Shape`: the facts the form of a method depends on
-/

namespace TypedClient

/-- A request method. -/
inductive HttpMethod
  | get
  | put
  | post
  | delete
  | options
  | head
  | patch
  | trace
  deriving DecidableEq, Repr

namespace HttpMethod

/-- All methods, in the order in which the runtime contract lists them. -/
def all : List HttpMethod :=
  [get, put, post, delete, options, head, patch, trace]

/-- The name of a method, in capitals. -/
def name : HttpMethod → String
  | get => "GET"
  | put => "PUT"
  | post => "POST"
  | delete => "DELETE"
  | options => "OPTIONS"
  | head => "HEAD"
  | patch => "PATCH"
  | trace => "TRACE"

/-- The name of a method in small letters. -/
def lowerName : HttpMethod → String
  | get => "get"
  | put => "put"
  | post => "post"
  | delete => "delete"
  | options => "options"
  | head => "head"
  | patch => "patch"
  | trace => "trace"

/-- The method with a name, all in capitals or all in small letters. -/
def ofName? (text : String) : Option HttpMethod :=
  all.find? fun m => m.name == text || m.lowerName == text

theorem mem_all (m : HttpMethod) : m ∈ all := by
  cases m <;> decide

theorem ofName?_name (m : HttpMethod) : ofName? m.name = some m := by
  cases m <;> decide

theorem ofName?_lowerName (m : HttpMethod) : ofName? m.lowerName = some m := by
  cases m <;> decide

end HttpMethod

/-- Where the value of a parameter is sent. -/
inductive Location
  | path
  | query
  | header
  | cookie
  deriving DecidableEq, Repr

namespace Location

/-- All locations. -/
def all : List Location :=
  [path, query, header, cookie]

/-- The name of a location. -/
def name : Location → String
  | path => "path"
  | query => "query"
  | header => "header"
  | cookie => "cookie"

/-- The location with a name. -/
def ofName? (text : String) : Option Location :=
  all.find? (·.name == text)

theorem ofName?_name (l : Location) : ofName? l.name = some l := by
  cases l <;> decide

end Location

/-- How the value of a parameter is written into the request. -/
inductive Style
  | matrix
  | label
  | form
  | simple
  | spaceDelimited
  | pipeDelimited
  | deepObject
  deriving DecidableEq, Repr

namespace Style

/-- All styles. -/
def all : List Style :=
  [matrix, label, form, simple, spaceDelimited, pipeDelimited, deepObject]

/-- The name of a style. -/
def name : Style → String
  | matrix => "matrix"
  | label => "label"
  | form => "form"
  | simple => "simple"
  | spaceDelimited => "spaceDelimited"
  | pipeDelimited => "pipeDelimited"
  | deepObject => "deepObject"

/-- The style with a name. -/
def ofName? (text : String) : Option Style :=
  all.find? (·.name == text)

theorem ofName?_name (s : Style) : ofName? s.name = some s := by
  cases s <;> decide

theorem name_injective : Function.Injective name := by
  intro s t h
  have hs := ofName?_name s
  rw [h, ofName?_name] at hs
  exact (Option.some.inj hs).symm

end Style

/-- A parameter. -/
structure Parameter where
  name : String
  location : Location
  required : Bool := false
  style : Option Style := none
  explode : Bool := false
  schema : Schema := Schema.any
  deriving Repr

/-- Schemas by content type. -/
abbrev Content := OrderedMap Schema

/-- A request body. -/
structure RequestBody where
  required : Bool := false
  content : Content := ∅
  deriving Repr

/-- A success response. -/
structure Response where
  status : String
  content : Content := ∅
  deriving Repr

/-- An operation as it is described. -/
structure Operation where
  id : String
  nameOverride : Option String := none
  httpMethod : HttpMethod
  uri : String
  comment : Option String := none
  isDeprecated : Bool := false
  parameters : List Parameter := []
  requestBody : Option RequestBody := none
  responses : List Response := []
  deriving Repr

/-- The facts the form of a method depends on. -/
structure Shape where
  /-- There is a parameter, wherever it is sent. -/
  hasParameters : Bool := false
  /-- A request body is described. -/
  hasBody : Bool := false
  /-- The request body has two or more content types. -/
  hasRequestChoice : Bool := false
  /-- The responses have two or more different content types. -/
  hasResponseChoice : Bool := false
  /-- There is a query parameter. -/
  hasQuery : Bool := false
  deriving DecidableEq, Repr

/-- Whether a method takes a structured argument. A query parameter is a parameter, so it
does not count by itself. -/
def Shape.needsParams (shape : Shape) : Bool :=
  shape.hasParameters || shape.hasBody || shape.hasRequestChoice || shape.hasResponseChoice

/-- Texts without repetitions, each where it is first. -/
def firstOccurrences (texts : List String) : List String :=
  texts.foldl (fun seen t => if t ∈ seen then seen else seen ++ [t]) []

namespace Operation

/-- The name of the method: made from the override, or from the id without one. -/
def functionName (op : Operation) : String :=
  Identifier.ofId (op.nameOverride.getD op.id)

/-! ## Names of the declared types -/

/-- The name of the structured argument's type. -/
def paramsName (op : Operation) : String :=
  "Params$" ++ op.functionName

/-- The name of the type of all parameters. -/
def parameterName (op : Operation) : String :=
  "Parameter$" ++ op.functionName

/-- The name of the type of the request body by content type. -/
def requestBodyName (op : Operation) : String :=
  "RequestBody$" ++ op.functionName

/-- The name of the type of the request content types. -/
def requestContentTypeName (op : Operation) : String :=
  "RequestContentType$" ++ op.functionName

/-- The name of the type of the response content types. -/
def responseContentTypeName (op : Operation) : String :=
  "ResponseContentType$" ++ op.functionName

/-- The name of the type of one response by content type. -/
def responseName (op : Operation) (response : Response) : String :=
  "Response$" ++ op.functionName ++ "$Status$" ++ response.status

/-- The names of the types of all responses. -/
def responseNames (op : Operation) : List String :=
  op.responses.map op.responseName

/-! ## Content types and shape -/

/-- The content types of the request body. -/
def requestContentTypes (op : Operation) : List String :=
  match op.requestBody with
  | none => []
  | some body => body.content.keys

/-- The content types of all responses together, each where it is first. -/
def responseContentTypes (op : Operation) : List String :=
  firstOccurrences (op.responses.flatMap (·.content.keys))

/-- The parameters sent to one location, in their order. -/
def parametersIn (op : Operation) (location : Location) : List Parameter :=
  op.parameters.filter (·.location == location)

/-- The shape of an operation. -/
def shape (op : Operation) : Shape where
  hasParameters := !op.parameters.isEmpty
  hasBody := op.requestBody.isSome
  hasRequestChoice := 2 ≤ op.requestContentTypes.length
  hasResponseChoice := 2 ≤ op.responseContentTypes.length
  hasQuery := op.parameters.any (·.location == .query)

end Operation

end TypedClient
