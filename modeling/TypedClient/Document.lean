import TypedClient.Operation
import TypedClient.Reading

/-!
# Documents

The written form of schemas, operations and documents: which fields a record has, in
which order they stand when they are given by position, and which of them may be absent.
It is the same in every format.

## Main definitions

* `readSchema`: a schema
* `readOperation`: an operation
* `readOperations`: a document of operations
* `readSchemaMap`: schemas by name
-/

namespace TypedClient

variable {m : Type → Type} [Monad m] [MonadExcept ReadFault m] {ν : Type}

/-! ## Schemas -/

/-- A field of a schema. -/
inductive SchemaField
  | kind (name : String)
  | values (values : Option (List Literal))
  | members (members : List (Member Schema))
  | items (items : Option Schema)

/-- A schema from its fields. -/
def Schema.ofFields (fields : List SchemaField) : Except ReadFault Schema := do
  let kind ← requiredField "type" (fun | .kind k => some k | _ => none) fields
  let values := optionalField (fun | .values vs => some vs | _ => none) fields
  let members := optionalField (fun | .members ms => some ms | _ => none) fields
  let items := optionalField (fun | .items s => some s | _ => none) fields
  return .mk kind values.join (members.getD []) items.join

/-- A field of a member of an object schema. -/
inductive MemberField
  | name (name : String)
  | required (required : Bool)
  | schema (schema : Schema)

/-- A member from its fields. -/
def Member.ofFields (fields : List MemberField) : Except ReadFault (Member Schema) := do
  let name ← requiredField "name" (fun | .name n => some n | _ => none) fields
  let required := optionalField (fun | .required b => some b | _ => none) fields
  let schema ← requiredField "schema" (fun | .schema s => some s | _ => none) fields
  return { name, required := required.getD false, schema }

/-- The fields of a member, with a given reader of schemas. -/
def memberReaders (f : Format m ν) (schema : Reader m ν Schema) : FieldReaders m ν MemberField :=
  [("name", fun v => .name <$> f.text v),
    ("required", fun v => .required <$> f.flag v),
    ("schema", fun v => .schema <$> schema v)]

/-- The fields of a schema, with given readers of its constants, members and element. -/
def schemaReaders (f : Format m ν) (values : Reader m ν (List Literal))
    (members : Reader m ν (List (Member Schema))) (items : Reader m ν Schema) :
    FieldReaders m ν SchemaField :=
  [("type", fun v => .kind <$> f.text v),
    ("enum", fun v => .values <$> f.option values v),
    ("properties", fun v => .members <$> members v),
    ("items", fun v => .items <$> f.option items v)]

/-- A schema, where lists and records may still be nested `depth` deep. The schema of a
member is three levels down, in a list of records. -/
def readSchema (f : Format m ν) : Nat → Reader m ν Schema
  | 0 => fun _ => throw .tooDeep
  | depth + 1 =>
    let member : Reader m ν (Member Schema) :=
      -- one level for the list, one for the member, one for its schema
      match depth with
      | d + 2 =>
        f.recordOf (d + 1) 3 (fun _ => memberReaders f (readSchema f d)) Member.ofFields
      | _ => fun _ => throw .tooDeep
    let readers := schemaReaders f (f.list depth fun _ => f.constant)
      (f.list depth fun _ => member) (readSchema f depth)
    f.recordOf (depth + 1) 4 (fun _ => readers) Schema.ofFields

/-- Schemas by name, in the order of first occurrence; of several schemas for one name
the last one counts. -/
def readContent (f : Format m ν) (depth : Nat) : Reader m ν Content := fun v =>
  OrderedMap.ofList <$> f.map depth (readSchema f) v

/-! ## Operations -/

/-- A field of a parameter. -/
inductive ParameterField
  | name (name : String)
  | location (location : Location)
  | required (required : Bool)
  | style (style : Option Style)
  | explode (explode : Bool)
  | schema (schema : Schema)

/-- A parameter from its fields. -/
def Parameter.ofFields (fields : List ParameterField) : Except ReadFault Parameter := do
  let name ← requiredField "name" (fun | .name n => some n | _ => none) fields
  let location ← requiredField "in" (fun | .location l => some l | _ => none) fields
  let required := optionalField (fun | .required b => some b | _ => none) fields
  let style := optionalField (fun | .style s => some s | _ => none) fields
  let explode := optionalField (fun | .explode b => some b | _ => none) fields
  let schema := optionalField (fun | .schema s => some s | _ => none) fields
  return {
    name
    location
    required := required.getD false
    style := style.join
    explode := explode.getD false
    schema := schema.getD Schema.any
  }

/-- The fields of a parameter. -/
def parameterReaders (f : Format m ν) (depth : Nat) : FieldReaders m ν ParameterField :=
  [("name", fun v => .name <$> f.text v),
    ("in", fun v => .location <$> f.oneOf Location.ofName? v),
    ("required", fun v => .required <$> f.flag v),
    ("style", fun v => .style <$> f.option (f.oneOf Style.ofName?) v),
    ("explode", fun v => .explode <$> f.flag v),
    ("schema", fun v => .schema <$> readSchema f depth v)]

/-- A parameter. -/
def readParameter (f : Format m ν) (depth : Nat) : Reader m ν Parameter :=
  f.recordOf depth 4 (parameterReaders f) Parameter.ofFields

/-- A field of a request body. -/
inductive BodyField
  | required (required : Bool)
  | content (content : Content)

/-- A request body from its fields. -/
def RequestBody.ofFields (fields : List BodyField) : RequestBody :=
  let required := optionalField (fun | .required b => some b | _ => none) fields
  let content := optionalField (fun | .content c => some c | _ => none) fields
  { required := required.getD false, content := content.getD ∅ }

/-- The fields of a request body. -/
def bodyReaders (f : Format m ν) (depth : Nat) : FieldReaders m ν BodyField :=
  [("required", fun v => .required <$> f.flag v),
    ("content", fun v => .content <$> readContent f depth v)]

/-- A request body. -/
def readBody (f : Format m ν) (depth : Nat) : Reader m ν RequestBody := fun v =>
  RequestBody.ofFields <$> f.record depth 0 (bodyReaders f) v

/-- A field of a response. -/
inductive ResponseField
  | status (status : String)
  | content (content : Content)

/-- A response from its fields. -/
def Response.ofFields (fields : List ResponseField) : Except ReadFault Response := do
  let status ← requiredField "status" (fun | .status s => some s | _ => none) fields
  let content := optionalField (fun | .content c => some c | _ => none) fields
  return { status, content := content.getD ∅ }

/-- The fields of a response. -/
def responseReaders (f : Format m ν) (depth : Nat) : FieldReaders m ν ResponseField :=
  [("status", fun v => .status <$> f.text v),
    ("content", fun v => .content <$> readContent f depth v)]

/-- A response. -/
def readResponse (f : Format m ν) (depth : Nat) : Reader m ν Response :=
  f.recordOf depth 1 (responseReaders f) Response.ofFields

/-- A field of an operation. -/
inductive OperationField
  | id (id : String)
  | nameOverride (name : Option String)
  | httpMethod (method : HttpMethod)
  | uri (uri : String)
  | comment (comment : Option String)
  | deprecated (deprecated : Bool)
  | parameters (parameters : List Parameter)
  | requestBody (body : Option RequestBody)
  | responses (responses : List Response)

/-- An operation from its fields. -/
def Operation.ofFields (fields : List OperationField) : Except ReadFault Operation := do
  let id ← requiredField "operationId" (fun | .id i => some i | _ => none) fields
  let name := optionalField (fun | .nameOverride n => some n | _ => none) fields
  let method ← requiredField "httpMethod" (fun | .httpMethod m => some m | _ => none) fields
  let uri ← requiredField "requestUri" (fun | .uri u => some u | _ => none) fields
  let comment := optionalField (fun | .comment c => some c | _ => none) fields
  let deprecated := optionalField (fun | .deprecated b => some b | _ => none) fields
  let parameters := optionalField (fun | .parameters ps => some ps | _ => none) fields
  let body := optionalField (fun | .requestBody b => some b | _ => none) fields
  let responses := optionalField (fun | .responses rs => some rs | _ => none) fields
  return {
    id
    nameOverride := name.join
    httpMethod := method
    uri
    comment := comment.join
    isDeprecated := deprecated.getD false
    parameters := parameters.getD []
    requestBody := body.join
    responses := responses.getD []
  }

/-- The fields of an operation. -/
def operationReaders (f : Format m ν) (depth : Nat) : FieldReaders m ν OperationField :=
  [("operationId", fun v => .id <$> f.text v),
    ("functionName", fun v => .nameOverride <$> f.option f.text v),
    ("httpMethod", fun v => .httpMethod <$> f.oneOf HttpMethod.ofName? v),
    ("requestUri", fun v => .uri <$> f.text v),
    ("comment", fun v => .comment <$> f.option f.text v),
    ("deprecated", fun v => .deprecated <$> f.flag v),
    ("parameters", fun v => .parameters <$> f.list depth (readParameter f) v),
    ("requestBody", fun v => .requestBody <$> f.option (readBody f depth) v),
    ("successResponses", fun v => .responses <$> f.list depth (readResponse f) v)]

/-- An operation. -/
def readOperation (f : Format m ν) (depth : Nat) : Reader m ν Operation :=
  f.recordOf depth 8 (operationReaders f) Operation.ofFields

/-! ## Documents -/

/-- The one field of a document. -/
def documentReaders (f : Format m ν) (depth : Nat) : FieldReaders m ν (List Operation) :=
  [("operations", f.list depth (readOperation f))]

/-- The operations of a document. -/
def readOperations (f : Format m ν) : Reader m ν (List Operation) := fun v => do
  let fields ← f.record f.depth 0 (documentReaders f) v
  return fields.head?.getD []

/-- A document that is one schema. -/
def readSchemaOnly (f : Format m ν) : Reader m ν Schema :=
  readSchema f f.depth

/-- A document of schemas by name. -/
def readSchemaMap (f : Format m ν) : Reader m ν (OrderedMap Schema) :=
  readContent f f.depth

end TypedClient
