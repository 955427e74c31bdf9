import Mathlib.Data.List.Forall2
import TypedClient.Json.Value
import TypedClient.Operation

/-!
# Spelling out documents

The JSON trees that stand for a document. A record is an object with the fields that are known for
it, in any order and among any others; a field whose value is the one that counts for an absent
field can be left out. Everything is counted by how many arrays and objects may stand inside each
other, where fields that are not known do not count.

## Main definitions

* `FieldSpelling`, `RecordSpelled`: the fields of a record, and the trees of records
* `Literal.Spelled`, `Schema.Spelled`, `Content.Spelled`: the trees of schemas and their parts
* `Operation.Spelled`: the trees of operations
* `DocumentSpelled`: the trees of documents
-/

namespace TypedClient

/-! ## Records -/

/-- How a field of a record is spelled out. -/
structure FieldSpelling where
  name : String
  /-- The trees that stand for the value of the field. -/
  spells : Json → Prop
  /-- Whether the value is the one that counts for an absent field. -/
  isDefault : Prop

/-- The fields of a record with some known fields: each of these is given once, unless it has its
default and is left out. -/
structure FieldsSpelled (known : List FieldSpelling) (fields : List (String × Json)) : Prop where
  once : ∀ field ∈ known, (fields.map Prod.fst).count field.name ≤ 1
  given : ∀ field ∈ known, ∀ v, (field.name, v) ∈ fields → field.spells v
  absent : ∀ field ∈ known, field.name ∉ fields.map Prod.fst → field.isDefault

/-- The tree of an object with given keys. -/
def Json.record (fields : List (String × Json)) : Json :=
  .object (fields.map fun field => (some field.1, field.2))

/-- The trees of a record with some known fields. -/
def RecordSpelled (known : List FieldSpelling) (v : Json) : Prop :=
  ∃ fields, v = .record fields ∧ FieldsSpelled known fields

/-- A field that has to be given. -/
@[simp]
def FieldSpelling.required (name : String) (spells : Json → Prop) : FieldSpelling where
  name := name
  spells := spells
  isDefault := False

/-- A field for a value that may be null or absent if there is none. -/
@[simp]
def FieldSpelling.optional {α : Type} (name : String) (spells : α → Json → Prop)
    (value : Option α) : FieldSpelling where
  name := name
  spells v := (value = none ∧ v = .null) ∨ ∃ a, value = some a ∧ spells a v
  isDefault := value = none

/-- A field for a truth value, false if it is absent. -/
@[simp]
def FieldSpelling.flag (name : String) (value : Bool) : FieldSpelling where
  name := name
  spells v := v = .bool value
  isDefault := value = false

/-! ## Basic values -/

/-- The trees of a text. -/
@[simp]
def TextSpelled (text : String) (v : Json) : Prop :=
  v = .string (some text)

/-- The trees of a list, in which arrays and objects may be nested `depth` deep. -/
def ListSpelled {α : Type} (spells : α → Nat → Json → Prop) (xs : List α) : Nat → Json → Prop
  | 0, _ => False
  | depth + 1, v => ∃ items, v = .array items ∧ List.Forall₂ (spells · depth ·) xs items

/-- The numeral of an integer in plain decimal. -/
def Json.Numeral.ofInt (i : Int) : Json.Numeral where
  negative := i < 0
  whole := Nat.toDigits 10 i.natAbs

/-- The trees of a constant. An integer has 64 bits and is written in plain decimal; other numbers
are not considered. -/
def Literal.Spelled : Literal → Json → Prop
  | .string text, v => TextSpelled text v
  | .integer i, v =>
    -(Nat.pow 2 63 : Nat) ≤ i ∧ i < (Nat.pow 2 63 : Nat) ∧ v = .number (.ofInt i)
  | .number _, _ => False
  | .bool value, v => v = .bool value
  | .null, v => v = .null

/-! ## Schemas -/

/-- The fields of a schema, with given trees of its members and of its element. -/
def Schema.fields (kind : String) (values : Option (List Literal))
    (members : List (Member Schema)) (items : Option Schema) (depth : Nat)
    (spellsMembers spellsItems : Json → Prop) : List FieldSpelling :=
  [.required "type" (TextSpelled kind),
    .optional "enum" (ListSpelled (fun l _ => l.Spelled) · depth) values,
    { name := "properties", spells := spellsMembers, isDefault := members = [] },
    { name := "items", spells := spellsItems, isDefault := items = none }]

/-- The fields of a member of an object schema, with given trees of its schema. -/
def Member.fields (name : String) (required : Bool) (spellsSchema : Json → Prop) :
    List FieldSpelling :=
  [.required "name" (TextSpelled name), .flag "required" required,
    .required "schema" spellsSchema]

mutual

/-- The trees of a schema, in which arrays and objects may be nested `depth` deep. -/
def Schema.Spelled : Schema → Nat → Json → Prop
  | _, 0, _ => False
  | .mk kind values members items, depth + 1, v =>
    RecordSpelled (Schema.fields kind values members items depth
      (fun w => ∃ d vs, depth = d + 1 ∧ w = .array vs ∧ membersSpelled members d vs)
      (elementSpelled items depth)) v

/-- The trees of the members of an object schema, one for each. -/
def membersSpelled : List (Member Schema) → Nat → List Json → Prop
  | [], _, vs => vs = []
  | m :: ms, depth, vs => ∃ v vs', vs = v :: vs' ∧ memberSpelled m depth v ∧
      membersSpelled ms depth vs'

/-- The trees of a member of an object schema. -/
def memberSpelled : Member Schema → Nat → Json → Prop
  | _, 0, _ => False
  | ⟨name, required, schema⟩, depth + 1, v =>
    RecordSpelled (Member.fields name required (schema.Spelled depth)) v

/-- The trees of the element of an array schema, which there may be none of. -/
def elementSpelled : Option Schema → Nat → Json → Prop
  | none, _, v => v = .null
  | some schema, depth, v => schema.Spelled depth v

end

/-- The trees of schemas by content type, in their order. -/
def Content.Spelled (content : Content) : Nat → Json → Prop
  | 0, _ => False
  | depth + 1, v => ∃ fields, v = .record fields ∧
      List.Forall₂ (fun entry field => field.1 = entry.1 ∧ entry.2.Spelled depth field.2)
        content.entries fields

/-! ## Operations -/

/-- The fields of a parameter. -/
def Parameter.fields (p : Parameter) (depth : Nat) : List FieldSpelling :=
  [.required "name" (TextSpelled p.name), .required "in" (TextSpelled p.location.name),
    .flag "required" p.required, .optional "style" (TextSpelled ·.name) p.style,
    .flag "explode" p.explode,
    { name := "schema", spells := p.schema.Spelled depth, isDefault := p.schema = .any }]

/-- The trees of a parameter. -/
def Parameter.Spelled (p : Parameter) : Nat → Json → Prop
  | 0, _ => False
  | depth + 1, v => RecordSpelled (p.fields depth) v

/-- The field for schemas by content type. -/
@[simp]
def FieldSpelling.content (content : Content) (depth : Nat) : FieldSpelling where
  name := "content"
  spells := content.Spelled depth
  isDefault := content = ∅

/-- The fields of a request body. -/
def RequestBody.fields (body : RequestBody) (depth : Nat) : List FieldSpelling :=
  [.flag "required" body.required, .content body.content depth]

/-- The trees of a request body. -/
def RequestBody.Spelled (body : RequestBody) : Nat → Json → Prop
  | 0, _ => False
  | depth + 1, v => RecordSpelled (body.fields depth) v

/-- The fields of a response. -/
def Response.fields (response : Response) (depth : Nat) : List FieldSpelling :=
  [.required "status" (TextSpelled response.status), .content response.content depth]

/-- The trees of a response. -/
def Response.Spelled (response : Response) : Nat → Json → Prop
  | 0, _ => False
  | depth + 1, v => RecordSpelled (response.fields depth) v

/-- The field for a list, empty if it is absent. -/
@[simp]
def FieldSpelling.list {α : Type} (name : String) (spells : α → Nat → Json → Prop) (xs : List α)
    (depth : Nat) : FieldSpelling where
  name := name
  spells := ListSpelled spells xs depth
  isDefault := xs = []

/-- The fields of an operation. Its method is named in capitals or in small letters. -/
def Operation.fields (op : Operation) (depth : Nat) : List FieldSpelling :=
  [.required "operationId" (TextSpelled op.id),
    .optional "functionName" TextSpelled op.nameOverride,
    .required "httpMethod" fun v =>
      TextSpelled op.httpMethod.name v ∨ TextSpelled op.httpMethod.lowerName v,
    .required "requestUri" (TextSpelled op.uri), .optional "comment" TextSpelled op.comment,
    .flag "deprecated" op.isDeprecated,
    .list "parameters" Parameter.Spelled op.parameters depth,
    .optional "requestBody" (RequestBody.Spelled · depth) op.requestBody,
    .list "successResponses" Response.Spelled op.responses depth]

/-- The trees of an operation. -/
def Operation.Spelled (op : Operation) : Nat → Json → Prop
  | 0, _ => False
  | depth + 1, v => RecordSpelled (op.fields depth) v

/-- The trees of a document of operations. -/
def DocumentSpelled (ops : List Operation) : Nat → Json → Prop
  | 0, _ => False
  | depth + 1, v => RecordSpelled [.list "operations" Operation.Spelled ops depth] v

end TypedClient
