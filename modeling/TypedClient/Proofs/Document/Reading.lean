import TypedClient.Document
import TypedClient.Proofs.Document.Record
import TypedClient.Proofs.Json.Reading

/-!
# Reading documents from JSON

A text that spells out a document is read as this document, for each of its texts: the fields of a
record may stand in any order and among others, and a field with its default may be absent. What
a text is comes from the grammar of JSON, what a tree of the document is from its fields; the
reader has no part in either.

## Main results

* `Json.Numeral.toLiteral?_ofInt`: integers of 64 bits stay exact
* `Schema.reads`, `Content.reads`: the trees of schemas are read
* `Parameter.reads`, `RequestBody.reads`, `Response.reads`, `Operation.reads`: those of operations
* `decode_spelled_document`: the texts of documents are read
-/

namespace TypedClient

open Json (format)

/-! ## Constants -/

namespace Json.Numeral

theorem le_ofDigitChars {ds : List Char} {n : Nat} : n ≤ Nat.ofDigitChars 10 ds n := by
  induction ds generalizing n with
  | nil => exact Nat.le_refl n
  | cons d ds ih => exact Nat.le_trans (by omega) (ih (n := 10 * n + (d.toNat - '0'.toNat)))

/-- Digits are taken to the end as long as their value is within the bound. -/
theorem extend_eq_ofDigitChars {bound n : Nat} {ds : List Char}
    (h : Nat.ofDigitChars 10 ds n ≤ bound) :
    extend bound n ds = (Nat.ofDigitChars 10 ds n, []) := by
  induction ds generalizing n with
  | nil => rfl
  | cons d ds ih =>
    have hstep : ¬ bound < 10 * n + (d.toNat - '0'.toNat) :=
      Nat.not_lt.mpr (le_ofDigitChars.trans h)
    rw [extend]
    simp only [if_neg hstep]
    exact ih h

/-- **An integer of 64 bits in plain decimal stays exact.** -/
theorem toLiteral?_ofInt {i : Int} (hlow : -(Nat.pow 2 63 : Nat) ≤ i)
    (hhigh : i < (Nat.pow 2 63 : Nat)) : (ofInt i).toLiteral? = some (.integer i) := by
  have hbound : i.natAbs ≤ maxSignificand := by
    have : Nat.pow 2 63 ≤ maxSignificand := by decide
    omega
  have hextend : extend maxSignificand 0 (Nat.toDigits 10 i.natAbs) = (i.natAbs, []) := by
    have hvalue := Nat.ofDigitChars_ten_toDigits (n := i.natAbs)
    rw [extend_eq_ofDigitChars (hvalue.trans_le hbound), hvalue]
  rw [toLiteral?, ofInt]
  by_cases hi : i < 0
  · have hvalue : -(i.natAbs : Int) = i := by omega
    have hpos : decide (0 < i.natAbs) = true := decide_eq_true (by omega)
    have hle : decide (i.natAbs ≤ Nat.pow 2 63) = true := decide_eq_true (by omega)
    simp only [hextend, hi, hvalue, hpos, hle]
    rfl
  · have hvalue : (i.natAbs : Int) = i := by omega
    have hlt : decide (i.natAbs < Nat.pow 2 63) = true := decide_eq_true (by omega)
    simp only [hextend, hi, hvalue, hlt]
    rfl

end Json.Numeral

theorem Literal.reads (l : Literal) : Reads l.Spelled format.constant l := by
  intro v _ hv
  cases l with
  | string text =>
    obtain rfl := hv
    rfl
  | integer i =>
    obtain ⟨hlow, hhigh, rfl⟩ := hv
    simp only [format, Json.asConstant, Json.Numeral.toLiteral?_ofInt hlow hhigh]
  | number value => exact hv.elim
  | bool value =>
    obtain rfl := hv
    rfl
  | null =>
    obtain rfl := hv
    rfl

/-! ## Schemas -/

/-- A member of an object schema, with its schema one level down. -/
def readSchemaMember : Nat → Reader (Except ReadFault) Json (Member Schema)
  | 0 => fun _ => throw .tooDeep
  | depth + 1 =>
    format.recordOf (depth + 1) 3 (fun _ => memberReaders format (readSchema format depth))
      Member.ofFields

/-- The reader of a schema finds the levels of its members by cases; here they are counted in the
list of members and in each of them. -/
theorem readSchema_succ (depth : Nat) :
    readSchema format (depth + 1) =
      format.recordOf (depth + 1) 4
        (fun _ => schemaReaders format (format.list depth fun _ => format.constant)
          (format.list depth readSchemaMember) (readSchema format depth)) Schema.ofFields := by
  rcases depth with - | - | d
  · rfl
  · rfl
  · rfl

section Schemas

variable {name kind : String} {required : Bool} {values : Option (List Literal)}
  {members : List (Member Schema)} {schema : Schema} {items : Option Schema} {depth : Nat}
  {spellsSchema spellsMembers spellsItems : Json → Prop}

theorem Schema.ofFields_eq_ok {ys : List SchemaField}
    (h : RecordHolds (Schema.fields kind values members items depth spellsMembers spellsItems)
      [.kind kind, .values values, .members members, .items items] ys) :
    Schema.ofFields ys = .ok (.mk kind values members items) := by
  obtain ⟨hys, hgiven⟩ := h
  simp only [Schema.fields, List.forall₂_cons] at hgiven
  obtain ⟨hkind, hvalues, hmembers, hitems, -⟩ := hgiven
  refine bind_eq_ok.mpr ⟨kind, requiredField_eq_ok hys (by simp) hkind rfl, pure_eq_ok.mpr ?_⟩
  rw [join_optionalField hys ?_ hvalues rfl, getD_optionalField hys ?_ hmembers rfl,
    join_optionalField hys ?_ hitems rfl]
  all_goals simp

theorem Member.ofFields_eq_ok {ys : List MemberField}
    (h : RecordHolds (Member.fields name required spellsSchema)
      [.name name, .required required, .schema schema] ys) :
    Member.ofFields ys = .ok ⟨name, required, schema⟩ := by
  obtain ⟨hys, hgiven⟩ := h
  simp only [Member.fields, List.forall₂_cons] at hgiven
  obtain ⟨hname, hrequired, hschema, -⟩ := hgiven
  refine bind_eq_ok.mpr ⟨name, requiredField_eq_ok hys (by simp) hname rfl,
    bind_eq_ok.mpr ⟨schema, requiredField_eq_ok hys (by simp) hschema rfl, pure_eq_ok.mpr ?_⟩⟩
  rw [getD_optionalField hys ?_ hrequired rfl]
  simp

theorem schema_names_nodup :
    ((Schema.fields kind values members items depth spellsMembers spellsItems).map
      FieldSpelling.name).Nodup := by
  change ["type", "enum", "properties", "items"].Nodup
  decide

theorem member_names_nodup :
    ((Member.fields name required spellsSchema).map FieldSpelling.name).Nodup := by
  change ["name", "required", "schema"].Nodup
  decide

end Schemas

theorem membersSpelled_iff {ms : List (Member Schema)} {depth : Nat} {vs : List Json} :
    membersSpelled ms depth vs ↔ List.Forall₂ (memberSpelled · depth ·) ms vs := by
  induction ms generalizing vs with
  | nil => rw [membersSpelled, List.forall₂_nil_left_iff]
  | cons m ms ih =>
    rw [membersSpelled, List.forall₂_cons_left_iff]
    constructor
    · rintro ⟨v, vs', rfl, hv, hvs⟩
      exact ⟨v, vs', hv, ih.mp hvs, rfl⟩
    · rintro ⟨v, vs', hv, hvs, rfl⟩
      exact ⟨v, vs', rfl, hv, ih.mpr hvs⟩

theorem Schema.not_spelled_null (s : Schema) (depth : Nat) : ¬ s.Spelled depth .null := by
  obtain ⟨kind, values, members, items⟩ := s
  cases depth <;> rw [Schema.Spelled]
  · exact id
  · exact not_recordSpelled_null

mutual

/-- **The trees of a schema are read as this schema**, by recursion on its members and its element,
which are both read with fewer levels left. -/
theorem Schema.reads : ∀ (s : Schema) (depth : Nat),
    Reads (s.Spelled depth) (readSchema format depth) s
  | s, 0 => by
    intro v _ hv
    rw [Schema.Spelled] at hv
    exact hv.elim
  | .mk kind values members items, depth + 1 => by
    intro v hwhole hv
    rw [Schema.Spelled] at hv
    rw [readSchema_succ]
    refine Reads.recordOf (.cons ?_ <| .cons ?_ <| .cons ?_ <| .cons ?_ .nil) schema_names_nodup
      (fun ys h => Schema.ofFields_eq_ok h) v hwhole hv
    · exact (Reads.text kind).map _
    · refine (Reads.option (fun vs => ?_) fun vs => not_listSpelled_null).map _
      exact .list (fun l _ _ => l.reads) depth
    · refine Reads.map ?_ _
      rintro w hw ⟨d, vs, rfl, rfl, hvs⟩
      exact Reads.list (membersRead members) (d + 1) _ hw ⟨vs, rfl, membersSpelled_iff.mp hvs⟩
    · exact (elementReads items depth).map _

theorem membersRead : ∀ (ms : List (Member Schema)), ∀ m ∈ ms, ∀ d : Nat,
    Reads (memberSpelled m d) (readSchemaMember d) m
  | [] => nofun
  | m :: ms => List.forall_mem_cons.mpr ⟨memberReads m, membersRead ms⟩

theorem memberReads : ∀ (m : Member Schema) (d : Nat),
    Reads (memberSpelled m d) (readSchemaMember d) m
  | m, 0 => by
    intro v _ hv
    rw [memberSpelled] at hv
    exact hv.elim
  | ⟨name, required, schema⟩, d + 1 => by
    intro v hwhole hv
    rw [memberSpelled] at hv
    refine Reads.recordOf (.cons ?_ <| .cons ?_ <| .cons ?_ .nil) member_names_nodup
      (fun ys h => Member.ofFields_eq_ok h) v hwhole hv
    · exact (Reads.text name).map _
    · exact (Reads.flag required).map _
    · exact (schema.reads d).map _

theorem elementReads : ∀ (items : Option Schema) (depth : Nat),
    Reads (elementSpelled items depth) (format.option (readSchema format depth)) items
  | none, depth => by
    intro v _ hv
    rw [elementSpelled] at hv
    rw [hv]
    rfl
  | some schema, depth => by
    intro v hwhole hv
    rw [elementSpelled] at hv
    refine option_eq_ok (schema.reads depth v hwhole hv) ?_
    rintro rfl
    exact schema.not_spelled_null depth hv

end

/-! ## Schemas by content type -/

theorem readEntries_eq_ok {α : Type} {read : Reader (Except ReadFault) Json α}
    {entries : List (String × α)} {fields : List (String × Json)}
    (h : List.Forall₂ (fun entry field => field.1 = entry.1 ∧ read field.2 = .ok entry.2)
      entries fields) :
    readEntries read (fields.map fun field => (.ok field.1, field.2)) = .ok entries := by
  induction h with
  | nil => rfl
  | @cons entry field entries fields hfirst _ ih =>
    obtain ⟨hkey, hvalue⟩ := hfirst
    exact bind_eq_ok.mpr ⟨entry.1, congrArg _ hkey,
      bind_eq_ok.mpr ⟨entry.2, hvalue, bind_eq_ok.mpr ⟨entries, ih, rfl⟩⟩⟩

/-- The trees of schemas by content type are read in their order. -/
theorem Content.reads (content : Content) :
    ∀ depth, Reads (content.Spelled depth) (readContent format depth) content
  | 0 => fun _ _ hv => hv.elim
  | depth + 1 => by
    rintro v hwhole ⟨fields, rfl, hfields⟩
    refine map_eq_ok.mpr ⟨content.entries, ?_, content.ofList_entries⟩
    change readEntries (readSchema format depth)
      ((fields.map fun p => (some p.1, p.2)).map fun p => (Json.keyOf p.1, p.2)) = _
    rw [List.map_map]
    refine readEntries_eq_ok (List.forall₂_iff_zip.mpr ⟨hfields.length_eq, fun {e f} hmem => ?_⟩)
    obtain ⟨hkey, hschema⟩ := (List.forall₂_iff_zip.mp hfields).2 hmem
    have hf : f.2.isWhole = true :=
      membersWhole_iff.mp hwhole _ (List.mem_map.mpr ⟨f, (List.of_mem_zip hmem).2, rfl⟩)
    exact ⟨hkey, e.2.reads depth f.2 hf hschema⟩

/-! ## Operations -/

theorem Parameter.ofFields_eq_ok {p : Parameter} {depth : Nat} {ys : List ParameterField}
    (h : RecordHolds (p.fields depth)
      [.name p.name, .location p.location, .required p.required, .style p.style,
        .explode p.explode, .schema p.schema] ys) :
    Parameter.ofFields ys = .ok p := by
  obtain ⟨hys, hgiven⟩ := h
  simp only [Parameter.fields, List.forall₂_cons] at hgiven
  obtain ⟨hname, hlocation, hrequired, hstyle, hexplode, hschema, -⟩ := hgiven
  refine bind_eq_ok.mpr ⟨p.name, requiredField_eq_ok hys (by simp) hname rfl,
    bind_eq_ok.mpr ⟨p.location, requiredField_eq_ok hys (by simp) hlocation rfl,
      pure_eq_ok.mpr ?_⟩⟩
  rw [getD_optionalField hys ?_ hrequired rfl, join_optionalField hys ?_ hstyle rfl,
    getD_optionalField hys ?_ hexplode rfl, getD_optionalField hys ?_ hschema rfl]
  all_goals simp

theorem Parameter.reads (p : Parameter) :
    ∀ depth, Reads (p.Spelled depth) (readParameter format depth) p
  | 0 => fun _ _ hv => hv.elim
  | depth + 1 => by
    refine Reads.recordOf (.cons ?_ <| .cons ?_ <| .cons ?_ <| .cons ?_ <| .cons ?_ <|
      .cons ?_ .nil) ?_ fun ys h => Parameter.ofFields_eq_ok h
    · exact (Reads.text p.name).map _
    · exact (Reads.oneOf (Location.ofName?_name p.location)).map _
    · exact (Reads.flag p.required).map _
    · exact (Reads.option (fun s => .oneOf (Style.ofName?_name s)) nofun).map _
    · exact (Reads.flag p.explode).map _
    · exact (p.schema.reads depth).map _
    · change ["name", "in", "required", "style", "explode", "schema"].Nodup
      decide

theorem RequestBody.ofFields_eq {body : RequestBody} {depth : Nat} {ys : List BodyField}
    (h : RecordHolds (body.fields depth) [.required body.required, .content body.content] ys) :
    RequestBody.ofFields ys = body := by
  obtain ⟨hys, hgiven⟩ := h
  simp only [RequestBody.fields, List.forall₂_cons] at hgiven
  obtain ⟨hrequired, hcontent, -⟩ := hgiven
  rw [RequestBody.ofFields, getD_optionalField hys ?_ hrequired rfl,
    getD_optionalField hys ?_ hcontent rfl]
  all_goals simp

theorem RequestBody.reads (body : RequestBody) :
    ∀ depth, Reads (body.Spelled depth) (readBody format depth) body
  | 0 => fun _ _ hv => hv.elim
  | depth + 1 => by
    intro v hwhole hv
    have hread : FieldsRead (body.fields depth) (bodyReaders format depth)
        [.required body.required, .content body.content] :=
      .cons ((Reads.flag body.required).map _) (.cons ((body.content.reads depth).map _) .nil)
    have hnames : ((body.fields depth).map FieldSpelling.name).Nodup := by
      change ["required", "content"].Nodup
      decide
    obtain ⟨ys, hys, hholds⟩ := exists_record hread hnames hwhole hv 0
    exact map_eq_ok.mpr ⟨ys, hys, RequestBody.ofFields_eq hholds⟩

theorem RequestBody.not_spelled_null (body : RequestBody) :
    ∀ depth, ¬ body.Spelled depth .null
  | 0 => id
  | _ + 1 => not_recordSpelled_null

theorem Response.ofFields_eq_ok {response : Response} {depth : Nat} {ys : List ResponseField}
    (h : RecordHolds (response.fields depth)
      [.status response.status, .content response.content] ys) :
    Response.ofFields ys = .ok response := by
  obtain ⟨hys, hgiven⟩ := h
  simp only [Response.fields, List.forall₂_cons] at hgiven
  obtain ⟨hstatus, hcontent, -⟩ := hgiven
  refine bind_eq_ok.mpr ⟨response.status, requiredField_eq_ok hys (by simp) hstatus rfl,
    pure_eq_ok.mpr ?_⟩
  rw [getD_optionalField hys ?_ hcontent rfl]
  simp

theorem Response.reads (response : Response) :
    ∀ depth, Reads (response.Spelled depth) (readResponse format depth) response
  | 0 => fun _ _ hv => hv.elim
  | depth + 1 => by
    refine Reads.recordOf (.cons ?_ <| .cons ?_ .nil) ?_ fun ys h => Response.ofFields_eq_ok h
    · exact (Reads.text response.status).map _
    · exact (response.content.reads depth).map _
    · change ["status", "content"].Nodup
      decide

theorem Operation.ofFields_eq_ok {op : Operation} {depth : Nat} {ys : List OperationField}
    (h : RecordHolds (op.fields depth)
      [.id op.id, .nameOverride op.nameOverride, .httpMethod op.httpMethod, .uri op.uri,
        .comment op.comment, .deprecated op.isDeprecated, .parameters op.parameters,
        .requestBody op.requestBody, .responses op.responses] ys) :
    Operation.ofFields ys = .ok op := by
  obtain ⟨hys, hgiven⟩ := h
  simp only [Operation.fields, List.forall₂_cons] at hgiven
  obtain ⟨hid, hoverride, hmethod, huri, hcomment, hdeprecated, hparameters, hbody, hresponses,
    -⟩ := hgiven
  refine bind_eq_ok.mpr ⟨op.id, requiredField_eq_ok hys (by simp) hid rfl,
    bind_eq_ok.mpr ⟨op.httpMethod, requiredField_eq_ok hys (by simp) hmethod rfl,
      bind_eq_ok.mpr ⟨op.uri, requiredField_eq_ok hys (by simp) huri rfl, pure_eq_ok.mpr ?_⟩⟩⟩
  rw [join_optionalField hys ?_ hoverride rfl, join_optionalField hys ?_ hcomment rfl,
    getD_optionalField hys ?_ hdeprecated rfl, getD_optionalField hys ?_ hparameters rfl,
    join_optionalField hys ?_ hbody rfl, getD_optionalField hys ?_ hresponses rfl]
  all_goals simp

/-- **The trees of an operation are read as this operation.** -/
theorem Operation.reads (op : Operation) :
    ∀ depth, Reads (op.Spelled depth) (readOperation format depth) op
  | 0 => fun _ _ hv => hv.elim
  | depth + 1 => by
    refine Reads.recordOf (.cons ?_ <| .cons ?_ <| .cons ?_ <| .cons ?_ <| .cons ?_ <| .cons ?_ <|
      .cons ?_ <| .cons ?_ <| .cons ?_ .nil) ?_ fun ys h => Operation.ofFields_eq_ok h
    · exact (Reads.text op.id).map _
    · exact (Reads.option Reads.text nofun).map _
    · exact ((Reads.oneOf (HttpMethod.ofName?_name op.httpMethod)).or
        (.oneOf (HttpMethod.ofName?_lowerName op.httpMethod))).map _
    · exact (Reads.text op.uri).map _
    · exact (Reads.option Reads.text nofun).map _
    · exact (Reads.flag op.isDeprecated).map _
    · exact (Reads.list (fun p _ => p.reads) depth).map _
    · refine (Reads.option (fun body => body.reads depth) fun body => ?_).map _
      exact body.not_spelled_null depth
    · exact (Reads.list (fun response _ => response.reads) depth).map _
    · change ["operationId", "functionName", "httpMethod", "requestUri", "comment", "deprecated",
        "parameters", "requestBody", "successResponses"].Nodup
      decide

/-! ## Documents -/

theorem reads_document (ops : List Operation) :
    ∀ depth, Reads (DocumentSpelled ops depth)
      (fun v => (·.head?.getD []) <$> format.record depth 0 (documentReaders format) v) ops
  | 0 => fun _ _ hv => hv.elim
  | depth + 1 => by
    intro v hwhole hv
    have hread : FieldsRead [.list "operations" Operation.Spelled ops depth]
        (documentReaders format depth) [ops] :=
      .cons (.list (fun op _ => op.reads) depth) .nil
    obtain ⟨ys, hys, hsubset, hgiven⟩ := exists_record hread (List.nodup_singleton _) hwhole hv 0
    refine map_eq_ok.mpr ⟨ys, hys, ?_⟩
    cases ys with
    | nil =>
      obtain ⟨hops, -⟩ := List.forall₂_cons.mp hgiven
      exact (hops.resolve_left List.not_mem_nil).symm
    | cons y ys => exact List.mem_singleton.mp (hsubset (List.mem_cons_self ..))

/-- **Every text that spells out a document is read as this document.** Whatever the order of the
fields is and whatever other fields there are, an absent field counts as one with its default. -/
theorem decode_spelled_document {ops : List Operation} {v : Json} {text : String}
    (hv : DocumentSpelled ops format.depth v) (htext : v.WrittenAs text) :
    Json.decode (readOperations format) text = .ok ops := by
  have hwhole : v.isWhole = true := by
    obtain ⟨-, h, -⟩ := htext
    exact Json.isWhole_of_written h
  refine Json.decode_of_writtenAs htext ?_
  obtain ⟨fields, hfields, hops⟩ := map_eq_ok.mp (reads_document ops format.depth v hwhole hv)
  exact bind_eq_ok.mpr ⟨fields, hfields, pure_eq_ok.mpr hops⟩

/-! ### Fields in another order -/

/-- An operation with a parameter of few values. -/
def Operation.sortedTags : Operation where
  id := "list-tags"
  httpMethod := .get
  uri := "/tags"
  parameters :=
    [{ name := "sort", location := .query,
       schema := .mk "string" (some [.integer (-1), .string "a\"z", .null]) [] none }]

/-- A tree of the schema of its parameter. -/
def sortSchemaTree : Json :=
  .record
    [("enum", .array [.number (.ofInt (-1)), .string (some "a\"z"), .null]),
      ("type", .string (some "string"))]

/-- A tree of its parameter. -/
def sortParameterTree : Json :=
  .record
    [("schema", sortSchemaTree), ("in", .string (some "query")), ("name", .string (some "sort"))]

/-- A tree of the operation, with a field that is not known. -/
def sortedTagsTree : Json :=
  .record
    [("x-rank", .array []), ("requestUri", .string (some "/tags")),
      ("parameters", .array [sortParameterTree]), ("httpMethod", .string (some "get")),
      ("operationId", .string (some "list-tags"))]

/-- A tree of a document of the operation. -/
def sortedTagsDocument : Json :=
  .record [("operations", .array [sortedTagsTree])]

/-- A text of this tree. -/
def sortedTagsText : String :=
  "\x7b\"operations\": [\x7b\"x-rank\": [ ], \"requestUri\": \"/tags\",
    \"parameters\": [
    \x7b\"schema\": \x7b\"enum\": [-1, \"a\\u0022z\", null], \"type\": \"string\"\x7d,
    \"in\": \"query\", \"name\": \"sort\"\x7d],
    \"httpMethod\": \"get\", \"operationId\": \"list-tags\"\x7d]\x7d"

theorem sortSchemaTree_spelled (depth : Nat) :
    (Schema.mk "string" (some [.integer (-1), .string "a\"z", .null]) [] none).Spelled (depth + 2)
      sortSchemaTree := by
  refine ⟨_, rfl, ?_, ?_, ?_⟩
  · simp [Schema.fields, List.count_cons]
  · simp [Schema.fields, ListSpelled, Literal.Spelled]
  · simp [Schema.fields]

theorem sortParameterTree_spelled (depth : Nat) :
    ∀ p ∈ Operation.sortedTags.parameters, p.Spelled (depth + 3) sortParameterTree := by
  intro p hp
  obtain rfl := List.mem_singleton.mp hp
  refine ⟨_, rfl, ?_, ?_, ?_⟩
  · simp [Parameter.fields, List.count_cons]
  · simp [Parameter.fields, Location.name, sortSchemaTree_spelled]
  · simp [Parameter.fields]

theorem sortedTagsTree_spelled (depth : Nat) :
    Operation.sortedTags.Spelled (depth + 5) sortedTagsTree := by
  have hparameters : ListSpelled Parameter.Spelled Operation.sortedTags.parameters (depth + 4)
      (.array [sortParameterTree]) :=
    ⟨_, rfl, .cons (sortParameterTree_spelled depth _ (List.mem_singleton_self _)) .nil⟩
  refine ⟨_, rfl, ?_, ?_, ?_⟩
  · simp [Operation.fields, List.count_cons]
  · simp [Operation.fields, HttpMethod.lowerName, Operation.sortedTags]
    exact hparameters
  · simp [Operation.fields, Operation.sortedTags]

theorem sortedTagsDocument_spelled :
    DocumentSpelled [.sortedTags] format.depth sortedTagsDocument := by
  refine ⟨_, rfl, ?_, ?_, ?_⟩
  · simp [List.count_cons]
  · simp [ListSpelled, sortedTagsTree_spelled 120]
  · simp

section Written

open Json

theorem minusOne_written : NumeralWritten (.ofInt (-1)) "-1".toList :=
  .mk (n := .ofInt (-1)) ⟨⟨by decide, List.all_eq_true.mp (by decide)⟩, by decide⟩ .none .none

/-- A quote may be written as a code. -/
theorem quote_written : StringWritten (some "a\"z") "\"a\\u0022z\"".toList :=
  have ha : UnitWritten (.char 'a') ['a'] := .char (by decide) (by decide) (by decide)
  have hcode : UnitWritten (.code 0x22) "\\u0022".toList :=
    .code (a := 0) (b := 0) (c := 2) (d := 2) (by decide) (by decide) (by decide) (by decide)
  have hz : UnitWritten (.char 'z') ['z'] := .char (by decide) (by decide) (by decide)
  .text (.cons ha (.cons hcode (.cons hz .nil)))
    (.char (.code (by decide) (by decide) (.char .nil)))

set_option maxRecDepth 2000 in
theorem sortedTagsDocument_writtenAs : sortedTagsDocument.WrittenAs sortedTagsText := by
  have hline : Blanks ['\n', ' ', ' ', ' ', ' '] := by decide
  have henum : ItemsWritten [.number (.ofInt (-1)), .string (some "a\"z"), .null] _ :=
    .more blanks_nil (.number minusOne_written) blanks_nil <|
      .more blanks_space (.string quote_written) blanks_nil <|
      .last blanks_space .null blanks_nil
  have hschema : Written sortSchemaTree _ :=
    .object <| .spaced_more blanks_nil (by decide) (.array henum) <|
      .spaced_last blanks_space (by decide) (.string (.plain (by decide)))
  have hparameter : Written sortParameterTree _ :=
    .object <| .spaced_more blanks_nil (by decide) hschema <|
      .spaced_more hline (by decide) (.string (.plain (by decide))) <|
      .spaced_last blanks_space (by decide) (.string (.plain (by decide)))
  have hop : Written sortedTagsTree _ :=
    .object <| .spaced_more blanks_nil (by decide) (.emptyArray blanks_space) <|
      .spaced_more blanks_space (by decide) (.string (.plain (by decide))) <|
      .spaced_more hline (by decide) (.array (.last hline hparameter blanks_nil)) <|
      .spaced_more hline (by decide) (.string (.plain (by decide))) <|
      .spaced_last blanks_space (by decide) (.string (.plain (by decide)))
  have hdocument : Written sortedTagsDocument _ :=
    .object <| .spaced_last blanks_nil (by decide) (.array (.last blanks_nil hop blanks_nil))
  refine (?_ : String.ofList _ = sortedTagsText) ▸ WrittenAs.mk blanks_nil hdocument blanks_nil
  rfl

end Written

theorem decode_spelled_document_sortedTags :
    DocumentSpelled [.sortedTags] format.depth sortedTagsDocument ∧
      sortedTagsDocument.WrittenAs sortedTagsText ∧
      Json.decode (readOperations format) sortedTagsText = .ok [.sortedTags] :=
  ⟨sortedTagsDocument_spelled, sortedTagsDocument_writtenAs,
    decode_spelled_document sortedTagsDocument_spelled sortedTagsDocument_writtenAs⟩

end TypedClient
