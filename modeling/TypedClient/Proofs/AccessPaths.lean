import TypedClient.Proofs.Address
import TypedClient.Proofs.Declarations

/-!
# Access paths in a body

A body reads its values from the structured argument. Every access path it uses there
leads to members that are declared: the argument itself, the values of the parameters, the
choices of content types, and the request body.

## Main definitions

* `Expr.ArgumentKeys`: an expression all access paths of which, as far as they start at
  the structured argument, have their keys in a set
* `Declares`: an interface with a member of a given name and type
* `ArgumentPath`: the keys that lead from the structured argument to a declared member

## Main results

* `body_argumentKeys`: every access path of a body that starts at the structured argument
  leads to a declared member
* `body_is_typed`: the statements of a body and their access paths
-/

namespace TypedClient

open TypeScript

/-! ## Access paths of an expression -/

/-- Every access path in an expression that starts at the structured argument has its keys
in a set. -/
def TypeScript.Expr.ArgumentKeys (P : List String → Prop) (e : Expr) : Prop :=
  ∀ a ∈ e.parts, ∀ keys, a.path? = some ("params", keys) → P keys

section ArgumentKeys

variable {P : List String → Prop} {e f : Expr} {keys : List String} {name key : String}

theorem argumentKeys_text (value : String) : (Expr.text value).ArgumentKeys P := by
  simp [Expr.ArgumentKeys, Expr.text, Expr.path?]

theorem argumentKeys_literal (value : Literal) : (Expr.literal value).ArgumentKeys P := by
  simp [Expr.ArgumentKeys, Expr.path?]

theorem argumentKeys_ident (h : name ≠ "params") : (Expr.ident name).ArgumentKeys P := by
  simp [Expr.ArgumentKeys, Expr.path?, h]

theorem argumentKeys_params (h : P []) : (Expr.ident "params").ArgumentKeys P := by
  simp [Expr.ArgumentKeys, Expr.path?, h]

/-- One more key: an expression that reads a part of another one. -/
theorem argumentKeys_of_receiver (hparts : f.parts = f :: e.parts)
    (hpath : f.path? = e.path?.map fun p => (p.1, p.2 ++ [key])) (he : e.ArgumentKeys P)
    (h : ∀ ks, e.path? = some ("params", ks) → P (ks ++ [key])) : f.ArgumentKeys P := by
  intro a ha keys hk
  rw [hparts] at ha
  rcases List.mem_cons.mp ha with rfl | ha
  · rw [hpath] at hk
    obtain ⟨⟨root, ks⟩, hks, heq⟩ := Option.map_eq_some_iff.mp hk
    obtain ⟨rfl, rfl⟩ := Prod.mk.inj heq
    exact h ks hks
  · exact he a ha keys hk

theorem argumentKeys_member (he : e.ArgumentKeys P)
    (h : ∀ ks, e.path? = some ("params", ks) → P (ks ++ [name])) :
    (Expr.member e name).ArgumentKeys P :=
  argumentKeys_of_receiver rfl rfl he h

theorem argumentKeys_access (he : e.ArgumentKeys P)
    (h : ∀ ks, e.path? = some ("params", ks) → P (ks ++ [key])) :
    (access e key).ArgumentKeys P := by
  rw [access]
  split
  · exact argumentKeys_of_receiver rfl rfl he h
  · exact argumentKeys_of_receiver rfl rfl he h

/-- An expression that is no access path itself has the access paths of what is in it. -/
theorem argumentKeys_of_parts {rest : List Expr} (hparts : e.parts = e :: rest)
    (hpath : e.path? = none)
    (h : ∀ a ∈ rest, ∀ keys, a.path? = some ("params", keys) → P keys) : e.ArgumentKeys P := by
  intro a ha keys hk
  rw [hparts] at ha
  rcases List.mem_cons.mp ha with rfl | ha
  · rw [hpath] at hk
    cases hk
  · exact h a ha keys hk

theorem argumentKeys_object {fs : List (ObjectField Expr)} {spread : Bool}
    (h : ∀ f ∈ fs, f.value.ArgumentKeys P) : (Expr.object fs spread).ArgumentKeys P := by
  refine argumentKeys_of_parts (Expr.parts_object fs spread) rfl ?_
  intro a ha
  obtain ⟨f, hf, ha⟩ := List.mem_flatMap.mp ha
  exact h f hf a ha

theorem argumentKeys_template {t : Template Expr} (h : ∀ s ∈ t.spans, s.expr.ArgumentKeys P) :
    (Expr.template t).ArgumentKeys P := by
  refine argumentKeys_of_parts (Expr.parts_template t) rfl ?_
  intro a ha
  obtain ⟨s, hs, ha⟩ := List.mem_flatMap.mp ha
  exact h s hs a ha

theorem argumentKeys_plus (he : e.ArgumentKeys P) (hf : f.ArgumentKeys P) :
    (Expr.plus e f).ArgumentKeys P := by
  refine argumentKeys_of_parts (Expr.parts_plus e f) rfl ?_
  intro a ha
  rcases List.mem_append.mp ha with ha | ha
  · exact he a ha
  · exact hf a ha

theorem argumentKeys_call {es : List Expr} (he : e.ArgumentKeys P)
    (hes : ∀ e ∈ es, e.ArgumentKeys P) : (Expr.call e es).ArgumentKeys P := by
  refine argumentKeys_of_parts (Expr.parts_call e es) rfl ?_
  intro a ha
  rcases List.mem_append.mp ha with ha | ha
  · exact he a ha
  · obtain ⟨e, hmem, ha⟩ := List.mem_flatMap.mp ha
    exact hes e hmem a ha

/-- Whatever belongs to the generated class is not the structured argument's. -/
theorem argumentKeys_this_member (name : String) : (Expr.member .this name).ArgumentKeys P := by
  simp [Expr.ArgumentKeys, Expr.path?]

end ArgumentKeys

/-! ## Paths to declared members -/

/-- An interface with a member of a given name and type is declared. -/
def Declares (decls : List TypeDecl) (name member : String) (type : TypeExpr) : Prop :=
  ∃ d ∈ decls, d.name = name ∧
    ∃ ps, d.body = .interfaceOf ps ∧ ∃ p ∈ ps, p.name = member ∧ p.type = type

/-- The keys that lead from the structured argument to something declared. -/
inductive ArgumentPath (op : Operation) (decls : List TypeDecl) : List String → Prop
  | whole : ArgumentPath op decls []
  | parameters (h : Declares decls op.paramsName "parameter" (.ref op.parameterName)) :
      ArgumentPath op decls ["parameter"]
  | parameter {name : String} {type : TypeExpr}
      (h : Declares decls op.paramsName "parameter" (.ref op.parameterName))
      (hn : Declares decls op.parameterName name type) :
      ArgumentPath op decls ["parameter", name]
  | headers {ps : List (Property TypeExpr)}
      (h : Declares decls op.paramsName "headers" (.object ps)) :
      ArgumentPath op decls ["headers"]
  | header {ps : List (Property TypeExpr)} {p : Property TypeExpr}
      (h : Declares decls op.paramsName "headers" (.object ps)) (hp : p ∈ ps) :
      ArgumentPath op decls ["headers", p.name]
  | requestBody {type : TypeExpr} (h : Declares decls op.paramsName "requestBody" type) :
      ArgumentPath op decls ["requestBody"]

/-- Keys that a body may use on the structured argument: the method has that argument, and
the keys lead to something declared, if the operation's types can be declared at all. -/
def Operation.AllowsKeys (op : Operation) (keys : List String) : Prop :=
  op.shape.needsParams = true ∧
    ∀ decls, op.declarations = .ok decls → ArgumentPath op decls keys

section AllowsKeys

variable {op : Operation} {decls : List TypeDecl}

theorem declares_of_mem_paramsProperties {p : Property TypeExpr}
    (hds : op.declarations = .ok decls) (h : op.shape.needsParams)
    (hp : p ∈ op.paramsProperties) :
    Declares decls op.paramsName p.name p.type :=
  ⟨op.paramsDecl, (mem_declarations hds).mpr (.params h), rfl, op.paramsProperties, rfl, p, hp,
    rfl, rfl⟩

theorem needsParams_iff :
    op.shape.needsParams = true ↔ op.shape.hasParameters = true ∨ op.shape.hasBody = true ∨
      op.shape.hasRequestChoice = true ∨ op.shape.hasResponseChoice = true := by
  simp only [Shape.needsParams, Bool.or_eq_true, or_assoc]

theorem hasParameters_of_mem {p : Parameter} (h : p ∈ op.parameters) :
    op.shape.hasParameters := by
  simpa [Operation.shape] using List.ne_nil_of_mem h

theorem declares_parameter (hds : op.declarations = .ok decls) (h : op.shape.hasParameters) :
    Declares decls op.paramsName "parameter" (.ref op.parameterName) :=
  declares_of_mem_paramsProperties hds (needsParams_iff.mpr (.inl h))
    (mem_paramsProperties.mpr (.inl ⟨h, rfl⟩))

theorem declares_headers {q : Property TypeExpr} (hds : op.declarations = .ok decls)
    (h : op.shape.needsParams) (hq : q ∈ Operation.choiceProperties op.shape) :
    Declares decls op.paramsName "headers" (.object (Operation.choiceProperties op.shape)) :=
  declares_of_mem_paramsProperties hds h
    (mem_paramsProperties.mpr (.inr (.inl ⟨List.ne_nil_of_mem hq, rfl⟩)))

theorem declares_requestBody (hds : op.declarations = .ok decls) (h : op.shape.hasBody) :
    Declares decls op.paramsName "requestBody"
      (selectContent (.ref op.requestBodyName) op.requestContentTypes requestChoice) :=
  declares_of_mem_paramsProperties hds (needsParams_iff.mpr (.inr (.inl h)))
    (mem_paramsProperties.mpr (.inr (.inr ⟨h, rfl⟩)))

theorem allowsKeys_nil (h : op.shape.needsParams) : op.AllowsKeys [] :=
  ⟨h, fun _ _ => .whole⟩

/-- The value of a parameter is a member of the parameters, which are a member of the
structured argument. -/
theorem allowsKeys_parameter {p : Parameter} (hp : p ∈ op.parameters) :
    op.AllowsKeys ["parameter"] ∧ op.AllowsKeys ["parameter", p.name] := by
  have h := hasParameters_of_mem hp
  have hneeds := needsParams_iff.mpr (.inl h)
  refine ⟨⟨hneeds, fun decls hds => ?_⟩, hneeds, fun decls hds => ?_⟩
  · exact .parameters (declares_parameter hds h)
  · obtain ⟨ps, hps, hd⟩ := exists_declared_parameter hds h
    obtain ⟨q, hq, hname⟩ := exists_mem_parameterProperties hps hp
    exact .parameter (declares_parameter hds h)
      ⟨_, (mem_declarations hds).mpr hd, rfl, ps, rfl, q, hq, hname, rfl⟩

theorem allowsKeys_header {q : Property TypeExpr} (h : op.shape.needsParams)
    (hq : q ∈ Operation.choiceProperties op.shape) :
    op.AllowsKeys ["headers"] ∧ op.AllowsKeys ["headers", q.name] :=
  ⟨⟨h, fun _ hds => .headers (declares_headers hds h hq)⟩, h,
    fun _ hds => .header (declares_headers hds h hq) hq⟩

theorem allowsKeys_requestBody (h : op.shape.hasBody) : op.AllowsKeys ["requestBody"] := by
  refine ⟨needsParams_iff.mpr (.inr (.inl h)), fun decls hds => ?_⟩
  exact .requestBody (declares_requestBody hds h)

end AllowsKeys

/-! ## The expressions of a body -/

section Body

variable {op : Operation}

theorem mem_parameters_of_mem_parametersIn {p : Parameter} {location : Location}
    (h : p ∈ op.parametersIn location) : p ∈ op.parameters :=
  List.mem_of_mem_filter h

theorem parameterReference_argumentKeys {p : Parameter} (hp : p ∈ op.parameters) :
    (parameterReference p.name).ArgumentKeys op.AllowsKeys := by
  obtain ⟨h, hname⟩ := allowsKeys_parameter hp
  have hparams : (Expr.ident "params").ArgumentKeys op.AllowsKeys :=
    argumentKeys_params (allowsKeys_nil h.1)
  refine argumentKeys_access (argumentKeys_member hparams ?_) ?_
  · intro ks hks
    cases hks
    exact h
  · intro ks hks
    cases hks
    exact hname

theorem url_argumentKeys {e : Expr} (h : op.url = .ok e) : e.ArgumentKeys op.AllowsKeys := by
  obtain ⟨t, ht, rfl⟩ := exists_uriTemplate_of_url h
  refine argumentKeys_plus (argumentKeys_this_member _) (argumentKeys_template fun s hs => ?_)
  obtain ⟨p, hp, he⟩ := uriTemplate_spans ht s hs
  rw [he]
  exact parameterReference_argumentKeys (mem_parameters_of_mem_parametersIn hp)

/-- A choice of content types is a member of the headers. -/
theorem header_argumentKeys {q : Property TypeExpr} (h : op.shape.needsParams)
    (hq : q ∈ Operation.choiceProperties op.shape) :
    (access (.member (.ident "params") "headers") q.name).ArgumentKeys op.AllowsKeys := by
  obtain ⟨hh, hname⟩ := allowsKeys_header h hq
  have hparams : (Expr.ident "params").ArgumentKeys op.AllowsKeys :=
    argumentKeys_params (allowsKeys_nil h)
  refine argumentKeys_access (argumentKeys_member hparams ?_) ?_
  · intro ks hks
    cases hks
    exact hh
  · intro ks hks
    cases hks
    exact hname

theorem headerValue_argumentKeys {v : EntryValue} {e : Expr} (h : HeaderValue op v)
    (he : v.toExpr = .ok e) : e.ArgumentKeys op.AllowsKeys := by
  cases h with
  | constant text =>
    obtain rfl := Except.ok.inj he
    exact argumentKeys_text text
  | requestChoice hc =>
    have hq : (⟨"Content-Type", .ref requestChoice, false⟩ : Property TypeExpr) ∈
        Operation.choiceProperties op.shape := mem_choices.mpr (Or.inl ⟨hc, rfl⟩)
    rw [EntryValue.toExpr, pathReference_requestChoice] at he
    obtain rfl := Except.ok.inj he
    have hkeys := header_argumentKeys (needsParams_iff.mpr (.inr (.inr (.inl hc)))) hq
    exact hkeys
  | responseChoice hc =>
    have hq : (⟨"Accept", .ref responseChoice, false⟩ : Property TypeExpr) ∈
        Operation.choiceProperties op.shape := mem_choices.mpr (Or.inr ⟨hc, rfl⟩)
    rw [EntryValue.toExpr, pathReference_responseChoice] at he
    obtain rfl := Except.ok.inj he
    have hkeys := header_argumentKeys (needsParams_iff.mpr (.inr (.inr (.inr hc)))) hq
    exact hkeys
  | parameter hp =>
    obtain rfl := Except.ok.inj he
    exact parameterReference_argumentKeys (mem_parameters_of_mem_parametersIn hp)

theorem headers_argumentKeys {e : Expr} (h : objectLiteral op.headers [] = .ok e) :
    e.ArgumentKeys op.AllowsKeys := by
  obtain ⟨fs, hfs, hvalues⟩ := exists_headersObject op
  rw [hfs] at h
  obtain rfl := Except.ok.inj h
  refine argumentKeys_object ?_
  intro f hf
  obtain ⟨v, hv, hx⟩ := hvalues f hf
  exact headerValue_argumentKeys hv hx

theorem queryExpr_argumentKeys (op : Operation) : op.queryExpr.ArgumentKeys op.AllowsKeys := by
  refine argumentKeys_object ?_
  intro f hf
  obtain ⟨p, hp, rfl⟩ := List.mem_map.mp hf
  refine argumentKeys_object ?_
  intro g hg
  rcases List.mem_append.mp hg with hg | hg
  · rcases List.mem_append.mp hg with hg | hg
    · obtain rfl := List.mem_singleton.mp hg
      exact parameterReference_argumentKeys (mem_parameters_of_mem_parametersIn hp)
    · obtain ⟨style, _, rfl⟩ := List.mem_map.mp hg
      exact argumentKeys_text _
  · obtain rfl := List.mem_singleton.mp hg
    exact argumentKeys_literal _

theorem requestCall_argumentKeys (op : Operation) :
    op.requestCall.ArgumentKeys op.AllowsKeys := by
  have hobject : (Expr.object op.requestFields true).ArgumentKeys op.AllowsKeys := by
    refine argumentKeys_object ?_
    intro f hf
    rcases mem_requestFields.mp hf with rfl | rfl | rfl | ⟨h, rfl⟩ | ⟨_, rfl⟩
    · exact argumentKeys_text _
    · exact argumentKeys_ident (by decide)
    · exact argumentKeys_ident (by decide)
    · have hbody := allowsKeys_requestBody h
      refine argumentKeys_member (argumentKeys_params (allowsKeys_nil hbody.1)) ?_
      intro ks hks
      cases hks
      exact hbody
    · exact argumentKeys_ident (by decide)
  refine argumentKeys_call (argumentKeys_member (argumentKeys_this_member _) ?_) ?_
  · intro ks hks
    cases hks
  · intro e he
    simp only [List.mem_cons, List.not_mem_nil, or_false] at he
    rcases he with rfl | rfl
    · exact hobject
    · exact argumentKeys_ident (by decide)

/-- **Every access path of a body** that starts at the structured argument is allowed. -/
theorem body_argumentKeys {stmts : List Stmt} (h : op.body = .ok stmts) :
    ∀ s ∈ stmts, ∀ e ∈ s.exprs, e.ArgumentKeys op.AllowsKeys := by
  obtain ⟨url, headers, hurl, hheaders, rfl⟩ := body_eq_ok.mp h
  intro s hs e he
  -- the address and the headers, then the query, then the request
  rcases List.mem_append.mp hs with hs | hs
  · rcases List.mem_append.mp hs with hs | hs
    · rcases List.mem_cons.mp hs with rfl | hs
      · obtain rfl := List.mem_singleton.mp he
        exact url_argumentKeys hurl
      · obtain rfl := List.mem_singleton.mp hs
        obtain rfl := List.mem_singleton.mp he
        exact headers_argumentKeys hheaders
    · obtain ⟨_, hs⟩ := List.mem_ite_nil_right.mp hs
      obtain rfl := List.mem_singleton.mp hs
      obtain rfl := List.mem_singleton.mp he
      exact queryExpr_argumentKeys op
  · obtain rfl := List.mem_singleton.mp hs
    obtain rfl := List.mem_singleton.mp he
    exact requestCall_argumentKeys op

/-- What is asked of the statements of a body. -/
structure TypedBody (op : Operation) (stmts : List Stmt) : Prop where
  /-- The address and the headers come first, then the query if there is one, and the
  call that sends the request is last. -/
  statements : ∃ url headers, stmts =
    [.const "url" none url, .const "headers" none headers] ++ op.queryStmts
      ++ [.return (some op.requestCall)]
  /-- The query is declared just when there is a query parameter. -/
  declaresQuery : (∃ type value, Stmt.const "queryParameters" type value ∈ stmts) ↔
    ∃ p ∈ op.parameters, p.location = .query
  /-- The request has a query just when it is declared. -/
  sendsQuery : (∃ f ∈ op.requestFields, f.key = "queryParameters") ↔
    ∃ type value, Stmt.const "queryParameters" type value ∈ stmts
  mentionsQuery : Expr.ident "queryParameters" ∈ op.requestCall.parts ↔
    ∃ type value, Stmt.const "queryParameters" type value ∈ stmts
  /-- The request has a body just when one is described. -/
  sendsBody : (∃ f ∈ op.requestFields, f.key = "requestBody") ↔ op.requestBody.isSome
  mentionsBody : Expr.member (.ident "params") "requestBody" ∈ op.requestCall.parts ↔
    op.requestBody.isSome
  /-- What is read from the structured argument is declared. -/
  paths : ∀ s ∈ stmts, ∀ e ∈ s.exprs, ∀ a ∈ e.parts, ∀ keys, a.path? = some ("params", keys) →
    (∃ p ∈ methodParams op.paramsName op.shape, p.name = "params" ∧
      ∃ args, p.type = some (.named op.paramsName args)) ∧
    ∀ decls, op.declarations = .ok decls → ArgumentPath op decls keys

/-- What the request sends under a key. -/
theorem exists_requestField_iff {key : String} :
    (∃ f ∈ op.requestFields, f.key = key) ↔
      key = "httpMethod" ∨ key = "url" ∨ key = "headers" ∨
      op.shape.hasBody = true ∧ key = "requestBody" ∨
      op.shape.hasQuery = true ∧ key = "queryParameters" := by
  simp only [mem_requestFields, or_and_right, exists_or, exists_eq_left, and_assoc,
    exists_and_left, eq_comm (b := key)]

theorem ident_query_mem_parts_iff :
    Expr.ident "queryParameters" ∈ op.requestCall.parts ↔ op.shape.hasQuery = true := by
  simp [Operation.requestCall, mem_requestFields, or_and_right, exists_or, Expr.text]

theorem member_requestBody_mem_parts_iff :
    Expr.member (.ident "params") "requestBody" ∈ op.requestCall.parts ↔
      op.shape.hasBody = true := by
  simp [Operation.requestCall, mem_requestFields, or_and_right, exists_or, Expr.text]

/-- **A body is typed**: its statements come in their order, the request sends what there
is to send, and only what is declared is read from the structured argument. -/
theorem body_is_typed {stmts : List Stmt} (h : op.body = .ok stmts) : TypedBody op stmts := by
  have hpaths := body_argumentKeys h
  obtain ⟨url, headers, _, _, hstmts⟩ := body_eq_ok.mp h
  have hdeclared : (∃ type value, Stmt.const "queryParameters" type value ∈ stmts) ↔
      op.shape.hasQuery = true := by
    rw [hstmts, Operation.queryStmts]
    cases op.shape.hasQuery <;> simp
  have hquery : (∃ f ∈ op.requestFields, f.key = "queryParameters") ↔
      op.shape.hasQuery = true := by
    simp [exists_requestField_iff]
  have hbody : (∃ f ∈ op.requestFields, f.key = "requestBody") ↔ op.shape.hasBody = true := by
    simp [exists_requestField_iff]
  exact {
    statements := ⟨url, headers, hstmts⟩
    declaresQuery := hdeclared.trans hasQuery_iff
    sendsQuery := hquery.trans hdeclared.symm
    mentionsQuery := ident_query_mem_parts_iff.trans hdeclared.symm
    sendsBody := hbody.trans hasBody_iff
    mentionsBody := member_requestBody_mem_parts_iff.trans hasBody_iff
    paths := by
      intro s hs e he a ha keys hk
      obtain ⟨hneeds, hdecls⟩ := hpaths s hs e he a ha keys hk
      refine ⟨⟨⟨"params", some (.named op.paramsName (typeArguments op.shape)), false⟩, ?_, rfl,
        _, rfl⟩, hdecls⟩
      rw [methodParams, if_pos hneeds]
      exact List.mem_append_left _ (List.mem_singleton_self _) }

/-- An operation with parameters in the address, the query and the headers, the names of
which are not all names of variables, with a body and with content types to choose. -/
def Operation.archiveFile : Operation where
  id := "archive-file"
  httpMethod := .post
  uri := "/files/\x7bfile-id\x7d"
  parameters := [{ name := "file-id", location := .path },
    { name := "dry run", location := .query }, { name := "If-Match", location := .header }]
  requestBody := some { content := .ofList [("text/plain", .ofKind "string"),
    ("application/json", .ofKind "object")] }
  responses := [⟨"200", .ofList [("text/plain", .ofKind "string"),
    ("application/json", .ofKind "object")]⟩]

theorem archiveFile_body_is_typed :
    ∃ stmts, Operation.archiveFile.body = .ok stmts ∧ TypedBody .archiveFile stmts :=
  ⟨_, rfl, body_is_typed rfl⟩

end Body

end TypedClient
