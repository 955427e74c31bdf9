import TypedClient.Proofs.AccessPaths
import TypedClient.Proofs.DistinctNames

/-!
# Requests and the runtime contract

A module declares what a request looks like, and its methods describe their requests by object
literals. The two go together: a request has the members of the declared interface, with values
that fit them, whatever the operation. Only the style of a query parameter may be none of the
declared ones, because a parameter may be of any style and the contract lists some of them.

## Main definitions

* `HasKeysOf`: keys are those of an interface
* `Fits`: an expression fits a type, as far as declarations tell
* `RequestFits`, `QueryFits`: the request that a body sends, and its query, fit the contract

## Main results

* `requestFits_of_body`: the request of a body fits the contract, whatever the operation
* `queryField_fits_iff`: an entry of a query fits the contract just when its style is declared
* `request_keeps_contract_iff`: a body keeps the contract just when all styles of its query are
  declared
-/

namespace TypedClient

open TypeScript

/-! ## Fitting a type -/

/-- Keys are those of an interface: each is there once and names a member, and all members that
are not optional are there. -/
structure HasKeysOf (ps : List (Property TypeExpr)) (keys : List String) : Prop where
  nodup : keys.Nodup
  members : ∀ key ∈ keys, ∃ p ∈ ps, p.name = key
  required : ∀ p ∈ ps, p.optional = false → p.name ∈ keys

/-- An expression fits a type, where some types are declared and some statements come before. A
constant of these statements is of its declared type, or of any type that its value fits. -/
inductive Fits (decls : List TypeDecl) (before : List Stmt) : Expr → TypeExpr → Prop
  | any (e : Expr) : Fits decls before e .any
  | literal (value : Literal) : Fits decls before (.literal value) (.literal value)
  | boolean (value : Bool) : Fits decls before (.literal (.bool value)) .boolean
  | concatenation (left : Expr) (t : Template Expr) :
      Fits decls before (.plus left (.template t)) .string
  | declared {name : String} {t : TypeExpr} {value : Expr}
      (h : .const name (some t) value ∈ before) : Fits decls before (.ident name) t
  | inferred {name : String} {t : TypeExpr} {value : Expr} (h : .const name none value ∈ before)
      (hvalue : Fits decls before value t) : Fits decls before (.ident name) t
  | union {e : Expr} {t : TypeExpr} {types : List TypeExpr} (ht : t ∈ types)
      (h : Fits decls before e t) : Fits decls before e (.union types)
  | alias {e : Expr} {name : String} {t : TypeExpr} {d : TypeDecl} (hd : d ∈ decls)
      (hname : d.name = name) (hbody : d.body = .aliasOf t) (h : Fits decls before e t) :
      Fits decls before e (.ref name)
  | record {fs : List (ObjectField Expr)} {spread : Bool} {t : TypeExpr}
      (h : ∀ f ∈ fs, Fits decls before f.value t) :
      Fits decls before (.object fs spread) (.named "Record" [.string, t])
  | interface {fs : List (ObjectField Expr)} {spread : Bool} {name : String}
      {ps : List (Property TypeExpr)} {d : TypeDecl} (hd : d ∈ decls) (hname : d.name = name)
      (hbody : d.body = .interfaceOf ps) (hkeys : HasKeysOf ps (fs.map (·.key)))
      (hvalues : ∀ f ∈ fs, ∀ p ∈ ps, p.name = f.key → Fits decls before f.value p.type) :
      Fits decls before (.object fs spread) (.ref name)

/-- A text fits a union of texts if it is one of them. -/
theorem fits_union_iff {α : Type} {decls : List TypeDecl} {before : List Stmt} {text : String}
    {name : α → String} {xs : List α} :
    Fits decls before (.text text) (.union (xs.map fun x => .text (name x))) ↔
      ∃ x ∈ xs, name x = text := by
  constructor
  · intro h
    cases h with
    | union ht h =>
      obtain ⟨x, hx, rfl⟩ := List.mem_map.mp ht
      cases h with
      | literal value => exact ⟨x, hx, rfl⟩
  · rintro ⟨x, hx, rfl⟩
    exact .union (List.mem_map_of_mem hx) (.literal (.string (name x)))

/-- An object literal fits a name behind which an alias or an interface is declared. -/
theorem fits_ref_cases {decls : List TypeDecl} {before : List Stmt} {name : String}
    {fs : List (ObjectField Expr)} {spread : Bool}
    (h : Fits decls before (.object fs spread) (.ref name)) :
    ∃ d ∈ decls, d.name = name ∧
      ((∃ t, d.body = .aliasOf t ∧ Fits decls before (.object fs spread) t) ∨
        ∃ ps, d.body = .interfaceOf ps ∧
          ∀ f ∈ fs, ∀ p ∈ ps, p.name = f.key → Fits decls before f.value p.type) := by
  cases h with
  | «alias» hd hname hbody h => exact ⟨_, hd, hname, Or.inl ⟨_, hbody, h⟩⟩
  | interface hd hname hbody _ hvalues => exact ⟨_, hd, hname, Or.inr ⟨_, hbody, hvalues⟩⟩

/-! ## The declared types -/

/-- The members of the arguments of a request. -/
def requestMembers : List (Property TypeExpr) :=
  [⟨"httpMethod", .ref "HttpMethod", false⟩, ⟨"url", .string, false⟩,
    ⟨"headers", .named "Record" [.string, .any], false⟩, ⟨"requestBody", .any, true⟩,
    ⟨"queryParameters", .ref "QueryParameters", true⟩]

/-- The members of an entry of a query. -/
def queryMembers : List (Property TypeExpr) :=
  [⟨"value", .any, false⟩, ⟨"style", .union (queryStyles.map fun s => .text s.name), true⟩,
    ⟨"explode", .boolean, false⟩]

section Declared

variable {sync : Bool} {before : List Stmt} {d d' : TypeDecl}

theorem requestArgs_mem (sync : Bool) :
    .exportedInterface "RequestArgs" requestMembers ∈ runtimeContract sync := by
  simp [runtimeContract, requestMembers]

theorem queryParameter_mem (sync : Bool) :
    .exportedInterface "QueryParameter" queryMembers ∈ runtimeContract sync := by
  simp [runtimeContract, queryMembers]

theorem queryParameters_mem (sync : Bool) :
    .exportedAlias "QueryParameters" (.named "Record" [.string, .ref "QueryParameter"]) ∈
      runtimeContract sync := by
  simp [runtimeContract]

theorem httpMethod_mem (sync : Bool) :
    .exportedAlias "HttpMethod" (.union (requestMethods.map .text)) ∈ runtimeContract sync := by
  simp [runtimeContract]

/-- The contract declares a name once. -/
theorem eq_of_name_eq (hd : d ∈ runtimeContract sync) (hd' : d' ∈ runtimeContract sync)
    (h : d.name = d'.name) : d = d' :=
  List.inj_on_of_nodup_map (nodup_runtimeContract sync) hd hd' h

/-- The name of a method fits the type of all methods. -/
theorem httpMethod_fits (m : HttpMethod) :
    Fits (runtimeContract sync) before (.text m.name) (.ref "HttpMethod") :=
  .alias (httpMethod_mem sync) rfl rfl (fits_union_iff.mpr ⟨_, name_mem_requestMethods m, rfl⟩)

/-- The name of a style fits the type of all declared styles if it is one of them. -/
theorem style_fits_iff {decls : List TypeDecl} {s : Style} :
    Fits decls before (.text s.name) (.union (queryStyles.map fun s => .text s.name)) ↔
      s ∈ queryStyles := by
  rw [fits_union_iff]
  constructor
  · rintro ⟨t, ht, hname⟩
    exact Style.name_injective hname ▸ ht
  · exact fun hs => ⟨s, hs, rfl⟩

end Declared

/-! ## The request -/

section Request

variable {op : Operation} {sync : Bool} {before : List Stmt} {p : Parameter}

theorem map_key_requestFields (op : Operation) :
    op.requestFields.map (·.key) = ["httpMethod", "url", "headers"] ++
      (if op.shape.hasBody then ["requestBody"] else []) ++
      if op.shape.hasQuery then ["queryParameters"] else [] := by
  rw [Operation.requestFields]
  cases op.shape.hasBody <;> cases op.shape.hasQuery <;> rfl

theorem requestFields_hasKeysOf (op : Operation) :
    HasKeysOf requestMembers (op.requestFields.map (·.key)) := by
  rw [map_key_requestFields]
  cases op.shape.hasBody <;> cases op.shape.hasQuery <;>
    exact ⟨by decide, by decide, by decide⟩

/-- **The request of a body fits the contract**, whatever the operation. -/
theorem requestFields_fit {url : Expr} {fs : List (ObjectField Expr)} {t : Template Expr}
    (hurl : .const "url" none (.plus url (.template t)) ∈ before)
    (hheaders : .const "headers" none (.object fs true) ∈ before)
    (hquery : ∀ stmt ∈ op.queryStmts, stmt ∈ before) :
    Fits (runtimeContract sync) before (.object op.requestFields true) (.ref "RequestArgs") := by
  refine .interface (requestArgs_mem sync) rfl rfl (requestFields_hasKeysOf op) fun f hf => ?_
  -- each of the fields is one of five, and fits the type of the member of its name
  rcases mem_requestFields.mp hf with rfl | rfl | rfl | ⟨_, rfl⟩ | ⟨h, rfl⟩
  · simpa [requestMembers] using httpMethod_fits op.httpMethod
  · simpa [requestMembers] using Fits.inferred hurl (.concatenation ..)
  · simpa [requestMembers] using Fits.inferred hheaders (.record fun f _ => .any f.value)
  · simpa [requestMembers] using Fits.any _
  · have hdeclared := hquery (.const "queryParameters" (some (.ref "QueryParameters")) op.queryExpr)
      (by simp [Operation.queryStmts, h])
    simpa [requestMembers] using Fits.declared hdeclared

/-! ## The query -/

/-- The fields of an entry of a query. -/
def queryEntry (p : Parameter) : List (ObjectField Expr) :=
  [⟨"value", parameterReference p.name⟩]
    ++ (p.style.toList.map fun s => ⟨"style", .text s.name⟩)
    ++ [⟨"explode", .literal (.bool p.explode)⟩]

theorem map_key_queryEntry (p : Parameter) :
    (queryEntry p).map (·.key) =
      ["value"] ++ (if p.style.isSome then ["style"] else []) ++ ["explode"] := by
  rw [queryEntry]
  cases p.style <;> rfl

theorem queryEntry_hasKeysOf (p : Parameter) :
    HasKeysOf queryMembers ((queryEntry p).map (·.key)) := by
  rw [map_key_queryEntry]
  cases p.style.isSome <;> exact ⟨by decide, by decide, by decide⟩

theorem mem_queryEntry {f : ObjectField Expr} :
    f ∈ queryEntry p ↔ f = ⟨"value", parameterReference p.name⟩ ∨
      (∃ s ∈ p.style, f = ⟨"style", .text s.name⟩) ∨
      f = ⟨"explode", .literal (.bool p.explode)⟩ := by
  simp [queryEntry, eq_comm]

/-- **An entry of a query fits the contract** just when its style is one of the declared ones. -/
theorem queryEntry_fits_iff :
    Fits (runtimeContract sync) before (.object (queryEntry p) false) (.ref "QueryParameter") ↔
      ∀ s ∈ p.style, s ∈ queryStyles := by
  constructor
  · intro h s hs
    obtain ⟨d, hd, hname, h⟩ := fits_ref_cases h
    obtain rfl := eq_of_name_eq hd (queryParameter_mem sync) hname
    rcases h with ⟨t, hbody, _⟩ | ⟨ps, hbody, hvalues⟩
    · cases hbody
    · obtain rfl := TypeBody.interfaceOf.inj hbody
      have hfield := mem_queryEntry.mpr (.inr (.inl ⟨s, hs, rfl⟩))
      exact style_fits_iff.mp (hvalues _ hfield _ (.tail _ (.head _)) rfl)
  · intro h
    refine .interface (queryParameter_mem sync) rfl rfl (queryEntry_hasKeysOf p) fun f hf => ?_
    rcases mem_queryEntry.mp hf with rfl | ⟨s, hs, rfl⟩ | rfl
    · simpa [queryMembers] using Fits.any _
    · simpa [queryMembers] using style_fits_iff.mpr (h s hs)
    · simpa [queryMembers] using Fits.boolean p.explode

/-- A query fits the contract just when all of its entries do. -/
theorem queryExpr_fits_iff :
    Fits (runtimeContract sync) before op.queryExpr (.ref "QueryParameters") ↔
      ∀ p ∈ op.parametersIn .query, ∀ s ∈ p.style, s ∈ queryStyles := by
  have hentry : ∀ p : Parameter, (∀ s ∈ p.style, s ∈ queryStyles) ↔
      Fits (runtimeContract sync) before (.object (queryEntry p) false) (.ref "QueryParameter") :=
    fun _ => queryEntry_fits_iff.symm
  simp only [hentry]
  constructor
  · intro h p hp
    obtain ⟨d, hd, hname, h⟩ := fits_ref_cases h
    obtain rfl := eq_of_name_eq hd (queryParameters_mem sync) hname
    rcases h with ⟨t, hbody, h⟩ | ⟨ps, hbody, _⟩
    · obtain rfl := TypeBody.aliasOf.inj hbody
      cases h with
      | record h => exact h _ (List.mem_map_of_mem hp)
    · cases hbody
  · intro h
    refine .alias (queryParameters_mem sync) rfl rfl (.record fun f hf => ?_)
    obtain ⟨p, hp, rfl⟩ := List.mem_map.mp hf
    exact h p hp

end Request

/-! ## Bodies -/

/-- The request that a body sends fits the declared arguments of a request. -/
def RequestFits (decls : List TypeDecl) (stmts : List Stmt) : Prop :=
  ∃ before fs, stmts = before ++ [.return (some (.call
      (.member (.member .this "apiClient") "request") [.object fs true, .ident "option"]))] ∧
    Fits decls before (.object fs true) (.ref "RequestArgs")

/-- The query that a body declares, if it does, fits the declared type. -/
def QueryFits (decls : List TypeDecl) (stmts : List Stmt) : Prop :=
  ∀ t value, .const "queryParameters" t value ∈ stmts →
    Fits decls [] value (.ref "QueryParameters")

section Body

variable {op : Operation} {stmts : List Stmt}

theorem requestFits_of_body (h : op.body = .ok stmts) (sync : Bool) :
    RequestFits (runtimeContract sync) stmts := by
  obtain ⟨url, headers, hurl, hheaders, rfl⟩ := body_eq_ok.mp h
  obtain ⟨t, _, rfl⟩ := exists_uriTemplate_of_url hurl
  obtain ⟨fs, hfs, _⟩ := exists_headersObject op
  obtain rfl := Except.ok.inj (hfs.symm.trans hheaders)
  refine ⟨_, op.requestFields, rfl, ?_⟩
  have hquery : ∀ stmt ∈ op.queryStmts, stmt ∈ [
      .const "url" none (.plus (.member .this "baseUrl") (.template t)),
      .const "headers" none (.object fs true)] ++ op.queryStmts :=
    fun _ hstmt => List.mem_append_right _ hstmt
  exact requestFields_fit (.head _) (.tail _ (.head _)) hquery

/-- The constant of the query in a body. -/
theorem const_query_mem_iff (h : op.body = .ok stmts) {t : Option TypeExpr} {value : Expr} :
    .const "queryParameters" t value ∈ stmts ↔
      op.shape.hasQuery = true ∧ t = some (.ref "QueryParameters") ∧ value = op.queryExpr := by
  obtain ⟨url, headers, _, _, rfl⟩ := body_eq_ok.mp h
  simp [Operation.queryStmts]

theorem queryFits_iff (h : op.body = .ok stmts) (sync : Bool) :
    QueryFits (runtimeContract sync) stmts ↔
      ∀ p ∈ op.parametersIn .query, ∀ s ∈ p.style, s ∈ queryStyles := by
  simp only [QueryFits, const_query_mem_iff h]
  constructor
  · intro hfits p hp
    have hquery : op.shape.hasQuery = true :=
      hasQuery_iff.mpr ⟨p, List.mem_of_mem_filter hp, by simpa using List.of_mem_filter hp⟩
    exact queryExpr_fits_iff.mp (hfits _ _ ⟨hquery, rfl, rfl⟩) p hp
  · rintro hstyles t value ⟨_, rfl, rfl⟩
    exact queryExpr_fits_iff.mpr hstyles

/-- The entries of the query of a body have the right keys, whatever their styles. -/
theorem exists_entries_of_const_query (h : op.body = .ok stmts) {t : Option TypeExpr}
    {value : Expr} (hmem : .const "queryParameters" t value ∈ stmts) :
    t = some (.ref "QueryParameters") ∧ ∃ entries, value = .object entries true ∧
      entries.map (·.key) = (op.parametersIn .query).map (·.name) ∧
      ∀ entry ∈ entries, ∃ fs, entry.value = .object fs false ∧
        HasKeysOf queryMembers (fs.map (·.key)) := by
  obtain ⟨_, rfl, rfl⟩ := (const_query_mem_iff h).mp hmem
  refine ⟨rfl, _, rfl, ?_, fun entry hentry => ?_⟩
  · rw [List.map_map]
    rfl
  · obtain ⟨p, _, rfl⟩ := List.mem_map.mp hentry
    exact ⟨_, rfl, queryEntry_hasKeysOf p⟩

/-- **A body keeps the contract** just when the styles of its query parameters are declared. The
request fits the contract whatever the operation, and so do the keys of each entry of the query. -/
theorem request_keeps_contract_iff (h : op.body = .ok stmts) (sync : Bool) :
    (RequestFits (runtimeContract sync) stmts ∧ QueryFits (runtimeContract sync) stmts ↔
      ∀ p ∈ op.parametersIn .query, ∀ s ∈ p.style, s ∈ queryStyles) ∧
    RequestFits (runtimeContract sync) stmts ∧
    .exportedInterface "QueryParameter" queryMembers ∈ runtimeContract sync ∧
    ∀ t value, .const "queryParameters" t value ∈ stmts →
      t = some (.ref "QueryParameters") ∧ ∃ entries, value = .object entries true ∧
        entries.map (·.key) = (op.parametersIn .query).map (·.name) ∧
        ∀ entry ∈ entries, ∃ fs, entry.value = .object fs false ∧
          HasKeysOf queryMembers (fs.map (·.key)) := by
  refine ⟨?_, requestFits_of_body h sync, queryParameter_mem sync, fun t value hmem =>
    exists_entries_of_const_query h hmem⟩
  rw [← queryFits_iff h sync]
  exact and_iff_right (requestFits_of_body h sync)

/-- An operation with two query parameters, one of them of a given style. -/
def Operation.listTags (style : Style) : Operation where
  id := "list-tags"
  httpMethod := .get
  uri := "/tags"
  parameters := [{ name := "page size", location := .query },
    { name := "tags", location := .query, style := some style, explode := true }]

/-- A declared style keeps the contract. -/
theorem listTags_keeps_contract :
    ∃ stmts, (Operation.listTags .pipeDelimited).body = .ok stmts ∧
      RequestFits (runtimeContract false) stmts ∧ QueryFits (runtimeContract false) stmts := by
  obtain ⟨stmts, hbody⟩ : ∃ stmts, (Operation.listTags .pipeDelimited).body = .ok stmts := ⟨_, rfl⟩
  refine ⟨stmts, hbody, (request_keeps_contract_iff hbody false).1.mpr ?_⟩
  simp [Operation.listTags, Operation.parametersIn, queryStyles]

/-- **A style of a path does not fit the contract of a query**, although a parameter of the query
may have it. -/
theorem listTags_breaks_contract :
    ∃ stmts, (Operation.listTags .simple).body = .ok stmts ∧
      ¬ QueryFits (runtimeContract false) stmts := by
  obtain ⟨stmts, hbody⟩ : ∃ stmts, (Operation.listTags .simple).body = .ok stmts := ⟨_, rfl⟩
  refine ⟨stmts, hbody, fun h => ?_⟩
  have hstyles := (queryFits_iff hbody false).mp h
  simp [Operation.listTags, Operation.parametersIn, queryStyles] at hstyles

end Body

end TypedClient
