import TypedClient.Declarations
import TypedClient.Proofs.Outcome
import TypedClient.Proofs.TypeNames
import TypedClient.Proofs.TypeScript.Parts

/-!
# Laws of declarations

Which types an operation declares, and under which condition each of them. The type of a
schema is spelled out: it has no reference in it, neither to a declaration nor to
anything else.

## Main definitions

* `TypeExpr.isPlain`: types that say themselves what their values are
* `schemaProperty`: the member of an interface for a schema
* `Declared`: the declarations of an operation, each with its condition

## Main results

* `isPlain_of_toType`: every part of a schema's type is plain
* `mem_declarations`: the declarations are those, and no others
* `Declared.isDeclOf`: the name of a declaration says of which family it is
* `exists_declared_parameter`, `exists_declared_requestBody`, `exists_declared_response`:
  what is declared when all declarations could be made
-/

namespace TypedClient

open TypeScript

/-! ## Types of schemas -/

/-- The types that say themselves what their values are. The other ones refer to something
else. -/
def TypeScript.TypeExpr.isPlain : TypeExpr → Bool
  | .primitive _ | .literal _ | .union _ | .array _ | .object _ => true
  | _ => false

theorem isPlain_of_unionOf (values : List Literal) :
    ∀ u ∈ (Schema.unionOf values).parts, u.isPlain := by
  refine TypeExpr.forall_parts_union.mpr ⟨rfl, fun t ht u hu => ?_⟩
  obtain ⟨v, _, rfl⟩ := List.mem_map.mp ht
  rw [TypeExpr.parts_literal, List.mem_singleton] at hu
  rw [hu]
  rfl

mutual

/-- **Every part of a schema's type is plain.** -/
theorem isPlain_of_toType (s : Schema) {t : TypeExpr} (h : s.toType = .ok t) :
    ∀ u ∈ t.parts, u.isPlain := by
  match s with
  | .mk name values members items =>
    rw [Schema.toType] at h
    split at h
    · cases h
    · next kind _ =>
      split at h
      · next vs _ =>
        obtain rfl := Except.ok.inj h
        exact isPlain_of_unionOf vs
      · -- members and elements are looked into for these two kinds only
        cases kind with
        | object =>
          obtain ⟨ps, hps, h⟩ := bind_eq_ok.mp h
          obtain rfl := pure_eq_ok.mp h
          exact TypeExpr.forall_parts_object.mpr ⟨rfl, isPlain_of_memberTypes members hps⟩
        | array =>
          obtain ⟨e, he, h⟩ := bind_eq_ok.mp h
          obtain rfl := pure_eq_ok.mp h
          exact TypeExpr.forall_parts_array.mpr ⟨rfl, isPlain_of_elementType items he⟩
        | _ =>
          obtain rfl := Except.ok.inj h
          intro u hu
          obtain rfl := List.mem_singleton.mp hu
          rfl

theorem isPlain_of_memberTypes (ms : List (Member Schema)) {ps : List (Property TypeExpr)}
    (h : Schema.memberTypes ms = .ok ps) : ∀ p ∈ ps, ∀ u ∈ p.type.parts, u.isPlain := by
  match ms with
  | [] =>
    obtain rfl := Except.ok.inj h
    intro p hp
    cases hp
  | m :: ms =>
    obtain ⟨q, hq, h⟩ := bind_eq_ok.mp h
    obtain ⟨qs, hqs, h⟩ := bind_eq_ok.mp h
    obtain rfl := pure_eq_ok.mp h
    intro p hp
    rcases List.mem_cons.mp hp with rfl | hp
    · exact isPlain_of_memberType m hq
    · exact isPlain_of_memberTypes ms hqs p hp

theorem isPlain_of_memberType (m : Member Schema) {p : Property TypeExpr}
    (h : Schema.memberType m = .ok p) : ∀ u ∈ p.type.parts, u.isPlain := by
  match m with
  | ⟨name, required, schema⟩ =>
    obtain ⟨t, ht, h⟩ := bind_eq_ok.mp h
    obtain rfl := pure_eq_ok.mp h
    exact isPlain_of_toType schema ht

theorem isPlain_of_elementType (s? : Option Schema) {t : TypeExpr}
    (h : Schema.elementType s? = .ok t) : ∀ u ∈ t.parts, u.isPlain := by
  match s? with
  | none =>
    obtain rfl := Except.ok.inj h
    intro u hu
    obtain rfl := List.mem_singleton.mp hu
    rfl
  | some s => exact isPlain_of_toType s h

end

/-! ## Members -/

/-- The member of an interface for a schema. -/
def schemaProperty (name : String) (schema : Schema) (optional : Bool) :
    Except Fault (Property TypeExpr) :=
  return ⟨name, ← schema.toType, optional⟩

section Members

variable {ps : List (Property TypeExpr)}

theorem schemaProperty_eq_ok {name : String} {schema : Schema} {optional : Bool}
    {p : Property TypeExpr} :
    schemaProperty name schema optional = .ok p ↔
      p.name = name ∧ schema.toType = .ok p.type ∧ p.optional = optional := by
  obtain ⟨n, t, o⟩ := p
  rw [schemaProperty, bind_eq_ok]
  constructor
  · rintro ⟨u, hu, h⟩
    obtain ⟨rfl, rfl, rfl⟩ := Property.mk.inj (pure_eq_ok.mp h)
    exact ⟨rfl, hu, rfl⟩
  · rintro ⟨rfl, ht, rfl⟩
    exact ⟨t, ht, rfl⟩

theorem contentProperties_eq_mapM (es : List (String × Schema)) :
    contentProperties es = es.mapM fun e => schemaProperty e.1 e.2 false := by
  induction es with
  | nil => rfl
  | cons e es ih =>
    obtain ⟨key, schema⟩ := e
    rw [contentProperties, ih, List.mapM_cons, schemaProperty, bind_assoc]
    simp only [pure_bind]

theorem parameterProperties_eq_mapM (params : List Parameter) :
    parameterProperties params =
      params.mapM fun p => schemaProperty p.name p.schema (!p.required) := by
  induction params with
  | nil => rfl
  | cons p params ih =>
    rw [parameterProperties, ih, List.mapM_cons, schemaProperty, bind_assoc]
    simp only [pure_bind]

/-- The members of an interface for schemas are plain. -/
theorem isPlain_of_mapM_schemaProperty {α : Type} {xs : List α} {name : α → String}
    {schema : α → Schema} {optional : α → Bool}
    (h : xs.mapM (fun x => schemaProperty (name x) (schema x) (optional x)) = .ok ps) :
    ∀ p ∈ ps, ∀ u ∈ p.type.parts, u.isPlain := by
  intro p hp
  obtain ⟨x, _, hx⟩ := mem_of_mapM_eq_ok h p hp
  obtain ⟨_, htype, _⟩ := schemaProperty_eq_ok.mp hx
  exact isPlain_of_toType (schema x) htype

theorem isPlain_of_contentProperties {es : List (String × Schema)}
    (h : contentProperties es = .ok ps) : ∀ p ∈ ps, ∀ u ∈ p.type.parts, u.isPlain := by
  rw [contentProperties_eq_mapM] at h
  exact isPlain_of_mapM_schemaProperty h

theorem isPlain_of_parameterProperties {params : List Parameter}
    (h : parameterProperties params = .ok ps) : ∀ p ∈ ps, ∀ u ∈ p.type.parts, u.isPlain := by
  rw [parameterProperties_eq_mapM] at h
  exact isPlain_of_mapM_schemaProperty h

/-- Each schema of a map has a member under its key. -/
theorem map_name_of_contentProperties {es : List (String × Schema)}
    (h : contentProperties es = .ok ps) : ps.map Property.name = es.map Prod.fst := by
  induction es generalizing ps with
  | nil =>
    obtain rfl := Except.ok.inj h
    rfl
  | cons e es ih =>
    obtain ⟨key, schema⟩ := e
    obtain ⟨t, _, h⟩ := bind_eq_ok.mp h
    obtain ⟨qs, hqs, h⟩ := bind_eq_ok.mp h
    obtain rfl := pure_eq_ok.mp h
    rw [List.map_cons, List.map_cons, ih hqs]

/-- Every parameter has a member of its name. -/
theorem exists_mem_parameterProperties {params : List Parameter} {p : Parameter}
    (h : parameterProperties params = .ok ps) (hp : p ∈ params) : ∃ q ∈ ps, q.name = p.name := by
  rw [parameterProperties_eq_mapM] at h
  obtain ⟨q, hq, hpq⟩ := exists_mem_of_mapM_eq_ok h p hp
  exact ⟨q, hq, (schemaProperty_eq_ok.mp hpq).1⟩

end Members

/-! ## The declarations of an operation -/

namespace Operation

/-- The choice of a content type among those of the responses. -/
def responseChoiceType (op : Operation) : TypeExpr :=
  match op.responseNames with
  | [only] => .keyof (.ref only)
  | names => .union (names.map fun n => .keyof (.ref n))

/-- The interface of the structured argument, whether or not it is declared. -/
def paramsDecl (op : Operation) : TypeDecl where
  name := op.paramsName
  typeParams := op.typeParams
  body := .interfaceOf op.paramsProperties
  isExported := true

end Operation

/-- Whatever is there for each choice that is left to the caller. -/
theorem mem_choices {α : Type} {shape : Shape} {a b x : α} :
    x ∈ (if shape.hasRequestChoice then [a] else []) ++
        (if shape.hasResponseChoice then [b] else []) ↔
      shape.hasRequestChoice = true ∧ x = a ∨ shape.hasResponseChoice = true ∧ x = b := by
  simp only [List.mem_append, List.mem_ite_nil_right, List.mem_singleton]

/-- The members of the structured argument: the parameters, the choices of content types
and the request body. -/
theorem mem_paramsProperties {op : Operation} {p : Property TypeExpr} :
    p ∈ op.paramsProperties ↔
      op.shape.hasParameters = true ∧ p = ⟨"parameter", .ref op.parameterName, false⟩ ∨
      Operation.choiceProperties op.shape ≠ [] ∧
        p = ⟨"headers", .object (Operation.choiceProperties op.shape), false⟩ ∨
      op.shape.hasBody = true ∧
        p = ⟨"requestBody", selectContent (.ref op.requestBodyName) op.requestContentTypes
          requestChoice, false⟩ := by
  simp only [Operation.paramsProperties, List.mem_append, List.mem_ite_nil_right,
    List.mem_ite_nil_left, List.isEmpty_iff, List.mem_singleton, or_assoc, ne_eq]

/-- The declarations of an operation, each under the condition for it. -/
inductive Declared (op : Operation) : TypeDecl → Prop
  | parameter {ps : List (Property TypeExpr)} (h : op.shape.hasParameters)
      (hps : parameterProperties op.parameters = .ok ps) :
      Declared op (.exportedInterface op.parameterName ps)
  | requestBody {body : RequestBody} {ps : List (Property TypeExpr)}
      (h : op.requestBody = some body) (hps : contentProperties body.content.entries = .ok ps) :
      Declared op (.exportedInterface op.requestBodyName ps)
  | response {r : Response} {ps : List (Property TypeExpr)} (h : r ∈ op.responses)
      (hps : contentProperties r.content.entries = .ok ps) :
      Declared op (.exportedInterface (op.responseName r) ps)
  | requestChoice (h : op.shape.hasBody) :
      Declared op (.exportedAlias op.requestContentTypeName (.keyof (.ref op.requestBodyName)))
  | responseChoice (h : op.responses ≠ []) :
      Declared op (.exportedAlias op.responseContentTypeName op.responseChoiceType)
  | params (h : op.shape.needsParams) : Declared op op.paramsDecl

section Declarations

variable {op : Operation} {ds : List TypeDecl} {d : TypeDecl}

theorem mem_parameterDecls (h : op.parameterDecls = .ok ds) :
    d ∈ ds ↔ op.shape.hasParameters ∧ ∃ ps, parameterProperties op.parameters = .ok ps ∧
      d = .exportedInterface op.parameterName ps := by
  rw [Operation.parameterDecls] at h
  split at h
  · next hp =>
    obtain ⟨ps, hps, h⟩ := bind_eq_ok.mp h
    obtain rfl := pure_eq_ok.mp h
    simp [hp, hps]
  · next hp =>
    obtain rfl := pure_eq_ok.mp h
    simp [hp]

theorem mem_requestBodyDecls (h : op.requestBodyDecls = .ok ds) :
    d ∈ ds ↔ ∃ body, op.requestBody = some body ∧
      ∃ ps, contentProperties body.content.entries = .ok ps ∧
        d = .exportedInterface op.requestBodyName ps := by
  rw [Operation.requestBodyDecls] at h
  cases hb : op.requestBody with
  | none =>
    rw [hb] at h
    obtain rfl := pure_eq_ok.mp h
    simp
  | some body =>
    rw [hb] at h
    obtain ⟨ps, hps, h⟩ := bind_eq_ok.mp h
    obtain rfl := pure_eq_ok.mp h
    simp [hps]

/-- The interface of a response. -/
def Operation.responseDecl (op : Operation) (r : Response) : Except Fault TypeDecl :=
  return .exportedInterface (op.responseName r) (← contentProperties r.content.entries)

theorem responseDeclsOf_eq_mapM (op : Operation) (rs : List Response) :
    op.responseDeclsOf rs = rs.mapM op.responseDecl := by
  induction rs with
  | nil => rfl
  | cons r rs ih =>
    rw [Operation.responseDeclsOf, ih, List.mapM_cons, Operation.responseDecl, bind_assoc]
    simp only [pure_bind]

theorem responseDecl_eq_ok {r : Response} :
    op.responseDecl r = .ok d ↔ ∃ ps, contentProperties r.content.entries = .ok ps ∧
      d = .exportedInterface (op.responseName r) ps := by
  simp only [Operation.responseDecl, bind_eq_ok, pure_eq_ok, eq_comm (a := d)]

theorem mem_responseDeclsOf {rs : List Response} (h : op.responseDeclsOf rs = .ok ds) :
    d ∈ ds ↔ ∃ r ∈ rs, ∃ ps, contentProperties r.content.entries = .ok ps ∧
      d = .exportedInterface (op.responseName r) ps := by
  rw [responseDeclsOf_eq_mapM] at h
  constructor
  · intro hd
    obtain ⟨r, hr, hrd⟩ := mem_of_mapM_eq_ok h d hd
    exact ⟨r, hr, responseDecl_eq_ok.mp hrd⟩
  · rintro ⟨r, hr, hrd⟩
    obtain ⟨d', hd', h'⟩ := exists_mem_of_mapM_eq_ok h r hr
    rw [responseDecl_eq_ok.mpr hrd] at h'
    obtain rfl := Except.ok.inj h'
    exact hd'

theorem mem_requestChoiceDecls :
    d ∈ op.requestChoiceDecls ↔ op.shape.hasBody ∧
      d = .exportedAlias op.requestContentTypeName (.keyof (.ref op.requestBodyName)) := by
  rw [Operation.requestChoiceDecls]
  split <;> simp [*]

theorem mem_responseChoiceDecls :
    d ∈ op.responseChoiceDecls ↔ op.responses ≠ [] ∧
      d = .exportedAlias op.responseContentTypeName op.responseChoiceType := by
  have hnames : op.responses ≠ [] ↔ op.responseNames ≠ [] := by
    simp [Operation.responseNames]
  rw [Operation.responseChoiceDecls, Operation.responseChoiceType, hnames]
  split <;> simp_all

theorem mem_paramsDecls : d ∈ op.paramsDecls ↔ op.shape.needsParams ∧ d = op.paramsDecl := by
  rw [Operation.paramsDecls, Operation.paramsDecl]
  split <;> simp [*]

/-- **The declarations of an operation** are those whose condition it meets. -/
theorem mem_declarations (h : op.declarations = .ok ds) : d ∈ ds ↔ Declared op d := by
  obtain ⟨parameter, hparameter, h⟩ := bind_eq_ok.mp h
  obtain ⟨body, hbody, h⟩ := bind_eq_ok.mp h
  obtain ⟨responses, hresponses, h⟩ := bind_eq_ok.mp h
  obtain rfl := pure_eq_ok.mp h
  simp only [List.mem_append, mem_parameterDecls hparameter, mem_requestBodyDecls hbody,
    mem_responseDeclsOf hresponses, mem_requestChoiceDecls, mem_responseChoiceDecls,
    mem_paramsDecls]
  constructor
  · rintro (((((⟨hp, ps, hps, rfl⟩ | ⟨b, hb, ps, hps, rfl⟩) | ⟨r, hr, ps, hps, rfl⟩) |
      ⟨hb, rfl⟩) | ⟨hr, rfl⟩) | ⟨hp, rfl⟩)
    · exact .parameter hp hps
    · exact .requestBody hb hps
    · exact .response hr hps
    · exact .requestChoice hb
    · exact .responseChoice hr
    · exact .params hp
  · intro hd
    cases hd with
    | parameter hp hps => simp [hp, hps]
    | requestBody hb hps => simp [hb, hps]
    | response hr hps => exact .inl (.inl (.inl (.inr ⟨_, hr, _, hps, rfl⟩)))
    | requestChoice hb => simp [hb]
    | responseChoice hr => simp [hr]
    | params hp => simp [hp]

theorem exists_declared_parameter (h : op.declarations = .ok ds) (hp : op.shape.hasParameters) :
    ∃ ps, parameterProperties op.parameters = .ok ps ∧
      Declared op (.exportedInterface op.parameterName ps) := by
  obtain ⟨ds', hds', _⟩ := bind_eq_ok.mp h
  rw [Operation.parameterDecls, if_pos hp] at hds'
  obtain ⟨ps, hps, _⟩ := bind_eq_ok.mp hds'
  exact ⟨ps, hps, .parameter hp hps⟩

theorem exists_declared_requestBody (h : op.declarations = .ok ds) (hb : op.shape.hasBody) :
    ∃ ps, Declared op (.exportedInterface op.requestBodyName ps) := by
  obtain ⟨_, _, h⟩ := bind_eq_ok.mp h
  obtain ⟨ds', hds', _⟩ := bind_eq_ok.mp h
  obtain ⟨body, hbody⟩ := Option.isSome_iff_exists.mp hb
  rw [Operation.requestBodyDecls, hbody] at hds'
  obtain ⟨ps, hps, _⟩ := bind_eq_ok.mp hds'
  exact ⟨ps, .requestBody hbody hps⟩

theorem exists_declared_response {r : Response} (h : op.declarations = .ok ds)
    (hr : r ∈ op.responses) : ∃ ps, contentProperties r.content.entries = .ok ps ∧
      Declared op (.exportedInterface (op.responseName r) ps) := by
  obtain ⟨_, _, h⟩ := bind_eq_ok.mp h
  obtain ⟨_, _, h⟩ := bind_eq_ok.mp h
  obtain ⟨ds', hds', _⟩ := bind_eq_ok.mp h
  rw [responseDeclsOf_eq_mapM] at hds'
  obtain ⟨d, _, hd⟩ := exists_mem_of_mapM_eq_ok hds' r hr
  obtain ⟨ps, hps, _⟩ := responseDecl_eq_ok.mp hd
  exact ⟨ps, hps, .response hr hps⟩

/-- What a declaration of one family is. -/
def Operation.IsDeclOf (op : Operation) (d : TypeDecl) : Family → Prop
  | .parameter => ∃ ps, parameterProperties op.parameters = .ok ps ∧
      d = .exportedInterface op.parameterName ps
  | .requestBody => ∃ body, op.requestBody = some body ∧
      ∃ ps, contentProperties body.content.entries = .ok ps ∧
        d = .exportedInterface op.requestBodyName ps
  | .response => ∃ r ∈ op.responses, ∃ ps, contentProperties r.content.entries = .ok ps ∧
      d = .exportedInterface (op.responseName r) ps
  | .requestChoice =>
    d = .exportedAlias op.requestContentTypeName (.keyof (.ref op.requestBodyName))
  | .responseChoice => d = .exportedAlias op.responseContentTypeName op.responseChoiceType
  | .params => d = op.paramsDecl

/-- **The name of a declaration says of which family it is.** -/
theorem Declared.isDeclOf (h : Declared op d) {f : Family} {x : String}
    (hn : d.name = f.tag ++ x) : op.IsDeclOf d f := by
  -- the name made for the declaration has the tag of its own family
  have hfamily : ∀ {g : Family} {y : String}, d.name = g.tag ++ y → g = f :=
    fun hg => (Family.tag_append_inj.mp (hg.symm.trans hn)).1
  cases h with
  | parameter _ hps =>
    obtain rfl := hfamily op.parameterName_eq
    exact ⟨_, hps, rfl⟩
  | requestBody hb hps =>
    obtain rfl := hfamily op.requestBodyName_eq
    exact ⟨_, hb, _, hps, rfl⟩
  | @response r _ hr hps =>
    obtain rfl := hfamily (op.responseName_eq r)
    exact ⟨_, hr, _, hps, rfl⟩
  | requestChoice _ =>
    obtain rfl := hfamily op.requestContentTypeName_eq
    rfl
  | responseChoice _ =>
    obtain rfl := hfamily op.responseContentTypeName_eq
    rfl
  | params _ =>
    obtain rfl := hfamily op.paramsName_eq
    rfl

/-- Only the structured argument's type has its name. -/
theorem Declared.eq_paramsDecl (h : Declared op d) (hn : d.name = op.paramsName) :
    d = op.paramsDecl :=
  h.isDeclOf (hn.trans op.paramsName_eq)

end Declarations

end TypedClient
