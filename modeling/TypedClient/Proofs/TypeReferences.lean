import TypedClient.Proofs.Body
import TypedClient.Proofs.Declarations

/-!
# References between types

A method and the declarations beside it refer to types by their names. Every name is
declared, is a type parameter where it stands, or comes from the runtime; and the
structured argument's type is given the type parameters it is declared with.

## Main definitions

* `TypeExpr.RefersWithin`: a type all references of which are in a relation
* `Resolved`: what is asked of a reference

## Main results

* `Declared.resolved`: a declared type is resolved with its own type parameters
* `types_refer_within`: every reference in a method and its declarations is resolved
-/

namespace TypedClient

open TypeScript

/-! ## References in a type -/

/-- Every reference in a type, a name with arguments, is in a relation. -/
def TypeScript.TypeExpr.RefersWithin (R : String → List TypeExpr → Prop) (t : TypeExpr) :
    Prop :=
  ∀ name args, .named name args ∈ t.parts → R name args

section RefersWithin

variable {R : String → List TypeExpr → Prop} {name choice : String} {base index t : TypeExpr}
  {types args : List TypeExpr} {names contentTypes : List String}

theorem refersWithin_named :
    (TypeExpr.named name args).RefersWithin R ↔
      R name args ∧ ∀ a ∈ args, a.RefersWithin R := by
  constructor
  · intro h
    refine ⟨h name args (by simp), fun a ha n as hm => h n as ?_⟩
    rw [TypeExpr.parts_named]
    exact List.mem_cons_of_mem _ (List.mem_flatMap.mpr ⟨a, ha, hm⟩)
  · rintro ⟨hr, hargs⟩ n as hm
    rw [TypeExpr.parts_named] at hm
    rcases List.mem_cons.mp hm with he | hm
    · obtain ⟨rfl, rfl⟩ := TypeExpr.named.inj he
      exact hr
    · obtain ⟨a, ha, hm⟩ := List.mem_flatMap.mp hm
      exact hargs a ha n as hm

theorem refersWithin_ref : (TypeExpr.ref name).RefersWithin R ↔ R name [] := by
  simp [TypeExpr.ref, refersWithin_named]

theorem refersWithin_of_isPlain (h : ∀ u ∈ t.parts, u.isPlain) : t.RefersWithin R := by
  intro n as hm
  exact absurd (h _ hm) (by simp [TypeExpr.isPlain])

/-- A type that is no reference itself refers to what the types in it refer to. -/
theorem refersWithin_of_parts {rest : List TypeExpr} (hparts : t.parts = t :: rest)
    (hnamed : ∀ n as, t ≠ .named n as) (h : ∀ n as, .named n as ∈ rest → R n as) :
    t.RefersWithin R := by
  intro n as hm
  rw [hparts] at hm
  rcases List.mem_cons.mp hm with he | hm
  · exact absurd he.symm (hnamed n as)
  · exact h n as hm

theorem refersWithin_union (h : ∀ t ∈ types, t.RefersWithin R) :
    (TypeExpr.union types).RefersWithin R := by
  refine refersWithin_of_parts (TypeExpr.parts_union types) nofun ?_
  intro n as hm
  obtain ⟨t, ht, hm⟩ := List.mem_flatMap.mp hm
  exact h t ht n as hm

theorem refersWithin_object {ps : List (Property TypeExpr)}
    (h : ∀ p ∈ ps, p.type.RefersWithin R) : (TypeExpr.object ps).RefersWithin R := by
  refine refersWithin_of_parts (TypeExpr.parts_object ps) nofun ?_
  intro n as hm
  obtain ⟨p, hp, hm⟩ := List.mem_flatMap.mp hm
  exact h p hp n as hm

theorem refersWithin_keyof (h : base.RefersWithin R) : (TypeExpr.keyof base).RefersWithin R :=
  refersWithin_of_parts (TypeExpr.parts_keyof base) nofun h

theorem refersWithin_indexed (hb : base.RefersWithin R) (hi : index.RefersWithin R) :
    (TypeExpr.indexed base index).RefersWithin R := by
  refine refersWithin_of_parts (TypeExpr.parts_indexed base index) nofun ?_
  intro n as hm
  rcases List.mem_append.mp hm with hm | hm
  · exact hb n as hm
  · exact hi n as hm

theorem refersWithin_promise (hr : R "Promise" [t]) (h : t.RefersWithin R) :
    (TypeExpr.promise t).RefersWithin R :=
  refersWithin_named.mpr ⟨hr, by simpa using h⟩

/-- The choice of a content type is referred to only if there are several. -/
theorem refersWithin_selectContent (hb : base.RefersWithin R)
    (hc : 2 ≤ contentTypes.length → R choice []) :
    (selectContent base contentTypes choice).RefersWithin R := by
  match contentTypes with
  | [] => exact hb
  | [only] =>
    exact refersWithin_indexed hb
      (refersWithin_of_isPlain (by simp [TypeExpr.text, TypeExpr.isPlain]))
  | c :: d :: cs => exact refersWithin_indexed hb (refersWithin_ref.mpr (hc (by simp)))

theorem refersWithin_refUnion (h : ∀ n ∈ names, R n []) : (refUnion names).RefersWithin R := by
  have hall : ∀ ns : List String, (∀ n ∈ ns, R n []) →
      (TypeExpr.union (ns.map .ref)).RefersWithin R := by
    intro ns hns
    refine refersWithin_union ?_
    intro t ht
    obtain ⟨n, hn, rfl⟩ := List.mem_map.mp ht
    exact refersWithin_ref.mpr (hns n hn)
  match names with
  | [] => exact hall [] h
  | [only] => exact refersWithin_ref.mpr (h only (by simp))
  | n :: m :: ns => exact hall _ h

end RefersWithin

/-! ## Resolved references -/

/-- The types a generated module does not declare for an operation: the built-in promise
and two types of the runtime. -/
def runtimeTypeNames : List String :=
  ["Promise", "RequestOption", "QueryParameters"]

/-- A reference with arguments, in a place where some type parameters are in scope, to
something that is there: a declaration, one of the type parameters, or a type of the
runtime. The structured argument's type has to be declared, and with type parameters of
the names of the arguments. -/
structure Resolved (op : Operation) (decls : List TypeDecl)
    (scope : List (TypeParam TypeExpr)) (name : String) (args : List TypeExpr) : Prop where
  known : (∃ d ∈ decls, d.name = name) ∨ (∃ p ∈ scope, p.name = name) ∨ name ∈ runtimeTypeNames
  declared : name = op.paramsName → ∃ d ∈ decls, d.name = name
  arguments : name = op.paramsName →
    ∀ d ∈ decls, d.name = name → args = d.typeParams.map fun p => .ref p.name

section Resolved

variable {op : Operation} {decls : List TypeDecl} {scope : List (TypeParam TypeExpr)}
  {name : String} {args : List TypeExpr}

/-- **A declared type is resolved with its own type parameters** as arguments. -/
theorem Declared.resolved {d : TypeDecl} (h : Declared op d) (hds : op.declarations = .ok decls) :
    Resolved op decls scope d.name (d.typeParams.map fun p => .ref p.name) where
  known := Or.inl ⟨d, (mem_declarations hds).mpr h, rfl⟩
  declared _ := ⟨d, (mem_declarations hds).mpr h, rfl⟩
  arguments hn d' hd' hname := by
    rw [h.eq_paramsDecl hn,
      ((mem_declarations hds).mp hd').eq_paramsDecl (hname.trans hn)]

theorem resolved_of_ne (hne : name ≠ op.paramsName)
    (h : (∃ p ∈ scope, p.name = name) ∨ name ∈ runtimeTypeNames) :
    Resolved op decls scope name args where
  known := Or.inr h
  declared hn := absurd hn hne
  arguments hn := absurd hn hne

theorem ne_paramsName (h : ¬ "Params$".toList <+: name.toList) : name ≠ op.paramsName := by
  rintro rfl
  rw [Operation.paramsName, String.toList_append] at h
  exact h (List.prefix_append ..)

theorem resolved_runtime (h : name ∈ runtimeTypeNames) : Resolved op decls scope name args := by
  have hall : ∀ n ∈ runtimeTypeNames, ¬ "Params$".toList <+: n.toList := by decide
  exact resolved_of_ne (ne_paramsName (hall name h)) (Or.inr h)

/-! ## The choices of content types -/

theorem resolved_requestChoice (h : op.shape.hasRequestChoice) :
    Resolved op decls op.typeParams requestChoice args := by
  refine resolved_of_ne (ne_paramsName (by decide)) (Or.inl ?_)
  exact ⟨_, mem_choices.mpr (Or.inl ⟨h, rfl⟩), rfl⟩

theorem resolved_responseChoice (h : op.shape.hasResponseChoice) :
    Resolved op decls op.typeParams responseChoice args := by
  refine resolved_of_ne (ne_paramsName (by decide)) (Or.inl ?_)
  exact ⟨_, mem_choices.mpr (Or.inr ⟨h, rfl⟩), rfl⟩

theorem hasBody_of_hasRequestChoice (h : op.shape.hasRequestChoice) : op.shape.hasBody := by
  rw [Operation.hasRequestChoice_iff, Operation.requestContentTypes] at h
  rw [hasBody_iff]
  cases hb : op.requestBody with
  | none =>
    rw [hb] at h
    simp at h
  | some body => rfl

theorem responses_ne_nil_of_hasResponseChoice (h : op.shape.hasResponseChoice) :
    op.responses ≠ [] := by
  rw [Operation.hasResponseChoice_iff, Operation.responseContentTypes] at h
  intro hr
  rw [hr] at h
  simp [firstOccurrences] at h

/-- The arguments of the structured argument's type are the names of its type
parameters. -/
theorem typeArguments_eq (op : Operation) :
    typeArguments op.shape = op.typeParams.map fun p => .ref p.name := by
  rw [typeArguments, Operation.typeParams]
  cases op.shape.hasRequestChoice <;> cases op.shape.hasResponseChoice <;> rfl

/-- The bounds of the type parameters are declared. -/
theorem typeParams_refer_within (hds : op.declarations = .ok decls) :
    ∀ t ∈ op.typeParams.filterMap (·.bound), t.RefersWithin (Resolved op decls scope) := by
  intro t ht
  obtain ⟨p, hp, hbound⟩ := List.mem_filterMap.mp ht
  rcases mem_choices.mp hp with ⟨h, rfl⟩ | ⟨h, rfl⟩
  · obtain rfl := Option.some.inj hbound
    -- a choice is left to the caller only where there is a body to choose for
    have hd : Declared op _ := .requestChoice (hasBody_of_hasRequestChoice h)
    exact refersWithin_ref.mpr (hd.resolved hds)
  · obtain rfl := Option.some.inj hbound
    have hd : Declared op _ := .responseChoice (responses_ne_nil_of_hasResponseChoice h)
    exact refersWithin_ref.mpr (hd.resolved hds)

end Resolved

/-! ## Methods and declarations -/

section Whole

variable {op : Operation} {decls : List TypeDecl} {scope : List (TypeParam TypeExpr)}

theorem methodParams_refer_within (hds : op.declarations = .ok decls) :
    ∀ t ∈ (methodParams op.paramsName op.shape).filterMap (·.type),
      t.RefersWithin (Resolved op decls op.typeParams) := by
  intro t ht
  obtain ⟨p, hp, htype⟩ := List.mem_filterMap.mp ht
  rcases List.mem_append.mp hp with hp | hp
  · obtain ⟨h, hp⟩ := List.mem_ite_nil_right.mp hp
    obtain rfl := List.mem_singleton.mp hp
    obtain rfl := Option.some.inj htype
    refine refersWithin_named.mpr ⟨?_, fun a ha => ?_⟩
    · rw [typeArguments_eq]
      exact (Declared.params h).resolved hds
    · rcases mem_choices.mp ha with ⟨hc, rfl⟩ | ⟨hc, rfl⟩
      · exact refersWithin_ref.mpr (resolved_requestChoice hc)
      · exact refersWithin_ref.mpr (resolved_responseChoice hc)
  · obtain rfl := List.mem_singleton.mp hp
    obtain rfl := Option.some.inj htype
    exact refersWithin_ref.mpr (resolved_runtime (by decide))

/-- Each response's type is declared. -/
theorem responseNames_resolved (hds : op.declarations = .ok decls) :
    ∀ n ∈ op.responseNames, Resolved op decls scope n [] := by
  intro n hn
  obtain ⟨r, hr, rfl⟩ := List.mem_map.mp hn
  obtain ⟨ps, _, hd⟩ := exists_declared_response hds hr
  exact hd.resolved hds

theorem returnType_refers_within (hds : op.declarations = .ok decls) (sync : Bool) :
    (op.returnType sync).RefersWithin (Resolved op decls op.typeParams) := by
  have hresult : op.resultType.RefersWithin (Resolved op decls op.typeParams) := by
    rw [Operation.resultType]
    split
    · exact refersWithin_of_isPlain (by simp [TypeExpr.void, TypeExpr.isPlain])
    · refine refersWithin_selectContent (refersWithin_refUnion (responseNames_resolved hds)) ?_
      intro h
      exact resolved_responseChoice (Operation.hasResponseChoice_iff.mpr h)
  rw [Operation.returnType]
  split
  · exact hresult
  · exact refersWithin_promise (resolved_runtime (by decide)) hresult

/-- The only annotation in a body is that of the query. -/
theorem eq_of_mem_body_types {stmts : List Stmt} (h : op.body = .ok stmts) :
    ∀ t ∈ stmts.filterMap Stmt.type?, t = .ref "QueryParameters" := by
  obtain ⟨url, headers, _, _, rfl⟩ := body_eq_ok.mp h
  intro t ht
  rw [Operation.queryStmts] at ht
  split at ht <;> simp_all [Stmt.type?]

theorem body_refers_within {stmts : List Stmt} (h : op.body = .ok stmts) :
    ∀ t ∈ stmts.filterMap Stmt.type?, t.RefersWithin (Resolved op decls scope) := by
  intro t ht
  rw [eq_of_mem_body_types h t ht]
  exact refersWithin_ref.mpr (resolved_runtime (by decide))

theorem method_refers_within {options : MethodOptions} {m : Method}
    (hm : op.toMethod options = .ok m) (hds : op.declarations = .ok decls) :
    ∀ t ∈ m.types, t.RefersWithin (Resolved op decls m.typeParams) := by
  obtain ⟨stmts, hbody, rfl⟩ := toMethod_eq_ok.mp hm
  intro t ht
  -- bounds, parameters, the return type, and the annotations in the body
  rw [Method.types] at ht
  rcases List.mem_append.mp ht with ht | ht
  · rcases List.mem_append.mp ht with ht | ht
    · rcases List.mem_append.mp ht with ht | ht
      · exact typeParams_refer_within hds t ht
      · exact methodParams_refer_within hds t ht
    · obtain rfl := List.mem_singleton.mp ht
      exact returnType_refers_within hds options.sync
  · exact body_refers_within hbody t ht

theorem paramsProperties_refer_within (hds : op.declarations = .ok decls) :
    ∀ p ∈ op.paramsProperties, p.type.RefersWithin (Resolved op decls op.typeParams) := by
  intro p hp
  rcases mem_paramsProperties.mp hp with ⟨h, rfl⟩ | ⟨_, rfl⟩ | ⟨h, rfl⟩
  · obtain ⟨ps, _, hd⟩ := exists_declared_parameter hds h
    exact refersWithin_ref.mpr (hd.resolved hds)
  · apply refersWithin_object
    intro q hq
    rcases mem_choices.mp hq with ⟨hc, rfl⟩ | ⟨hc, rfl⟩
    · exact refersWithin_ref.mpr (resolved_requestChoice hc)
    · exact refersWithin_ref.mpr (resolved_responseChoice hc)
  · obtain ⟨ps, hd⟩ := exists_declared_requestBody hds h
    refine refersWithin_selectContent (refersWithin_ref.mpr (hd.resolved hds)) ?_
    intro hc
    exact resolved_requestChoice (Operation.hasRequestChoice_iff.mpr hc)

theorem responseChoiceType_refers_within (hds : op.declarations = .ok decls) :
    op.responseChoiceType.RefersWithin (Resolved op decls scope) := by
  have hkey : ∀ n ∈ op.responseNames,
      (TypeExpr.keyof (.ref n)).RefersWithin (Resolved op decls scope) := by
    intro n hn
    exact refersWithin_keyof (refersWithin_ref.mpr (responseNames_resolved hds n hn))
  rw [Operation.responseChoiceType]
  split
  · next only heq => exact hkey only (by simp [heq])
  · apply refersWithin_union
    intro t ht
    obtain ⟨n, hn, rfl⟩ := List.mem_map.mp ht
    exact hkey n hn

theorem Declared.refers_within {d : TypeDecl} (h : Declared op d)
    (hds : op.declarations = .ok decls) :
    ∀ t ∈ d.types, t.RefersWithin (Resolved op decls d.typeParams) := by
  -- an interface of schemas refers to nothing
  have hplain : ∀ ps : List (Property TypeExpr), (∀ p ∈ ps, ∀ u ∈ p.type.parts, u.isPlain) →
      ∀ name, ∀ t ∈ (TypeDecl.exportedInterface name ps).types,
        t.RefersWithin (Resolved op decls []) := by
    intro ps hps name t ht
    obtain ⟨p, hp, rfl⟩ := List.mem_map.mp ht
    exact refersWithin_of_isPlain (hps p hp)
  intro t ht
  cases h with
  | parameter _ hps => exact hplain _ (isPlain_of_parameterProperties hps) _ t ht
  | requestBody _ hps => exact hplain _ (isPlain_of_contentProperties hps) _ t ht
  | response _ hps => exact hplain _ (isPlain_of_contentProperties hps) _ t ht
  | requestChoice hb =>
    obtain rfl := List.mem_singleton.mp ht
    obtain ⟨ps, hd⟩ := exists_declared_requestBody hds hb
    exact refersWithin_keyof (refersWithin_ref.mpr (hd.resolved hds))
  | responseChoice _ =>
    obtain rfl := List.mem_singleton.mp ht
    exact responseChoiceType_refers_within hds
  | params _ =>
    rcases List.mem_append.mp ht with ht | ht
    · exact typeParams_refer_within hds t ht
    · obtain ⟨p, hp, rfl⟩ := List.mem_map.mp ht
      exact paramsProperties_refer_within hds p hp

/-- **Every reference is resolved**, whether it stands in the method of an operation or in
one of its declarations, at any depth. -/
theorem types_refer_within {options : MethodOptions} {m : Method}
    (hm : op.toMethod options = .ok m) (hds : op.declarations = .ok decls) :
    (∀ t ∈ m.types, t.RefersWithin (Resolved op decls m.typeParams)) ∧
      ∀ d ∈ decls, ∀ t ∈ d.types, t.RefersWithin (Resolved op decls d.typeParams) :=
  ⟨method_refers_within hm hds,
    fun _ hd => ((mem_declarations hds).mp hd).refers_within hds⟩

/-- An operation with parameters, a request body and responses, each of several content
types. -/
def Operation.replaceFile : Operation where
  id := "replace-file"
  httpMethod := .put
  uri := "/files/\x7bname\x7d"
  parameters := [{ name := "name", location := .path }, { name := "version", location := .query }]
  requestBody := some { content := .ofList [("text/plain", .ofKind "string"),
    ("application/json", .ofKind "object")] }
  responses := [⟨"200", .ofList [("text/plain", .ofKind "string")]⟩,
    ⟨"202", .ofList [("application/json", .ofKind "object")]⟩]

theorem replaceFile_types_refer_within :
    ∃ m decls, Operation.replaceFile.toMethod {} = .ok m ∧
      Operation.replaceFile.declarations = .ok decls ∧
      (∀ t ∈ m.types, t.RefersWithin (Resolved .replaceFile decls m.typeParams)) ∧
      ∀ d ∈ decls, ∀ t ∈ d.types, t.RefersWithin (Resolved .replaceFile decls d.typeParams) :=
  ⟨_, _, rfl, rfl, types_refer_within rfl rfl⟩

end Whole

end TypedClient
