import TypedClient.Proofs.AccessPaths
import TypedClient.Proofs.TypeReferences

/-!
# Indexed access types

A request body and a response are interfaces with one member for each content type, and a method
refers to a member of them by an indexed access. The index is a single content type or a type
parameter whose bound admits several. The access is well formed if every interface it looks into
has a member for every index that is admitted.

## Main definitions

* `HasMember`, `RangesOver`, `Admits`: the members of declared interfaces, the interfaces a type
  ranges over, and the keys a bound admits
* `IndexWellFormed`, `TypeExpr.IndexesWithin`: a well-formed access, and a type in which every
  access is well formed

## Main results

* `selectContent_indexesWithin_iff`: a part of a type by content type is well formed just when
  each interface has all the content types
* `types_index_within_iff`: the declarations of an operation are well formed always, and its
  method just when all responses have the same content types
-/

namespace TypedClient

open TypeScript

/-! ## Well-formed accesses -/

/-- An interface with a member of a given name is declared. -/
def HasMember (decls : List TypeDecl) (name member : String) : Prop :=
  ∃ type, Declares decls name member type

/-- The interfaces a type ranges over: the one it names, or those the members of a union
name. -/
inductive RangesOver : TypeExpr → List String → Prop
  | ref (name : String) : RangesOver (.ref name) [name]
  | union (names : List String) : RangesOver (.union (names.map .ref)) names

/-- The keys a type admits: the names of the members of an interface after `keyof`, what one
member of a union admits, and for the name of an alias what stands behind it. -/
inductive Admits (decls : List TypeDecl) : TypeExpr → String → Prop
  | keyof {name key : String} (h : HasMember decls name key) :
      Admits decls (.keyof (.ref name)) key
  | union {types : List TypeExpr} {t : TypeExpr} {key : String} (ht : t ∈ types)
      (h : Admits decls t key) : Admits decls (.union types) key
  | named {d : TypeDecl} {t : TypeExpr} {key : String} (hd : d ∈ decls)
      (hbody : d.body = .aliasOf t) (h : Admits decls t key) : Admits decls (.ref d.name) key

/-- A well-formed access, in a place where some type parameters are in scope: every interface
the base ranges over has the member of a literal index, or all members the bound of an index
that is a type parameter admits. -/
inductive IndexWellFormed (decls : List TypeDecl) (scope : List (TypeParam TypeExpr)) :
    TypeExpr → TypeExpr → Prop
  | key {base : TypeExpr} {names : List String} {key : String} (hbase : RangesOver base names)
      (h : ∀ n ∈ names, HasMember decls n key) : IndexWellFormed decls scope base (.text key)
  | choice {base bound : TypeExpr} {names : List String} {p : TypeParam TypeExpr}
      (hbase : RangesOver base names) (hp : p ∈ scope) (hbound : p.bound = some bound)
      (h : ∀ key, Admits decls bound key → ∀ n ∈ names, HasMember decls n key) :
      IndexWellFormed decls scope base (.ref p.name)

/-- Every indexed access in a type is well formed. -/
def TypeScript.TypeExpr.IndexesWithin (decls : List TypeDecl) (scope : List (TypeParam TypeExpr))
    (t : TypeExpr) : Prop :=
  ∀ base index, .indexed base index ∈ t.parts → IndexWellFormed decls scope base index

/-- No indexed access is in a type. -/
def TypeScript.TypeExpr.IndexFree (t : TypeExpr) : Prop :=
  ∀ u ∈ t.parts, ∀ base index, u ≠ .indexed base index

section Accesses

variable {decls : List TypeDecl} {scope : List (TypeParam TypeExpr)} {name key choice : String}
  {names contentTypes : List String} {base index t : TypeExpr} {types args : List TypeExpr}

theorem TypeScript.TypeExpr.IndexFree.indexesWithin (h : t.IndexFree) :
    t.IndexesWithin decls scope :=
  fun base index hm => absurd rfl (h _ hm base index)

theorem indexFree_of_isPlain (h : ∀ u ∈ t.parts, u.isPlain) : t.IndexFree := by
  rintro _ hu base index rfl
  exact nomatch h _ hu

theorem indexFree_named (h : ∀ a ∈ args, a.IndexFree) : (TypeExpr.named name args).IndexFree :=
  TypeExpr.forall_parts_named.mpr ⟨nofun, h⟩

theorem indexFree_ref (name : String) : (TypeExpr.ref name).IndexFree :=
  indexFree_named nofun

theorem indexFree_keyof (name : String) : (TypeExpr.keyof (.ref name)).IndexFree :=
  TypeExpr.forall_parts_keyof.mpr ⟨nofun, indexFree_ref name⟩

theorem indexFree_union (h : ∀ t ∈ types, t.IndexFree) : (TypeExpr.union types).IndexFree :=
  TypeExpr.forall_parts_union.mpr ⟨nofun, h⟩

theorem indexFree_object {ps : List (Property TypeExpr)} (h : ∀ p ∈ ps, p.type.IndexFree) :
    (TypeExpr.object ps).IndexFree :=
  TypeExpr.forall_parts_object.mpr ⟨nofun, h⟩

theorem indexFree_refUnion (names : List String) : (refUnion names).IndexFree := by
  unfold refUnion
  split
  · exact indexFree_ref _
  · refine indexFree_union fun t ht => ?_
    obtain ⟨n, _, rfl⟩ := List.mem_map.mp ht
    exact indexFree_ref n

theorem indexesWithin_promise :
    (TypeExpr.promise t).IndexesWithin decls scope ↔ t.IndexesWithin decls scope := by
  simp [TypeExpr.IndexesWithin, TypeExpr.promise]

theorem indexesWithin_indexed (hb : base.IndexFree) (hi : index.IndexFree) :
    (TypeExpr.indexed base index).IndexesWithin decls scope ↔
      IndexWellFormed decls scope base index := by
  constructor
  · intro h
    exact h base index (by simp)
  · intro h b i hm
    rw [TypeExpr.parts_indexed] at hm
    rcases List.mem_cons.mp hm with he | hm
    · obtain ⟨rfl, rfl⟩ := TypeExpr.indexed.inj he
      exact h
    · rcases List.mem_append.mp hm with hm | hm
      · exact absurd rfl (hb _ hm b i)
      · exact absurd rfl (hi _ hm b i)

/-! ## A part by content type -/

theorem rangesOver_refUnion {names' : List String} :
    RangesOver (refUnion names) names' ↔ names' = names := by
  have href : Function.Injective TypeExpr.ref := fun _ _ h => (TypeExpr.named.inj h).1
  constructor
  · intro h
    -- a single name stands for itself, and any other list for the union of its names
    generalize hbase : refUnion names = base at h
    cases h with
    | ref n =>
      unfold refUnion at hbase
      split at hbase
      · rw [href hbase]
      · cases hbase
    | union ns =>
      unfold refUnion at hbase
      split at hbase
      · cases hbase
      · exact ((List.map_injective_iff.mpr href) (TypeExpr.union.inj hbase)).symm
  · rintro rfl
    unfold refUnion
    split
    · exact .ref _
    · exact .union _

/-- A type parameter that is in scope and admits just some given keys. -/
structure IsChoice (decls : List TypeDecl) (scope : List (TypeParam TypeExpr)) (choice : String)
    (keys : List String) : Prop where
  inScope : ∃ p ∈ scope, p.name = choice
  admits : ∀ p ∈ scope, p.name = choice →
    ∃ bound, p.bound = some bound ∧ ∀ key, Admits decls bound key ↔ key ∈ keys

theorem indexWellFormed_text :
    IndexWellFormed decls scope (refUnion names) (.text key) ↔
      ∀ n ∈ names, HasMember decls n key := by
  constructor
  · intro h
    cases h with
    | key hbase h =>
      obtain rfl := rangesOver_refUnion.mp hbase
      exact h
  · exact .key (rangesOver_refUnion.mpr rfl)

theorem indexWellFormed_choice (hchoice : IsChoice decls scope choice contentTypes) :
    IndexWellFormed decls scope (refUnion names) (.ref choice) ↔
      ∀ n ∈ names, ∀ c ∈ contentTypes, HasMember decls n c := by
  constructor
  · intro h
    cases h with
    | choice hbase hp hbound h =>
      obtain rfl := rangesOver_refUnion.mp hbase
      obtain ⟨bound, hbound', hkeys⟩ := hchoice.admits _ hp rfl
      obtain rfl := Option.some.inj (hbound.symm.trans hbound')
      intro n hn c hc
      exact h c ((hkeys c).mpr hc) n hn
  · intro h
    obtain ⟨p, hp, rfl⟩ := hchoice.inScope
    obtain ⟨bound, hbound, hkeys⟩ := hchoice.admits p hp rfl
    exact .choice (rangesOver_refUnion.mpr rfl) hp hbound
      fun key hkey n hn => h n hn key ((hkeys key).mp hkey)

/-- **A part of a type by content type is well formed** just when each interface has a member
for each of the content types. -/
theorem selectContent_indexesWithin_iff
    (hchoice : 2 ≤ contentTypes.length → IsChoice decls scope choice contentTypes) :
    (selectContent (refUnion names) contentTypes choice).IndexesWithin decls scope ↔
      ∀ n ∈ names, ∀ c ∈ contentTypes, HasMember decls n c := by
  match contentTypes with
  | [] => simpa [selectContent] using (indexFree_refUnion names).indexesWithin
  | [only] =>
    have htext : (TypeExpr.text only).IndexFree :=
      indexFree_of_isPlain (by simp [TypeExpr.text, TypeExpr.isPlain])
    rw [selectContent, indexesWithin_indexed (indexFree_refUnion names) htext,
      indexWellFormed_text]
    simp
  | c :: d :: cs =>
    have hc := hchoice (by simp)
    show (TypeExpr.indexed (refUnion names) (.ref choice)).IndexesWithin decls scope ↔ _
    rw [indexesWithin_indexed (indexFree_refUnion names) (indexFree_ref choice),
      indexWellFormed_choice hc]

end Accesses

/-! ## The interfaces of an operation -/

theorem mem_firstOccurrences {texts : List String} {t : String} :
    t ∈ firstOccurrences texts ↔ t ∈ texts := by
  have hfold : ∀ ts seen : List String,
      t ∈ ts.foldl (fun seen t => if t ∈ seen then seen else seen ++ [t]) seen ↔
        t ∈ seen ∨ t ∈ ts := by
    intro ts
    induction ts with
    | nil => simp
    | cons u ts ih =>
      intro seen
      rw [List.foldl_cons, ih]
      split
      · next hu =>
        rw [List.mem_cons]
        constructor
        · rintro (h | h)
          · exact .inl h
          · exact .inr (.inr h)
        · rintro (h | rfl | h)
          · exact .inl h
          · exact .inl hu
          · exact .inr h
      · rw [List.mem_append, List.mem_singleton, List.mem_cons, or_assoc]
  rw [firstOccurrences, hfold]
  simp

theorem mem_responseContentTypes {op : Operation} {c : String} :
    c ∈ op.responseContentTypes ↔ ∃ r ∈ op.responses, c ∈ r.content.keys := by
  rw [Operation.responseContentTypes, mem_firstOccurrences, List.mem_flatMap]

section Operation

variable {op : Operation} {decls : List TypeDecl} {scope : List (TypeParam TypeExpr)} {c : String}

/-- The members of an interface for schemas are named by their keys. -/
theorem hasMember_of_contentProperties {content : Content}
    {ps : List (Property TypeExpr)} {name : String}
    (hps : contentProperties content.entries = .ok ps)
    (hd : .exportedInterface name ps ∈ decls) (hc : c ∈ content.keys) :
    HasMember decls name c := by
  rw [OrderedMap.keys, ← map_name_of_contentProperties hps] at hc
  obtain ⟨p, hp, rfl⟩ := List.mem_map.mp hc
  exact ⟨p.type, _, hd, rfl, ps, rfl, p, hp, rfl, rfl⟩

/-- The members of the request body's interface are its content types. -/
theorem hasMember_requestBodyName (hds : op.declarations = .ok decls) :
    HasMember decls op.requestBodyName c ↔ c ∈ op.requestContentTypes := by
  constructor
  · -- the name of the interface says that it was made from the request body
    rintro ⟨type, d, hd, hname, ps, hbody, p, hp, rfl, -⟩
    obtain ⟨body, hb, qs, hqs, rfl⟩ :=
      ((mem_declarations hds).mp hd).isDeclOf (hname.trans op.requestBodyName_eq)
    obtain rfl := TypeBody.interfaceOf.inj hbody
    rw [Operation.requestContentTypes, hb]
    simp only [OrderedMap.keys, ← map_name_of_contentProperties hqs]
    exact List.mem_map_of_mem hp
  · intro hc
    rw [Operation.requestContentTypes] at hc
    split at hc
    · cases hc
    · next body hb =>
      have hasBody : op.shape.hasBody := hasBody_iff.mpr (by rw [hb]; rfl)
      obtain ⟨ps, hd⟩ := exists_declared_requestBody hds hasBody
      obtain ⟨body', hb', qs, hqs, he⟩ := hd.isDeclOf op.requestBodyName_eq
      obtain rfl := Option.some.inj (hb.symm.trans hb')
      rw [he] at hd
      exact hasMember_of_contentProperties hqs ((mem_declarations hds).mpr hd) hc

/-- The members of a response's interface are the content types of all responses of its
status: they share the interface's name. -/
theorem hasMember_responseName {r : Response} (hds : op.declarations = .ok decls) :
    HasMember decls (op.responseName r) c ↔
      ∃ s ∈ op.responses, s.status = r.status ∧ c ∈ s.content.keys := by
  constructor
  · -- the name says that the interface was made from a response of this status
    rintro ⟨type, d, hd, hname, ps, hbody, p, hp, rfl, -⟩
    obtain ⟨s, hs, qs, hqs, rfl⟩ :=
      ((mem_declarations hds).mp hd).isDeclOf (hname.trans (op.responseName_eq r))
    obtain rfl := TypeBody.interfaceOf.inj hbody
    refine ⟨s, hs, Operation.responseName_inj.mp hname, ?_⟩
    rw [OrderedMap.keys, ← map_name_of_contentProperties hqs]
    exact List.mem_map_of_mem hp
  · rintro ⟨s, hs, hstatus, hc⟩
    obtain ⟨ps, hps, hd⟩ := exists_declared_response hds hs
    rw [← Operation.responseName_inj.mpr hstatus]
    exact hasMember_of_contentProperties hps ((mem_declarations hds).mpr hd) hc

/-! ## The choices of content types -/

/-- A declared alias admits what stands behind it. -/
theorem admits_alias {f : Family} {x name : String} {t : TypeExpr}
    (hds : op.declarations = .ok decls) (hd : Declared op (.exportedAlias name t))
    (hname : name = f.tag ++ x) (hdecl : ∀ d, op.IsDeclOf d f → d = .exportedAlias name t) :
    Admits decls (.ref name) c ↔ Admits decls t c := by
  constructor
  · intro h
    cases h with
    | named hd' hbody h =>
      rw [hdecl _ (((mem_declarations hds).mp hd').isDeclOf hname)] at hbody
      obtain rfl := TypeBody.aliasOf.inj hbody
      exact h
  · exact fun h => .named ((mem_declarations hds).mpr hd) rfl h

theorem admits_keyof {name : String} :
    Admits decls (.keyof (.ref name)) c ↔ HasMember decls name c := by
  constructor
  · intro h
    cases h with
    | keyof h => exact h
  · exact .keyof

theorem admits_union {types : List TypeExpr} :
    Admits decls (.union types) c ↔ ∃ t ∈ types, Admits decls t c := by
  constructor
  · intro h
    cases h with
    | union ht h => exact ⟨_, ht, h⟩
  · rintro ⟨t, ht, h⟩
    exact .union ht h

theorem admits_responseChoiceType :
    Admits decls op.responseChoiceType c ↔ ∃ n ∈ op.responseNames, HasMember decls n c := by
  unfold Operation.responseChoiceType
  split
  · next only heq => simp [heq, admits_keyof]
  · simp only [admits_union, List.mem_map, exists_exists_and_eq_and, admits_keyof]

/-- The request's choice admits the content types of the request body. -/
theorem isChoice_request (hds : op.declarations = .ok decls) (h : op.shape.hasRequestChoice) :
    IsChoice decls op.typeParams requestChoice op.requestContentTypes where
  inScope := ⟨_, mem_choices.mpr (.inl ⟨h, rfl⟩), rfl⟩
  admits := by
    intro p hp hname
    have hne : responseChoice ≠ requestChoice := by decide
    rcases mem_choices.mp hp with ⟨_, rfl⟩ | ⟨_, rfl⟩
    · refine ⟨_, rfl, fun key => ?_⟩
      have hd : Declared op _ := .requestChoice (hasBody_of_hasRequestChoice h)
      rw [admits_alias hds hd op.requestContentTypeName_eq fun _ hd => hd, admits_keyof,
        hasMember_requestBodyName hds]
    · exact absurd hname hne

/-- The response's choice admits the content types of all responses. -/
theorem isChoice_response (hds : op.declarations = .ok decls) (h : op.shape.hasResponseChoice) :
    IsChoice decls op.typeParams responseChoice op.responseContentTypes where
  inScope := ⟨_, mem_choices.mpr (.inr ⟨h, rfl⟩), rfl⟩
  admits := by
    intro p hp hname
    have hne : requestChoice ≠ responseChoice := by decide
    rcases mem_choices.mp hp with ⟨_, rfl⟩ | ⟨_, rfl⟩
    · exact absurd hname hne
    · refine ⟨_, rfl, fun key => ?_⟩
      have hd : Declared op _ := .responseChoice (responses_ne_nil_of_hasResponseChoice h)
      -- the bound admits a content type as soon as one response has it
      rw [admits_alias hds hd op.responseContentTypeName_eq fun _ hd => hd,
        admits_responseChoiceType, mem_responseContentTypes]
      simp only [Operation.responseNames, List.mem_map, exists_exists_and_eq_and,
        hasMember_responseName hds]
      constructor
      · rintro ⟨r, _, s, hs, _, hkey⟩
        exact ⟨s, hs, hkey⟩
      · rintro ⟨r, hr, hkey⟩
        exact ⟨r, hr, r, hr, rfl, hkey⟩

/-! ## Methods and declarations -/

theorem typeParams_indexFree : ∀ t ∈ op.typeParams.filterMap (·.bound), t.IndexFree := by
  intro t ht
  obtain ⟨p, hp, hbound⟩ := List.mem_filterMap.mp ht
  rcases mem_choices.mp hp with ⟨_, rfl⟩ | ⟨_, rfl⟩
  · obtain rfl := Option.some.inj hbound
    exact indexFree_ref _
  · obtain rfl := Option.some.inj hbound
    exact indexFree_ref _

theorem methodParams_indexFree :
    ∀ t ∈ (methodParams op.paramsName op.shape).filterMap (·.type), t.IndexFree := by
  intro t ht
  obtain ⟨p, hp, htype⟩ := List.mem_filterMap.mp ht
  rcases List.mem_append.mp hp with hp | hp
  · obtain ⟨_, hp⟩ := List.mem_ite_nil_right.mp hp
    obtain rfl := List.mem_singleton.mp hp
    obtain rfl := Option.some.inj htype
    refine indexFree_named fun a ha => ?_
    rcases mem_choices.mp ha with ⟨_, rfl⟩ | ⟨_, rfl⟩ <;> exact indexFree_ref _
  · obtain rfl := List.mem_singleton.mp hp
    obtain rfl := Option.some.inj htype
    exact indexFree_ref _

theorem resultType_indexesWithin_iff (hds : op.declarations = .ok decls) :
    op.resultType.IndexesWithin decls op.typeParams ↔
      ∀ r ∈ op.responses, ∀ c ∈ op.responseContentTypes,
        ∃ s ∈ op.responses, s.status = r.status ∧ c ∈ s.content.keys := by
  rw [Operation.resultType]
  split
  · next hempty =>
    have hvoid : TypeExpr.void.IndexesWithin decls op.typeParams :=
      (indexFree_of_isPlain (by simp [TypeExpr.void, TypeExpr.isPlain])).indexesWithin
    simp [List.isEmpty_iff.mp hempty, hvoid]
  · rw [selectContent_indexesWithin_iff fun h =>
      isChoice_response hds (Operation.hasResponseChoice_iff.mpr h)]
    simp only [Operation.responseNames, List.forall_mem_map, hasMember_responseName hds]

/-- **A method is well formed** just when every response has all the content types of the
responses together. -/
theorem method_indexesWithin_iff {options : MethodOptions} {m : Method}
    (hm : op.toMethod options = .ok m) (hds : op.declarations = .ok decls) :
    (∀ t ∈ m.types, t.IndexesWithin decls m.typeParams) ↔
      ∀ r ∈ op.responses, ∀ c ∈ op.responseContentTypes,
        ∃ s ∈ op.responses, s.status = r.status ∧ c ∈ s.content.keys := by
  obtain ⟨stmts, hbody, rfl⟩ := toMethod_eq_ok.mp hm
  rw [← resultType_indexesWithin_iff hds]
  have hreturn : (op.returnType options.sync).IndexesWithin decls op.typeParams ↔
      op.resultType.IndexesWithin decls op.typeParams := by
    rw [Operation.returnType]
    split
    · rfl
    · exact indexesWithin_promise
  constructor
  · intro h
    refine hreturn.mp (h _ ?_)
    simp [Method.types]
  · intro h t ht
    -- only the return type looks into an interface
    rw [Method.types] at ht
    rcases List.mem_append.mp ht with ht | ht
    · rcases List.mem_append.mp ht with ht | ht
      · rcases List.mem_append.mp ht with ht | ht
        · exact (typeParams_indexFree t ht).indexesWithin
        · exact (methodParams_indexFree t ht).indexesWithin
      · rw [List.mem_singleton.mp ht]
        exact hreturn.mpr h
    · rw [eq_of_mem_body_types hbody t ht]
      exact (indexFree_ref _).indexesWithin

theorem paramsProperties_index_within (hds : op.declarations = .ok decls) :
    ∀ p ∈ op.paramsProperties, p.type.IndexesWithin decls op.typeParams := by
  intro p hp
  rcases mem_paramsProperties.mp hp with ⟨_, rfl⟩ | ⟨_, rfl⟩ | ⟨_, rfl⟩
  · exact (indexFree_ref _).indexesWithin
  · refine (indexFree_object fun q hq => ?_).indexesWithin
    rcases mem_choices.mp hq with ⟨_, rfl⟩ | ⟨_, rfl⟩ <;> exact indexFree_ref _
  · -- the request body has a single interface, with all its content types
    have hmembers : ∀ n ∈ [op.requestBodyName], ∀ c ∈ op.requestContentTypes,
        HasMember decls n c := by
      intro n hn c hc
      rw [List.mem_singleton.mp hn]
      exact (hasMember_requestBodyName hds).mpr hc
    exact (selectContent_indexesWithin_iff fun h =>
      isChoice_request hds (Operation.hasRequestChoice_iff.mpr h)).mpr hmembers

/-- **A declaration is well formed**, whatever the content types are. -/
theorem Declared.index_within {d : TypeDecl} (h : Declared op d)
    (hds : op.declarations = .ok decls) :
    ∀ t ∈ d.types, t.IndexesWithin decls d.typeParams := by
  -- nothing is looked into by an interface of schemas
  have hplain : ∀ ps : List (Property TypeExpr), (∀ p ∈ ps, ∀ u ∈ p.type.parts, u.isPlain) →
      ∀ name, ∀ t ∈ (TypeDecl.exportedInterface name ps).types, t.IndexesWithin decls [] := by
    intro ps hps name t ht
    obtain ⟨p, hp, rfl⟩ := List.mem_map.mp ht
    exact (indexFree_of_isPlain (hps p hp)).indexesWithin
  intro t ht
  cases h with
  | parameter _ hps => exact hplain _ (isPlain_of_parameterProperties hps) _ t ht
  | requestBody _ hps => exact hplain _ (isPlain_of_contentProperties hps) _ t ht
  | response _ hps => exact hplain _ (isPlain_of_contentProperties hps) _ t ht
  | requestChoice _ =>
    obtain rfl := List.mem_singleton.mp ht
    exact (indexFree_keyof _).indexesWithin
  | responseChoice _ =>
    obtain rfl := List.mem_singleton.mp ht
    unfold Operation.responseChoiceType
    split
    · exact (indexFree_keyof _).indexesWithin
    · refine (indexFree_union fun u hu => ?_).indexesWithin
      obtain ⟨n, _, rfl⟩ := List.mem_map.mp hu
      exact indexFree_keyof n
  | params _ =>
    rcases List.mem_append.mp ht with ht | ht
    · exact (typeParams_indexFree t ht).indexesWithin
    · obtain ⟨p, hp, rfl⟩ := List.mem_map.mp ht
      exact paramsProperties_index_within hds p hp

/-- **Every indexed access of an operation is well formed** in its declarations, and in its
method just when each response, or another one of its status, has every content type that some
response has. -/
theorem types_index_within_iff {options : MethodOptions} {m : Method}
    (hm : op.toMethod options = .ok m) (hds : op.declarations = .ok decls) :
    (∀ d ∈ decls, ∀ t ∈ d.types, t.IndexesWithin decls d.typeParams) ∧
      ((∀ t ∈ m.types, t.IndexesWithin decls m.typeParams) ↔
        ∀ r ∈ op.responses, ∀ c ∈ op.responseContentTypes,
          ∃ s ∈ op.responses, s.status = r.status ∧ c ∈ s.content.keys) :=
  ⟨fun _ hd => ((mem_declarations hds).mp hd).index_within hds, method_indexesWithin_iff hm hds⟩

theorem archiveFile_types_index_within_iff :
    ∃ m decls, Operation.archiveFile.toMethod {} = .ok m ∧
      Operation.archiveFile.declarations = .ok decls ∧
      (∀ d ∈ decls, ∀ t ∈ d.types, t.IndexesWithin decls d.typeParams) ∧
      ((∀ t ∈ m.types, t.IndexesWithin decls m.typeParams) ↔
        ∀ r ∈ Operation.archiveFile.responses, ∀ c ∈ Operation.archiveFile.responseContentTypes,
          ∃ s ∈ Operation.archiveFile.responses,
            s.status = r.status ∧ c ∈ s.content.keys) :=
  ⟨_, _, rfl, rfl, types_index_within_iff rfl rfl⟩

/-- An operation with a response of one content type and a response without content. -/
def Operation.findFile : Operation where
  id := "find-file"
  httpMethod := .get
  uri := "/files"
  responses := [⟨"200", .ofList [("application/json", .ofKind "object")]⟩, ⟨"204", .ofList []⟩]

/-- The content type of the one response is looked up in the other one, too. -/
theorem findFile_not_index_within :
    ∃ m decls, Operation.findFile.toMethod {} = .ok m ∧
      Operation.findFile.declarations = .ok decls ∧
      ¬ ((∀ t ∈ m.types, t.IndexesWithin decls m.typeParams) ∧
        ∀ d ∈ decls, ∀ t ∈ d.types, t.IndexesWithin decls d.typeParams) := by
  refine ⟨_, _, rfl, rfl, fun h => ?_⟩
  have hmissing : ¬ ∀ r ∈ Operation.findFile.responses,
      ∀ c ∈ Operation.findFile.responseContentTypes,
        ∃ s ∈ Operation.findFile.responses, s.status = r.status ∧ c ∈ s.content.keys := by decide
  exact hmissing ((method_indexesWithin_iff rfl rfl).mp h.1)

end Operation

end TypedClient
