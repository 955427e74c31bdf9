import Mathlib.Data.List.Dedup
import Mathlib.Data.List.Induction
import TypedClient.Proofs.IndexedTypes
import TypedClient.Proofs.Insertions

/-!
# One choice of a content type

A request body and a response may have no content type, a single one, or several among which the
caller chooses. Which of the three it is shows in many places: in a header, in a type parameter
of the method and of the structured argument, in a member of that argument, and in the part of a
type that is referred to. Each place decides by itself, from a list or from the shape of the
operation, and all of them decide alike.

## Main definitions

* `Selection`: the three possibilities, by the number of different content types
* `Direction`: the request and the response, with what belongs to each
* `Follows`: an operation shows a selection in all of these places

## Main results

* `firstSeen_firstOccurrences`: texts without repetitions, each where it is first
* `follows_selection`: the number of different content types, repeated or not, is what all places
  show
* `contentTypes_decide_alike`: the same, of the list of content types, the method and the
  declarations
-/

namespace TypedClient

open TypeScript

/-! ## Texts without repetitions -/

theorem firstOccurrences_concat (texts : List String) (t : String) :
    firstOccurrences (texts ++ [t]) =
      if t ∈ firstOccurrences texts then firstOccurrences texts
      else firstOccurrences texts ++ [t] := by
  rw [firstOccurrences, List.foldl_append]
  rfl

/-- **Texts without repetitions, each where it is first**, are in the order in which they are
first seen. -/
theorem firstSeen_firstOccurrences (texts : List String) :
    FirstSeen texts (firstOccurrences texts) := by
  induction texts using List.reverseRecOn with
  | nil => exact .of_nodup List.nodup_nil
  | append_singleton texts t ih =>
    rw [firstOccurrences_concat]
    exact ih.concat t

/-! ## Selections -/

/-- What is left of a choice among content types. -/
inductive Selection
  /-- There is no content type. -/
  | absent
  /-- There is just one. -/
  | fixed (contentType : String)
  /-- There are two or more, and the caller chooses. -/
  | free
  deriving DecidableEq, Repr

namespace Selection

/-- The selection among different content types. -/
def ofDistinct : List String → Selection
  | [] => .absent
  | [only] => .fixed only
  | _ => .free

/-- The selection among content types, whether or not they are repeated. -/
def of (contentTypes : List String) : Selection :=
  ofDistinct contentTypes.dedup

/-- The entry of a header for the content type, where `path` leads to what the caller chose. -/
def entry (path : String) : Selection → Option EntryValue
  | absent => none
  | fixed contentType => some (.constant contentType)
  | free => some (.variable path)

/-- The part of a type by content type that belongs to the content type, where `choice` is the
type of what the caller chose. -/
def part (base : TypeExpr) (choice : String) : Selection → TypeExpr
  | absent => base
  | fixed contentType => .indexed base (.text contentType)
  | free => .indexed base (.ref choice)

variable {contentTypes distinct : List String}

theorem ofDistinct_eq_free : ofDistinct distinct = .free ↔ 2 ≤ distinct.length := by
  match distinct with
  | [] => simp [ofDistinct]
  | [_] => simp [ofDistinct]
  | _ :: _ :: _ => simp [ofDistinct]

/-- The order of the content types does not matter. -/
theorem ofDistinct_perm (h : distinct.Perm contentTypes) :
    ofDistinct distinct = ofDistinct contentTypes := by
  match distinct with
  | [] => rw [h.nil_eq]
  | [only] => rw [h.singleton_eq]
  | _ :: _ :: _ => exact (ofDistinct_eq_free.mpr (h.length_eq ▸ by simp)).symm

/-- A list of the different content types, however it came about, makes the selection. -/
theorem ofDistinct_eq_of (h : FirstSeen contentTypes distinct) :
    ofDistinct distinct = of contentTypes :=
  ofDistinct_perm h.perm_dedup

/-- A content type counts once, however many responses have it. -/
example : of ["text/plain", "text/html", "text/plain"] = .free ∧
    of ["text/plain", "text/plain"] = .fixed "text/plain" := by decide

theorem contentTypeEntry_eq (path : String) :
    contentTypeEntry distinct path = (ofDistinct distinct).entry path := by
  match distinct with
  | [] => rfl
  | [_] => rfl
  | _ :: _ :: _ => rfl

theorem selectContent_eq (base : TypeExpr) (choice : String) :
    selectContent base distinct choice = (ofDistinct distinct).part base choice := by
  match distinct with
  | [] => rfl
  | [_] => rfl
  | _ :: _ :: _ => rfl

end Selection

/-! ## Request and response -/

/-- The directions in which contents are sent. -/
inductive Direction
  | request
  | response
  deriving DecidableEq, Repr

namespace Direction

/-- The header that has the content type. -/
def header : Direction → String
  | request => "Content-Type"
  | response => "Accept"

/-- Where the content type that the caller chose is found. -/
def choicePath : Direction → String
  | request => "params.headers.Content-Type"
  | response => "params.headers.Accept"

/-- The type parameter for the content type that the caller chose. -/
def choice : Direction → String
  | request => requestChoice
  | response => responseChoice

/-- The name of the type of all content types. -/
def contentTypeName (op : Operation) : Direction → String
  | request => op.requestContentTypeName
  | response => op.responseContentTypeName

/-- The content types that are described, with all repetitions. -/
def described (op : Operation) : Direction → List String
  | request => op.requestBody.toList.flatMap (·.content.keys)
  | response => op.responses.flatMap (·.content.keys)

/-- The content types, each once. -/
def contentTypes (op : Operation) : Direction → List String
  | request => op.requestContentTypes
  | response => op.responseContentTypes

/-- The shape of an operation has the choice of a content type. -/
def hasChoice (shape : Shape) : Direction → Bool
  | request => shape.hasRequestChoice
  | response => shape.hasResponseChoice

/-- The part that belongs to a selection is what is referred to: of the request body, in the
structured argument, or of the responses' types, in the return type. -/
def RefersTo (op : Operation) (s : Selection) : Direction → Prop
  | request => ∀ t, Declares op.paramsDecls op.paramsName "requestBody" t ↔
      op.requestBody.isSome ∧ t = s.part (.ref op.requestBodyName) requestChoice
  | response =>
    let result := if op.responses = [] then .void
      else s.part (refUnion op.responseNames) responseChoice
    ∀ sync, op.returnType sync = if sync then result else .promise result

end Direction

/-- **An operation shows a selection** wherever the content type of a request or a response
matters. -/
structure Follows (op : Operation) (d : Direction) (s : Selection) : Prop where
  /-- A header parameter of its name replaces the header, and nothing else. -/
  header : op.headers.get? d.header =
    if d.header ∈ (op.parametersIn .header).map (·.name) then some (.parameter d.header)
    else s.entry d.choicePath
  /-- The method has a type parameter for the choice. -/
  method : ∀ bound, ⟨d.choice, bound⟩ ∈ op.typeParams ↔
    s = .free ∧ bound = some (.ref (d.contentTypeName op))
  /-- The type of the structured argument has one, too. -/
  declaration : ∀ bound, (∃ decl ∈ op.paramsDecls, ⟨d.choice, bound⟩ ∈ decl.typeParams) ↔
    s = .free ∧ bound = some (.ref (d.contentTypeName op))
  /-- The method refers to that type with it. -/
  reference : (∃ p ∈ methodParams op.paramsName op.shape, p.name = "params" ∧
    ∃ args, p.type = some (.named op.paramsName args) ∧ .ref d.choice ∈ args) ↔ s = .free
  /-- The caller gives it among the headers of the structured argument. -/
  member : ∀ p, (∃ ps, Declares op.paramsDecls op.paramsName "headers" (.object ps) ∧
      p ∈ ps ∧ p.name = d.header) ↔
    s = .free ∧ p = ⟨d.header, .ref d.choice, false⟩
  /-- The type of the content is the part that belongs to the selection. -/
  refersTo : d.RefersTo op s

section Places

variable {op : Operation}

theorem Direction.firstSeen_contentTypes (op : Operation) (d : Direction) :
    FirstSeen (d.described op) (d.contentTypes op) := by
  cases d with
  | request =>
    -- the keys of one map are not repeated
    rw [Direction.described, Direction.contentTypes, Operation.requestContentTypes]
    split
    · next h =>
      rw [h]
      exact .of_nodup List.nodup_nil
    · next body h =>
      rw [h, Option.toList_some, List.flatMap_singleton]
      exact .of_nodup body.content.nodup_keys
  | response => exact firstSeen_firstOccurrences _

/-- The selection of an operation, from its list of content types. -/
theorem Direction.ofDistinct_contentTypes (op : Operation) (d : Direction) :
    Selection.ofDistinct (d.contentTypes op) = .of (d.described op) :=
  Selection.ofDistinct_eq_of (d.firstSeen_contentTypes op)

theorem Direction.hasChoice_iff (d : Direction) :
    d.hasChoice op.shape = true ↔ Selection.of (d.described op) = .free := by
  rw [← d.ofDistinct_contentTypes, Selection.ofDistinct_eq_free]
  cases d with
  | request => exact Operation.hasRequestChoice_iff
  | response => exact Operation.hasResponseChoice_iff

/-! ## The places -/

theorem get?_headers (d : Direction) : op.headers.get? d.header =
    if d.header ∈ (op.parametersIn .header).map (·.name) then some (.parameter d.header)
    else contentTypeEntry (d.contentTypes op) d.choicePath := by
  have hne : "Content-Type" ≠ "Accept" := by decide
  rw [Operation.headers, get?_foldl_insert Parameter.name EntryValue.parameter]
  congr 1
  rw [get?_insertOptional, get?_insertOptional]
  cases d with
  | request =>
    rw [Direction.header, if_neg hne, if_pos rfl]
    exact Option.or_none
  | response =>
    rw [Direction.header, if_pos rfl, if_neg hne.symm]
    exact Option.or_none

theorem Direction.injective_of_ne {α : Type} {f : Direction → α} (h : f request ≠ f response) :
    Function.Injective f := by
  intro d e hde
  cases d <;> cases e
  case request.response => exact absurd hde h
  case response.request => exact absurd hde.symm h
  all_goals rfl

theorem Direction.choice_injective : Function.Injective choice :=
  injective_of_ne (by decide)

theorem Direction.header_injective : Function.Injective header :=
  injective_of_ne (by decide)

/-- The type parameter for the choice of a content type. -/
def Direction.typeParam (op : Operation) (d : Direction) : TypeParam TypeExpr :=
  ⟨d.choice, some (.ref (d.contentTypeName op))⟩

/-- The member for the choice of a content type. -/
def Direction.choiceMember (d : Direction) : Property TypeExpr :=
  ⟨d.header, .ref d.choice, false⟩

/-- Of what is there for each choice, what can only belong to one direction is there if that
direction has the choice. -/
theorem Direction.mem_choices {α : Type} {shape : Shape} {d : Direction} {x : α}
    (value : Direction → α) (hx : ∀ e, x = value e → e = d) :
    (x ∈ (if shape.hasRequestChoice then [value request] else []) ++
        if shape.hasResponseChoice then [value response] else []) ↔
      d.hasChoice shape = true ∧ x = value d := by
  rw [TypedClient.mem_choices]
  constructor
  · rintro (⟨h, rfl⟩ | ⟨h, rfl⟩)
    · rw [← hx _ rfl]
      exact ⟨h, rfl⟩
    · rw [← hx _ rfl]
      exact ⟨h, rfl⟩
  · rintro ⟨h, rfl⟩
    cases d with
    | request => exact .inl ⟨h, rfl⟩
    | response => exact .inr ⟨h, rfl⟩

theorem mem_typeParams {d : Direction} {bound : Option TypeExpr} :
    ⟨d.choice, bound⟩ ∈ op.typeParams ↔
      d.hasChoice op.shape = true ∧ bound = some (.ref (d.contentTypeName op)) := by
  have h : ⟨d.choice, bound⟩ ∈ op.typeParams ↔
      d.hasChoice op.shape = true ∧ ⟨d.choice, bound⟩ = d.typeParam op :=
    Direction.mem_choices (Direction.typeParam op) fun e he =>
      Direction.choice_injective (congrArg TypeParam.name he).symm
  simpa [Direction.typeParam] using h

theorem mem_typeArguments {d : Direction} {shape : Shape} :
    .ref d.choice ∈ typeArguments shape ↔ d.hasChoice shape = true := by
  have h : .ref d.choice ∈ typeArguments shape ↔
      d.hasChoice shape = true ∧ TypeExpr.ref d.choice = .ref d.choice :=
    Direction.mem_choices (fun e => TypeExpr.ref e.choice) fun e he =>
      Direction.choice_injective (TypeExpr.named.inj he).1.symm
  simpa using h

theorem mem_choiceProperties {d : Direction} {shape : Shape} {p : Property TypeExpr} :
    p ∈ Operation.choiceProperties shape ∧ p.name = d.header ↔
      d.hasChoice shape = true ∧ p = d.choiceMember := by
  have h (hname : p.name = d.header) : p ∈ Operation.choiceProperties shape ↔
      d.hasChoice shape = true ∧ p = d.choiceMember :=
    Direction.mem_choices Direction.choiceMember fun e he =>
      Direction.header_injective ((congrArg Property.name he).symm.trans hname)
  constructor
  · rintro ⟨hp, hname⟩
    exact (h hname).mp hp
  · rintro ⟨hd, rfl⟩
    exact ⟨(h rfl).mpr ⟨hd, rfl⟩, rfl⟩

theorem needsParams_of_hasChoice {d : Direction} (h : d.hasChoice op.shape = true) :
    op.shape.needsParams = true := by
  cases d with
  | request => exact needsParams_iff.mpr (.inr (.inr (.inl h)))
  | response => exact needsParams_iff.mpr (.inr (.inr (.inr h)))

/-- The structured argument is applied to the choices. -/
theorem exists_reference_iff {d : Direction} :
    (∃ p ∈ methodParams op.paramsName op.shape, p.name = "params" ∧
      ∃ args, p.type = some (.named op.paramsName args) ∧ .ref d.choice ∈ args) ↔
        d.hasChoice op.shape = true := by
  constructor
  · rintro ⟨p, hp, hname, args, htype, hargs⟩
    rcases List.mem_append.mp hp with hp | hp
    · obtain ⟨_, hp⟩ := List.mem_ite_nil_right.mp hp
      obtain rfl := List.mem_singleton.mp hp
      obtain ⟨_, rfl⟩ := TypeExpr.named.inj (Option.some.inj htype)
      exact mem_typeArguments.mp hargs
    · -- the options of the request are not the structured argument
      obtain rfl := List.mem_singleton.mp hp
      exact absurd hname (by decide)
  · intro h
    refine ⟨⟨"params", some (.named op.paramsName (typeArguments op.shape)), false⟩, ?_, rfl, _,
      rfl, mem_typeArguments.mpr h⟩
    rw [methodParams, if_pos (needsParams_of_hasChoice h)]
    exact List.mem_cons_self ..

/-- The members of the structured argument, if it is needed. -/
theorem declares_params_iff {member : String} {t : TypeExpr} :
    Declares op.paramsDecls op.paramsName member t ↔
      op.shape.needsParams = true ∧ ∃ p ∈ op.paramsProperties, p.name = member ∧ p.type = t := by
  constructor
  · rintro ⟨decl, hdecl, _, ps, hbody, hp⟩
    obtain ⟨h, rfl⟩ := mem_paramsDecls.mp hdecl
    obtain rfl := TypeBody.interfaceOf.inj hbody
    exact ⟨h, hp⟩
  · rintro ⟨h, hp⟩
    exact ⟨op.paramsDecl, mem_paramsDecls.mpr ⟨h, rfl⟩, rfl, _, rfl, hp⟩

theorem declares_header_iff {d : Direction} {p : Property TypeExpr} :
    (∃ ps, Declares op.paramsDecls op.paramsName "headers" (.object ps) ∧
      p ∈ ps ∧ p.name = d.header) ↔ d.hasChoice op.shape = true ∧ p = d.choiceMember := by
  rw [← mem_choiceProperties]
  constructor
  · rintro ⟨ps, hps, hp, hname⟩
    obtain ⟨_, q, hq, hq', htype⟩ := declares_params_iff.mp hps
    rcases mem_paramsProperties.mp hq with ⟨_, rfl⟩ | ⟨_, rfl⟩ | ⟨_, rfl⟩
    · exact absurd hq' (by simp)
    · obtain rfl := TypeExpr.object.inj htype
      exact ⟨hp, hname⟩
    · exact absurd hq' (by simp)
  · intro h
    have hneeds := needsParams_of_hasChoice (mem_choiceProperties.mp h).1
    have hne := List.ne_nil_of_mem h.1
    exact ⟨_, declares_params_iff.mpr ⟨hneeds, _,
      mem_paramsProperties.mpr (.inr (.inl ⟨hne, rfl⟩)), rfl, rfl⟩, h⟩

theorem declares_requestBody_iff {t : TypeExpr} :
    Declares op.paramsDecls op.paramsName "requestBody" t ↔ op.requestBody.isSome ∧
      t = selectContent (.ref op.requestBodyName) op.requestContentTypes requestChoice := by
  rw [declares_params_iff]
  constructor
  · rintro ⟨_, p, hp, hname, rfl⟩
    rcases mem_paramsProperties.mp hp with ⟨_, rfl⟩ | ⟨_, rfl⟩ | ⟨h, rfl⟩
    · exact absurd hname (by simp)
    · exact absurd hname (by simp)
    · exact ⟨hasBody_iff.mp h, rfl⟩
  · rintro ⟨h, rfl⟩
    have hbody := hasBody_iff.mpr h
    exact ⟨needsParams_iff.mpr (.inr (.inl hbody)), _,
      mem_paramsProperties.mpr (.inr (.inr ⟨hbody, rfl⟩)), rfl, rfl⟩

theorem returnType_eq (op : Operation) (sync : Bool) :
    op.returnType sync =
      let result := if op.responses = [] then .void
        else selectContent (refUnion op.responseNames) op.responseContentTypes responseChoice
      if sync then result else .promise result := by
  simp only [Operation.returnType, Operation.resultType, List.isEmpty_iff]

/-- **The number of different content types**, counted with all responses together and without
repetitions, is what all places show. -/
theorem follows_selection (op : Operation) (d : Direction) :
    Follows op d (.of (d.described op)) where
  header := by
    rw [get?_headers, Selection.contentTypeEntry_eq, d.ofDistinct_contentTypes]
  method := by
    intro bound
    rw [mem_typeParams, d.hasChoice_iff]
  declaration := by
    intro bound
    rw [← d.hasChoice_iff, ← mem_typeParams]
    constructor
    · rintro ⟨decl, hdecl, h⟩
      obtain ⟨_, rfl⟩ := mem_paramsDecls.mp hdecl
      exact h
    · intro h
      have hneeds := needsParams_of_hasChoice (mem_typeParams.mp h).1
      exact ⟨op.paramsDecl, mem_paramsDecls.mpr ⟨hneeds, rfl⟩, h⟩
  reference := by rw [exists_reference_iff, d.hasChoice_iff]
  member := by
    intro p
    rw [declares_header_iff, d.hasChoice_iff, Direction.choiceMember]
  refersTo := by
    have hselect := d.ofDistinct_contentTypes op
    cases d with
    | request =>
      intro t
      rw [declares_requestBody_iff, Selection.selectContent_eq]
      rw [← hselect]
      rfl
    | response =>
      intro sync
      rw [returnType_eq, Selection.selectContent_eq]
      rw [← hselect]
      rfl

/-! ## Methods and declarations -/

/-- The structured argument's type is declared only if it is needed. -/
theorem Declared.needsParams {decl : TypeDecl} (h : Declared op decl)
    (hname : decl.name = op.paramsName) : op.shape.needsParams := by
  -- no other family has a declaration of this name
  have hfamily : ∀ {f : Family} {x : String}, decl.name = f.tag ++ x → f = .params :=
    fun hf => (Family.tag_append_inj.mp (hf.symm.trans (hname.trans op.paramsName_eq))).1
  cases h with
  | parameter _ _ => exact nomatch hfamily op.parameterName_eq
  | requestBody _ _ => exact nomatch hfamily op.requestBodyName_eq
  | response _ _ => exact nomatch hfamily (op.responseName_eq _)
  | requestChoice _ => exact nomatch hfamily op.requestContentTypeName_eq
  | responseChoice _ => exact nomatch hfamily op.responseContentTypeName_eq
  | params h => exact h

/-- The structured argument's type is whatever is declared under its name. -/
theorem mem_paramsDecls_iff {decls : List TypeDecl} {decl : TypeDecl}
    (hds : op.declarations = .ok decls) :
    decl ∈ op.paramsDecls ↔ decl ∈ decls ∧ decl.name = op.paramsName := by
  rw [mem_declarations hds, mem_paramsDecls]
  constructor
  · rintro ⟨h, rfl⟩
    exact ⟨.params h, rfl⟩
  · rintro ⟨h, hname⟩
    exact ⟨h.needsParams hname, h.eq_paramsDecl hname⟩

/-- The fields of the headers' object are what is found under their names. -/
theorem exists_headersObject_iff (op : Operation) :
    ∃ fs, objectLiteral op.headers [] = .ok (.object fs true) ∧
      ∀ f, f ∈ fs ↔ ∃ value, op.headers.get? f.key = some value ∧ value.toExpr = .ok f.value := by
  obtain ⟨fs, hfs, _⟩ := exists_headersObject op
  refine ⟨fs, hfs, fun f => ?_⟩
  obtain ⟨gs, hgs, h⟩ := bind_eq_ok.mp hfs
  obtain ⟨rfl, _⟩ := Expr.object.inj (pure_eq_ok.mp h)
  rw [entryFields_eq_mapM] at hgs
  constructor
  · intro hf
    obtain ⟨⟨key, value⟩, he, hef⟩ := mem_of_mapM_eq_ok hgs f hf
    obtain ⟨rfl, hvalue⟩ := entryField_eq_ok.mp hef
    exact ⟨value, OrderedMap.get?_eq_some_iff.mpr he, hvalue⟩
  · rintro ⟨value, hget, hvalue⟩
    obtain ⟨g, hg, heg⟩ :=
      exists_mem_of_mapM_eq_ok hgs _ (OrderedMap.get?_eq_some_iff.mp hget)
    rw [entryField_eq_ok.mpr ⟨rfl, hvalue⟩] at heg
    exact Except.ok.inj heg ▸ hg

/-- A method has the type parameters, the parameters, the return type and the headers of its
operation. -/
structure HasSignature (op : Operation) (sync : Bool) (m : Method) : Prop where
  typeParams : m.typeParams = op.typeParams
  params : m.params = methodParams op.paramsName op.shape
  returnType : m.returnType = op.returnType sync
  headers : ∃ fs, .const "headers" none (.object fs true) ∈ m.body ∧
    ∀ f, f ∈ fs ↔ ∃ value, op.headers.get? f.key = some value ∧ value.toExpr = .ok f.value

theorem hasSignature_of_toMethod {options : MethodOptions} {m : Method}
    (hm : op.toMethod options = .ok m) : HasSignature op options.sync m := by
  obtain ⟨stmts, hbody, rfl⟩ := toMethod_eq_ok.mp hm
  obtain ⟨url, headers, _, hheaders, rfl⟩ := body_eq_ok.mp hbody
  obtain ⟨fs, hfs, hmem⟩ := exists_headersObject_iff op
  obtain rfl := Except.ok.inj (hfs.symm.trans hheaders)
  exact ⟨rfl, rfl, rfl, fs, by simp, hmem⟩

/-- **All places decide alike**, for the request and for the response: the content types are
listed as they are first seen, their number decides what every place shows, and the method and
the declarations that are made of the operation consist of these places. -/
theorem contentTypes_decide_alike (op : Operation) (d : Direction) :
    FirstSeen (d.described op) (d.contentTypes op) ∧
      Follows op d (.of (d.described op)) ∧
      (∀ options m, op.toMethod options = .ok m → HasSignature op options.sync m) ∧
      ∀ decls, op.declarations = .ok decls →
        ∀ decl, decl ∈ op.paramsDecls ↔ decl ∈ decls ∧ decl.name = op.paramsName :=
  ⟨d.firstSeen_contentTypes op, follows_selection op d, fun _ _ hm => hasSignature_of_toMethod hm,
    fun _ hds _ => mem_paramsDecls_iff hds⟩

end Places

end TypedClient
