import TypedClient.Proofs.DistinctNames
import TypedClient.Proofs.Identifier
import TypedClient.Proofs.TypeReferences

/-!
# Valid names

The name of a method is a name of the generated language for every id. The types that are declared
for an operation are named after the method, and only those of responses are made of something
else as well: the status of the response, which is put into the name as it is written. So the
statuses decide whether all names are valid.

## Main definitions

* `Operation.StatusesPlain`: all statuses consist of characters of names
* `Operation.signatureTypes`: the types in the signature of the method

## Main results

* `isValid_responseName_iff`: when the name of a response is valid
* `typeNames_valid_iff`: when the names of all declarations are valid
* `signature_valid_iff`: when the names in the signature are valid
* `names_valid_iff`: when every name that is written for an operation is valid
-/

namespace TypedClient

open Identifier TypeScript

/-- All statuses of the responses consist of characters of names. -/
def Operation.StatusesPlain (op : Operation) : Prop :=
  ∀ r ∈ op.responses, ∀ c ∈ r.status.toList, isPart c

/-- The types in the signature of the method: the bounds of its type parameters, the types of its
parameters, and its return type. -/
def Operation.signatureTypes (op : Operation) (sync : Bool) : List TypeExpr :=
  op.typeParams.filterMap (·.bound) ++ (methodParams op.paramsName op.shape).filterMap (·.type)
    ++ [op.returnType sync]

/-! ## Names of declarations -/

section Names

variable {op : Operation} {f : Family} {r : Response}

/-- More characters behind a valid name leave it valid just when they are characters of names. -/
theorem isValid_append_iff {name more : String} (h : isValid name) :
    isValid (name ++ more) ↔ ∀ c ∈ more.toList, isPart c := by
  rw [isValid, String.toList_append, isName_append h, List.all_eq_true]

theorem isValid_tag (f : Family) : isValid f.tag := by
  cases f <;> decide

/-- **The name of a method is valid.** -/
theorem isValid_functionName (op : Operation) : isValid op.functionName :=
  isValid_ofIdWith ..

theorem isValid_tag_append (f : Family) (op : Operation) : isValid (f.tag ++ op.functionName) :=
  (isValid_append_iff (isValid_tag f)).mpr (isPart_of_isName (isValid_functionName op))

/-- **The name of a response is valid** just when its status consists of characters of names. -/
theorem isValid_responseName_iff :
    isValid (op.responseName r) ↔ ∀ c ∈ r.status.toList, isPart c := by
  -- before the status the name is valid already, so only the characters of the status count
  have hmarked : isValid (Family.response.tag ++ op.functionName ++ "$Status$") :=
    (isValid_append_iff (isValid_tag_append .response op)).mpr
      (List.all_eq_true.mp (by decide))
  exact isValid_append_iff hmarked

/-- **The names of all declarations are valid** just when the statuses are plain. -/
theorem typeNames_valid_iff : (∀ n ∈ op.typeNames, isValid n) ↔ op.StatusesPlain := by
  constructor
  · intro h r hr
    exact isValid_responseName_iff.mp
      (h _ (mem_typeNames.mpr ⟨.response, List.mem_map_of_mem hr⟩))
  · intro h n hn
    obtain ⟨f, hf⟩ := mem_typeNames.mp hn
    by_cases hresponse : f = .response
    · subst hresponse
      obtain ⟨r, hr, rfl⟩ := List.mem_map.mp hf
      exact isValid_responseName_iff.mpr (h r hr)
    · -- the other families are named by the method alone
      rw [eq_of_mem_namesOf hresponse hf]
      exact isValid_tag_append f op

end Names

/-! ## Names in the signature -/

section Signature

variable {op : Operation} {base : TypeExpr} {contentTypes names : List String} {choice n : String}

/-- A type all names in which are valid. -/
def TypeScript.TypeExpr.NamesValid (t : TypeExpr) : Prop :=
  t.RefersWithin fun name _ => isValid name

theorem namesValid_ref (h : isValid n) : (TypeExpr.ref n).NamesValid :=
  refersWithin_ref.mpr h

theorem isValid_requestChoice : isValid requestChoice := by decide

theorem isValid_responseChoice : isValid responseChoice := by decide

theorem typeParams_namesValid : ∀ t ∈ op.typeParams.filterMap (·.bound), t.NamesValid := by
  intro t ht
  obtain ⟨p, hp, hbound⟩ := List.mem_filterMap.mp ht
  rcases mem_choices.mp hp with ⟨_, rfl⟩ | ⟨_, rfl⟩
  · obtain rfl := Option.some.inj hbound
    exact namesValid_ref (isValid_tag_append .requestChoice op)
  · obtain rfl := Option.some.inj hbound
    exact namesValid_ref (isValid_tag_append .responseChoice op)

theorem methodParams_namesValid :
    ∀ t ∈ (methodParams op.paramsName op.shape).filterMap (·.type), t.NamesValid := by
  intro t ht
  obtain ⟨p, hp, htype⟩ := List.mem_filterMap.mp ht
  rcases List.mem_append.mp hp with hp | hp
  · obtain rfl := List.mem_singleton.mp (List.mem_ite_nil_right.mp hp).2
    obtain rfl := Option.some.inj htype
    refine refersWithin_named.mpr ⟨isValid_tag_append .params op, fun a ha => ?_⟩
    rcases mem_choices.mp ha with ⟨_, rfl⟩ | ⟨_, rfl⟩
    · exact namesValid_ref isValid_requestChoice
    · exact namesValid_ref isValid_responseChoice
  · obtain rfl := List.mem_singleton.mp hp
    obtain rfl := Option.some.inj htype
    exact namesValid_ref (by decide)

theorem parts_subset_selectContent :
    base.parts ⊆ (selectContent base contentTypes choice).parts := by
  unfold selectContent
  split
  · exact List.Subset.refl _
  · exact fun u hu => List.mem_cons_of_mem _ (List.mem_append_left _ hu)
  · exact fun u hu => List.mem_cons_of_mem _ (List.mem_append_left _ hu)

theorem ref_mem_parts_refUnion (h : n ∈ names) : .ref n ∈ (refUnion names).parts := by
  unfold refUnion
  split
  · rw [List.mem_singleton.mp h]
    exact List.mem_cons_self ..
  · rw [TypeExpr.parts_union]
    refine List.mem_cons_of_mem _ (List.mem_flatMap.mpr ⟨.ref n, List.mem_map_of_mem h, ?_⟩)
    exact List.mem_cons_self ..

/-- Every response is referred to in the return type. -/
theorem responseName_mem_returnType {r : Response} (hr : r ∈ op.responses) (sync : Bool) :
    .ref (op.responseName r) ∈ (op.returnType sync).parts := by
  have hne : op.responses.isEmpty = false := by
    rw [List.isEmpty_eq_false_iff]
    exact List.ne_nil_of_mem hr
  have hresult : .ref (op.responseName r) ∈ op.resultType.parts := by
    -- the union of all responses is kept when a content is selected from it
    rw [Operation.resultType, hne]
    exact parts_subset_selectContent (ref_mem_parts_refUnion (List.mem_map_of_mem hr))
  rw [Operation.returnType]
  split
  · exact hresult
  · rw [TypeExpr.promise, TypeExpr.parts_named]
    exact List.mem_cons_of_mem _ (List.mem_flatMap.mpr ⟨_, List.mem_singleton_self _, hresult⟩)

theorem returnType_namesValid (h : op.StatusesPlain) (sync : Bool) :
    (op.returnType sync).NamesValid := by
  have hnames : ∀ n ∈ op.responseNames, isValid n := by
    intro n hn
    obtain ⟨r, hr, rfl⟩ := List.mem_map.mp hn
    exact isValid_responseName_iff.mpr (h r hr)
  have hresult : op.resultType.NamesValid := by
    rw [Operation.resultType]
    split
    · exact refersWithin_of_isPlain (by simp [TypeExpr.void, TypeExpr.isPlain])
    · exact refersWithin_selectContent (refersWithin_refUnion hnames)
        fun _ => isValid_responseChoice
  rw [Operation.returnType]
  split
  · exact hresult
  · exact refersWithin_promise (by decide) hresult

/-- **The names in the signature are valid** just when the statuses are plain. -/
theorem signature_valid_iff (sync : Bool) :
    (∀ t ∈ op.signatureTypes sync, t.NamesValid) ↔ op.StatusesPlain := by
  constructor
  · -- the name of every response is in the return type
    intro h r hr
    have hreturn := h (op.returnType sync) (List.mem_append_right _ (List.mem_singleton_self _))
    exact isValid_responseName_iff.mp (hreturn _ _ (responseName_mem_returnType hr sync))
  · intro h t ht
    rcases List.mem_append.mp ht with ht | ht
    · rcases List.mem_append.mp ht with ht | ht
      · exact typeParams_namesValid t ht
      · exact methodParams_namesValid t ht
    · rw [List.mem_singleton.mp ht]
      exact returnType_namesValid h sync

end Signature

/-! ## All names -/

/-- **Every name that is written for an operation is valid** just when its statuses consist of
characters of names: the names of its declarations, and those in the signature of its method. The
name of the method is always valid. -/
theorem names_valid_iff (op : Operation) :
    (∀ options m, op.toMethod options = .ok m → isValid m.name ∧
      m.types = op.signatureTypes options.sync ++ m.body.filterMap Stmt.type?) ∧
    (∀ decls, op.declarations = .ok decls →
      ((∀ d ∈ decls, isValid d.name) ↔ op.StatusesPlain)) ∧
    ∀ sync, (∀ t ∈ op.signatureTypes sync, t.RefersWithin fun name _ => isValid name) ↔
      op.StatusesPlain := by
  refine ⟨fun options m hm => ?_, fun decls hdecls => ?_, fun sync => signature_valid_iff sync⟩
  · obtain ⟨stmts, _, rfl⟩ := toMethod_eq_ok.mp hm
    exact ⟨isValid_functionName op, rfl⟩
  · rw [← typeNames_valid_iff, ← map_name_of_declarations hdecls, List.forall_mem_map]

/-- An operation with a response of a given status. -/
def Operation.withStatus (status : String) : Operation where
  id := "list-books"
  httpMethod := .get
  uri := "/books"
  responses := [⟨status, .ofList [("application/json", .ofKind "array")]⟩]

theorem withStatus_names_valid :
    ∃ decls, (Operation.withStatus "2XX").declarations = .ok decls ∧
      ∀ d ∈ decls, isValid d.name := by
  obtain ⟨decls, hdecls⟩ : ∃ decls, (Operation.withStatus "2XX").declarations = .ok decls :=
    ⟨_, rfl⟩
  have hplain : (Operation.withStatus "2XX").StatusesPlain := by
    intro r hr
    obtain rfl := List.mem_singleton.mp hr
    exact List.all_eq_true.mp (by decide)
  exact ⟨decls, hdecls, ((names_valid_iff _).2.1 decls hdecls).mpr hplain⟩

/-- **Names need not be valid**: a blank in a status gets into the names of a declaration and of
the method's return type. -/
theorem withStatus_names_not_valid :
    (∃ decls, (Operation.withStatus "200 OK").declarations = .ok decls ∧
      ∃ d ∈ decls, isValid d.name = false) ∧
    ∃ m, (Operation.withStatus "200 OK").toMethod {} = .ok m ∧
      ¬ m.returnType.RefersWithin fun name _ => isValid name := by
  refine ⟨⟨_, rfl, _, List.mem_cons_self .., by decide⟩, _, rfl, fun h => ?_⟩
  have hname := h _ _ (responseName_mem_returnType (List.mem_singleton_self _) false)
  exact absurd hname (by decide)

end TypedClient
