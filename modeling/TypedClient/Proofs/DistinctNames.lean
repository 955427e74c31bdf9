import Mathlib.Data.List.Nodup
import TypedClient.Proofs.Assembly
import TypedClient.Proofs.Declarations
import TypedClient.Proofs.Text.Split

/-!
# Distinct names

A module declares the types of all operations beside each other, and its class has all their
methods. Two operations can be told apart if their methods are named differently, and so can
their types, except that a response is named by the method and the status together: one name may
be made of two methods with two statuses.

## Main definitions

* `Operation.namesOf`, `Operation.typeNames`: the names of an operation's declarations, by family

## Main results

* `map_name_of_declarations`: the declarations of an operation have those names
* `nodup_flatMap_typeNames_iff`: the types of all operations have distinct names just when their
  responses have
* `module_names_distinct_iff`: when no two methods and no two types of a module share a name
-/

namespace TypedClient

open TypeScript

/-! ## The names of an operation's declarations -/

/-- All families, in the order in which their types are declared. -/
def Family.all : List Family :=
  [.parameter, .requestBody, .response, .requestChoice, .responseChoice, .params]

theorem Family.mem_all (f : Family) : f ∈ Family.all := by
  cases f <;> decide

namespace Operation

/-- Whether there are declarations of a family. -/
def declaresFamily (op : Operation) : Family → Bool
  | .parameter => op.shape.hasParameters
  | .requestBody | .requestChoice => op.shape.hasBody
  | .response | .responseChoice => !op.responses.isEmpty
  | .params => op.shape.needsParams

/-- The names of the declarations of one family. Each response has one; the other families have
a single declaration, which is named by the method. -/
def namesOf (op : Operation) (f : Family) : List String :=
  if f = .response then op.responseNames
  else if op.declaresFamily f then [f.tag ++ op.functionName]
  else []

/-- The names of all declarations, in their order. -/
def typeNames (op : Operation) : List String :=
  Family.all.flatMap op.namesOf

end Operation

section Names

variable {op op' : Operation} {f g : Family} {n : String}

theorem mem_typeNames : n ∈ op.typeNames ↔ ∃ f, n ∈ op.namesOf f := by
  simp [Operation.typeNames, Family.mem_all]

theorem namesOf_response : op.namesOf .response = op.responseNames := rfl

theorem namesOf_of_ne (h : f ≠ .response) :
    op.namesOf f = if op.declaresFamily f then [f.tag ++ op.functionName] else [] :=
  if_neg h

theorem eq_of_mem_namesOf (h : f ≠ .response) (hn : n ∈ op.namesOf f) :
    n = f.tag ++ op.functionName := by
  rw [namesOf_of_ne h, List.mem_ite_nil_right] at hn
  exact List.mem_singleton.mp hn.2

/-- The names of a family begin with its tag. -/
theorem exists_tag_of_mem_namesOf (hn : n ∈ op.namesOf f) : ∃ x, n = f.tag ++ x := by
  by_cases h : f = .response
  · subst h
    obtain ⟨r, _, rfl⟩ := List.mem_map.mp hn
    exact ⟨_, op.responseName_eq r⟩
  · exact ⟨_, eq_of_mem_namesOf h hn⟩

theorem family_eq_of_mem_namesOf (hf : n ∈ op.namesOf f) (hg : n ∈ op'.namesOf g) : f = g := by
  obtain ⟨x, hx⟩ := exists_tag_of_mem_namesOf hf
  obtain ⟨y, hy⟩ := exists_tag_of_mem_namesOf hg
  exact (Family.tag_append_inj.mp (hx.symm.trans hy)).1

/-- The declarations of an operation have distinct names if its responses have. -/
theorem nodup_typeNames_iff : op.typeNames.Nodup ↔ op.responseNames.Nodup := by
  rw [Operation.typeNames, List.nodup_flatMap]
  constructor
  · exact fun h => h.1 .response (Family.mem_all .response)
  · intro h
    refine ⟨fun f _ => ?_, ?_⟩
    · by_cases hf : f = .response
      · subst hf
        exact h
      · rw [namesOf_of_ne hf]
        split
        · exact List.nodup_singleton _
        · exact List.nodup_nil
    · have hall : Family.all.Pairwise (· ≠ ·) := by decide
      refine hall.imp fun hne n hf hg => ?_
      exact hne (family_eq_of_mem_namesOf hf hg)

/-- Two operations with different methods share a name only among their responses. -/
theorem disjoint_typeNames (hname : op.functionName ≠ op'.functionName)
    (h : List.Disjoint op.responseNames op'.responseNames) :
    List.Disjoint op.typeNames op'.typeNames := by
  intro n hn hn'
  obtain ⟨f, hf⟩ := mem_typeNames.mp hn
  obtain ⟨g, hg⟩ := mem_typeNames.mp hn'
  obtain rfl := family_eq_of_mem_namesOf hf hg
  -- only the name of a response is not made of the method alone
  by_cases hr : f = .response
  · subst hr
    exact h hf hg
  · have he := (eq_of_mem_namesOf hr hf).symm.trans (eq_of_mem_namesOf hr hg)
    exact hname (Family.tag_append_inj.mp he).2

/-- What stands in a response's name before the last dollar sign, from the back. -/
theorem dropWhile_reverse_responseName (op : Operation) {r : Response}
    (h : '$' ∉ r.status.toList) :
    (op.responseName r).toList.reverse.dropWhile (· != '$') =
      '$' :: ("Response$" ++ op.functionName ++ "$Status").toList.reverse := by
  have hname : (op.responseName r).toList.reverse = r.status.toList.reverse ++
      '$' :: ("Response$" ++ op.functionName ++ "$Status").toList.reverse := by
    simp [Operation.responseName]
  rw [hname, Text.dropWhile_append _ (by simp)]
  intro c hc
  rw [bne_iff_ne]
  rintro rfl
  exact h (List.mem_reverse.mp hc)

/-- A response's name ends with its status, so the method can be told from the name if no
dollar sign is in the status. -/
theorem functionName_eq_of_responseName {r s : Response} (hr : '$' ∉ r.status.toList)
    (hs : '$' ∉ s.status.toList) (h : op.responseName r = op'.responseName s) :
    op.functionName = op'.functionName := by
  -- both names are cut at their last dollar sign, the one before the status
  have hrest := dropWhile_reverse_responseName op hr
  rw [h, dropWhile_reverse_responseName op' hs] at hrest
  have hmethod := List.reverse_injective (List.cons.inj hrest).2
  rw [String.toList_inj, String.append_left_inj, String.append_right_inj] at hmethod
  exact hmethod.symm

/-- The responses of an operation have distinct names if they have distinct statuses. -/
theorem nodup_responseNames_iff :
    op.responseNames.Nodup ↔ (op.responses.map Response.status).Nodup := by
  simp only [Operation.responseNames, List.Nodup, List.pairwise_map, ne_eq,
    Operation.responseName_inj]

/-- Responses have distinct names if the methods have, and if no status is there twice or has a
dollar sign. -/
theorem nodup_flatMap_responseNames {ops : List Operation}
    (h : (ops.map Operation.functionName).Nodup)
    (hstatus : ∀ op ∈ ops, (op.responses.map Response.status).Nodup)
    (hdollar : ∀ op ∈ ops, ∀ r ∈ op.responses, '$' ∉ r.status.toList) :
    (ops.flatMap Operation.responseNames).Nodup := by
  have hpair : ops.Pairwise fun op op' => op.functionName ≠ op'.functionName :=
    List.pairwise_map.mp h
  rw [List.nodup_flatMap]
  refine ⟨fun op hop => nodup_responseNames_iff.mpr (hstatus op hop), ?_⟩
  refine hpair.imp_of_mem fun hop hop' hne n hn hn' => ?_
  obtain ⟨r, hr, rfl⟩ := List.mem_map.mp hn
  obtain ⟨s, hs, he⟩ := List.mem_map.mp hn'
  exact hne (functionName_eq_of_responseName (hdollar _ hop r hr) (hdollar _ hop' s hs) he.symm)

/-- **Operations with different methods have types with distinct names** just when their
responses have. -/
theorem nodup_flatMap_typeNames_iff {ops : List Operation}
    (h : (ops.map Operation.functionName).Nodup) :
    (ops.flatMap Operation.typeNames).Nodup ↔ (ops.flatMap Operation.responseNames).Nodup := by
  have hpair : ops.Pairwise fun op op' => op.functionName ≠ op'.functionName :=
    List.pairwise_map.mp h
  rw [List.nodup_flatMap, List.nodup_flatMap]
  constructor
  · rintro ⟨hnodup, hdisjoint⟩
    refine ⟨fun op hop => nodup_typeNames_iff.mp (hnodup op hop), hdisjoint.imp ?_⟩
    intro op op' hd n hn hn'
    exact hd (mem_typeNames.mpr ⟨.response, hn⟩) (mem_typeNames.mpr ⟨.response, hn'⟩)
  · rintro ⟨hnodup, hdisjoint⟩
    refine ⟨fun op hop => nodup_typeNames_iff.mpr (hnodup op hop), ?_⟩
    exact (hpair.and hdisjoint).imp fun ⟨hname, hd⟩ => disjoint_typeNames hname hd

end Names

/-! ## The declarations have these names -/

section Declarations

variable {op : Operation} {ds : List TypeDecl}

theorem map_name_of_parameterDecls (h : op.parameterDecls = .ok ds) :
    ds.map TypeDecl.name = op.namesOf .parameter := by
  rw [namesOf_of_ne (by decide)]
  rw [Operation.parameterDecls] at h
  split at h
  · next hp =>
    obtain ⟨ps, _, h⟩ := bind_eq_ok.mp h
    obtain rfl := pure_eq_ok.mp h
    exact (if_pos hp).symm
  · next hp =>
    obtain rfl := pure_eq_ok.mp h
    exact (if_neg hp).symm

theorem map_name_of_requestBodyDecls (h : op.requestBodyDecls = .ok ds) :
    ds.map TypeDecl.name = op.namesOf .requestBody := by
  rw [namesOf_of_ne (by decide)]
  have hbody : op.declaresFamily .requestBody = op.requestBody.isSome := rfl
  rw [Operation.requestBodyDecls] at h
  split at h
  · next hnone =>
    obtain rfl := pure_eq_ok.mp h
    rw [hbody, hnone]
    rfl
  · next body hsome =>
    obtain ⟨ps, _, h⟩ := bind_eq_ok.mp h
    obtain rfl := pure_eq_ok.mp h
    rw [hbody, hsome]
    rfl

theorem map_name_of_responseDeclsOf {rs : List Response} (h : op.responseDeclsOf rs = .ok ds) :
    ds.map TypeDecl.name = rs.map op.responseName := by
  induction rs generalizing ds with
  | nil =>
    obtain rfl := Except.ok.inj h
    rfl
  | cons r rs ih =>
    obtain ⟨ps, _, h⟩ := bind_eq_ok.mp h
    obtain ⟨ds', hds', h⟩ := bind_eq_ok.mp h
    obtain rfl := pure_eq_ok.mp h
    rw [List.map_cons, List.map_cons, ih hds']
    rfl

theorem map_name_requestChoiceDecls :
    op.requestChoiceDecls.map TypeDecl.name = op.namesOf .requestChoice := by
  rw [namesOf_of_ne (by decide), Operation.requestChoiceDecls, apply_ite (List.map TypeDecl.name)]
  rfl

theorem map_name_responseChoiceDecls :
    op.responseChoiceDecls.map TypeDecl.name = op.namesOf .responseChoice := by
  rw [namesOf_of_ne (by decide)]
  have hresponses : op.declaresFamily .responseChoice = !op.responseNames.isEmpty := by
    rw [Operation.responseNames, List.isEmpty_map]
    rfl
  rw [hresponses]
  unfold Operation.responseChoiceDecls
  split
  · next hnames => simp [hnames]
  · next only hnames =>
    rw [hnames]
    rfl
  · next hne _ =>
    cases hnames : op.responseNames with
    | nil => exact absurd hnames hne
    | cons n ns => rfl

theorem map_name_paramsDecls : op.paramsDecls.map TypeDecl.name = op.namesOf .params := by
  rw [namesOf_of_ne (by decide), Operation.paramsDecls, apply_ite (List.map TypeDecl.name)]
  rfl

/-- **The names of the declarations** of an operation, in their order. -/
theorem map_name_of_declarations (h : op.declarations = .ok ds) :
    ds.map TypeDecl.name = op.typeNames := by
  obtain ⟨parameter, hparameter, h⟩ := bind_eq_ok.mp h
  obtain ⟨body, hbody, h⟩ := bind_eq_ok.mp h
  obtain ⟨responses, hresponses, h⟩ := bind_eq_ok.mp h
  obtain rfl := pure_eq_ok.mp h
  simp only [List.map_append, map_name_of_parameterDecls hparameter,
    map_name_of_requestBodyDecls hbody, map_name_of_responseDeclsOf hresponses,
    map_name_requestChoiceDecls, map_name_responseChoiceDecls, map_name_paramsDecls]
  simp [Operation.typeNames, Family.all, namesOf_response, Operation.responseNames]

end Declarations

/-! ## The names of a module -/

/-- The names of the methods of a module's classes. -/
def TypeScript.SourceModule.methodNames (m : SourceModule) : List String :=
  m.classes.flatMap fun c => c.methods.map Method.name

/-- The names of the types a module declares. -/
def TypeScript.SourceModule.typeNames (m : SourceModule) : List String :=
  m.types.map TypeDecl.name

section Module

variable {ops : List Operation} {config : Config} {options : MethodOptions}

/-- What an operation adds has its names. -/
theorem names_of_generate {op : Operation} {part : Contribution}
    (h : op.generate options = .ok part) :
    part.method.name = op.functionName ∧ part.declarations.map TypeDecl.name = op.typeNames := by
  obtain ⟨hds, hm⟩ := generate_eq_ok.mp h
  obtain ⟨stmts, _, hmethod⟩ := toMethod_eq_ok.mp hm
  exact ⟨congrArg Method.name hmethod, map_name_of_declarations hds⟩

theorem names_of_contributions (options : MethodOptions) (ops : List Operation) :
    ((Client.contributions options ops).map fun part => part.method.name) =
        (Client.generated options ops).map Operation.functionName ∧
      ((Client.contributions options ops).flatMap fun part =>
          part.declarations.map TypeDecl.name) =
        (Client.generated options ops).flatMap Operation.typeNames := by
  induction ops with
  | nil => exact ⟨rfl, rfl⟩
  | cons op ops ih =>
    cases h : op.generate options with
    | error fault => rwa [contributions_cons_error h, generated_cons_error h]
    | ok part =>
      obtain ⟨hmethod, htypes⟩ := names_of_generate h
      rw [contributions_cons_ok h, generated_cons_ok h]
      simp only [List.map_cons, List.flatMap_cons, hmethod, htypes, ih.1, ih.2, and_self]

/-- **The methods of a module** are named by the operations that are in it. -/
theorem methodNames_generate :
    (Client.generate ops config).module.methodNames =
      (Client.generated config.methodOptions ops).map Operation.functionName := by
  rw [← (names_of_contributions config.methodOptions ops).1]
  simp [SourceModule.methodNames, Client.generate, Client.classOf]

/-- **The types of a module** are those of the runtime and those of the operations that are in
it. -/
theorem typeNames_generate :
    (Client.generate ops config).module.typeNames =
      (Client.runtimeTypes config).map TypeDecl.name ++
        (Client.generated config.methodOptions ops).flatMap Operation.typeNames := by
  rw [← (names_of_contributions config.methodOptions ops).2]
  simp [SourceModule.typeNames, Client.generate, List.map_flatMap]

theorem nodup_runtimeContract (sync : Bool) :
    ((runtimeContract sync).map TypeDecl.name).Nodup := by
  have hnodup : ["HttpMethod", "QueryParameter", "QueryParameters", "RequestArgs",
      "ApiClient"].Nodup := by decide
  exact hnodup

theorem nodup_runtimeTypes : ((Client.runtimeTypes config).map TypeDecl.name).Nodup := by
  rw [Client.runtimeTypes]
  split
  · exact List.nodup_nil
  · exact nodup_runtimeContract config.sync

/-- No type of the runtime is named like a type of an operation. -/
theorem disjoint_runtimeTypes (ops : List Operation) :
    List.Disjoint ((Client.runtimeTypes config).map TypeDecl.name)
      (ops.flatMap Operation.typeNames) := by
  intro n hn hop
  obtain ⟨op, _, hop⟩ := List.mem_flatMap.mp hop
  obtain ⟨f, hf⟩ := mem_typeNames.mp hop
  obtain ⟨x, rfl⟩ := exists_tag_of_mem_namesOf hf
  have hprefix : f.tag.toList <+: (f.tag ++ x).toList := by
    rw [String.toList_append]
    exact List.prefix_append ..
  have hnone : ∀ n ∈ ["HttpMethod", "QueryParameter", "QueryParameters", "RequestArgs",
      "ApiClient"], ∀ f ∈ Family.all, ¬ f.tag.toList <+: n.toList := by decide
  rw [Client.runtimeTypes] at hn
  split at hn
  · cases hn
  · exact hnone _ hn f (Family.mem_all f) hprefix

theorem nodup_names_iff (ops : List Operation) (config : Config) :
    (Client.generate ops config).module.methodNames.Nodup ∧
        (Client.generate ops config).module.typeNames.Nodup ↔
      ((Client.generated config.methodOptions ops).map Operation.functionName).Nodup ∧
        ((Client.generated config.methodOptions ops).flatMap Operation.responseNames).Nodup := by
  rw [methodNames_generate, typeNames_generate]
  refine and_congr_right fun hmethods => ?_
  rw [← nodup_flatMap_typeNames_iff hmethods, List.nodup_append']
  constructor
  · exact fun h => h.2.1
  · exact fun h => ⟨nodup_runtimeTypes, h, disjoint_runtimeTypes _⟩

/-- **No two methods and no two types of a module share a name** just when the operations in it
have distinct methods and the responses of all of them distinct names. Distinct methods are
enough if no operation has a status twice and no status has a dollar sign in it. -/
theorem module_names_distinct_iff (ops : List Operation) (config : Config) :
    ((Client.generate ops config).module.methodNames.Nodup ∧
        (Client.generate ops config).module.typeNames.Nodup ↔
      ((Client.generated config.methodOptions ops).map Operation.functionName).Nodup ∧
        ((Client.generated config.methodOptions ops).flatMap Operation.responseNames).Nodup) ∧
    (((Client.generated config.methodOptions ops).map Operation.functionName).Nodup →
      (∀ op ∈ Client.generated config.methodOptions ops,
        (op.responses.map Response.status).Nodup ∧
          ∀ r ∈ op.responses, '$' ∉ r.status.toList) →
      (Client.generate ops config).module.methodNames.Nodup ∧
        (Client.generate ops config).module.typeNames.Nodup) := by
  refine ⟨nodup_names_iff ops config, fun hmethods hstatus => ?_⟩
  refine (nodup_names_iff ops config).mpr ⟨hmethods, ?_⟩
  exact nodup_flatMap_responseNames hmethods (fun op hop => (hstatus op hop).1)
    fun op hop => (hstatus op hop).2

/-- Two operations with a response each, of the same status. -/
def shelfOperations : List Operation :=
  [{ id := "get-book", httpMethod := .get, uri := "/book", responses := [⟨"200", .ofList []⟩] },
    { id := "list-books", httpMethod := .get, uri := "/books",
      responses := [⟨"200", .ofList []⟩] }]

theorem shelfOperations_names_distinct :
    (Client.generate shelfOperations {}).module.methodNames.Nodup ∧
      (Client.generate shelfOperations {}).module.typeNames.Nodup :=
  (module_names_distinct_iff shelfOperations {}).2 (by decide) (by decide)

/-- Two operations with different ids that make the same name. -/
def bookOperations : List Operation :=
  [{ id := "get-book", httpMethod := .get, uri := "/books", responses := [⟨"200", .ofList []⟩] },
    { id := "get.book", httpMethod := .get, uri := "/book", responses := [⟨"200", .ofList []⟩] }]

/-- Two operations with different methods that make the same name with their statuses. -/
def statusOperations : List Operation :=
  [{ id := "list", httpMethod := .get, uri := "/", responses := [⟨"a$Status$b", .ofList []⟩] },
    { id := "list$Status$a", httpMethod := .get, uri := "/a", responses := [⟨"b", .ofList []⟩] }]

/-- Different ids are not enough: they may make the same name, and different methods may make
the same name with their statuses. -/
theorem distinct_ids_clash :
    ((bookOperations.map Operation.id).Nodup ∧
      (∀ op ∈ bookOperations, op.nameOverride = none ∧
        (op.responses.map Response.status).Nodup) ∧
      ¬ (Client.generate bookOperations {}).module.methodNames.Nodup ∧
      ¬ (Client.generate bookOperations {}).module.typeNames.Nodup) ∧
    (statusOperations.map Operation.id).Nodup ∧
      (∀ op ∈ statusOperations, op.nameOverride = none ∧
        (op.responses.map Response.status).Nodup) ∧
      (Client.generate statusOperations {}).module.methodNames.Nodup ∧
      ¬ (Client.generate statusOperations {}).module.typeNames.Nodup := by
  decide

end Module

end TypedClient
