import TypedClient.Proofs.Address
import TypedClient.Proofs.Assembly
import TypedClient.Proofs.Declarations

/-!
# The first fault of an operation

Which fault an operation has is decided in two steps. The schemas are gone through in a fixed
order, each before the schemas in it, and the first one of an unknown kind is the fault. Only then
the address counts, with the first path parameter that has no placeholder in it.

## Main definitions

* `Schema.visited`, `Operation.visitedSchemas`: the schemas that are gone through, in order
* `Visited`: the same schemas, described by where they stand
* `FailsAtFirst`: a result that fails at the first schema of an unknown kind
* `Operation.IsFirstUnknown`, `Operation.IsFirstUndefined`: the first schema of an unknown kind, and
  the first path parameter without a placeholder

## Main results

* `mem_visitedSchemas`: the two descriptions of the schemas agree
* `FailsAtFirst.bind`: results one after another fail at the first such schema of all
* `declarations_failsAtFirst`: the declarations of an operation do
* `generate_first_fault`: the fault of an operation, and when it has none
-/

namespace TypedClient

open Text TypeScript

/-! ## The schemas that are gone through -/

namespace Schema

/-- The names of the known kinds. -/
def kindNames : List String :=
  ["string", "integer", "number", "boolean", "object", "array", "undefined", "null", "never",
    "void", "any"]

/-- The name of the kind of a schema. -/
def kindName : Schema → String
  | mk name _ _ _ => name

theorem ofName?_eq_none_iff {name : String} :
    Kind.ofName? name = none ↔ name ∉ kindNames := by
  unfold Kind.ofName?
  split <;> simp_all [kindNames]

theorem ofName?_eq_object {name : String} :
    Kind.ofName? name = some .object ↔ name = "object" := by
  unfold Kind.ofName?
  split <;> simp_all

theorem ofName?_eq_array {name : String} :
    Kind.ofName? name = some .array ↔ name = "array" := by
  unfold Kind.ofName?
  split <;> simp_all

mutual

/-- The schemas that are gone through for a schema: itself, and then those of its members if it is
an object, or of its elements if it is an array. -/
def visited : Schema → List Schema
  | mk name values members items =>
    mk name values members items ::
      if name = "object" then visitedMembers members
      else if name = "array" then visitedElement items
      else []

/-- The schemas that are gone through for the members of an object. -/
def visitedMembers : List (Member Schema) → List Schema
  | [] => []
  | m :: ms => visitedMember m ++ visitedMembers ms

/-- The schemas that are gone through for a member. -/
def visitedMember : Member Schema → List Schema
  | ⟨_, _, schema⟩ => visited schema

/-- The schemas that are gone through for the elements of an array. -/
def visitedElement : Option Schema → List Schema
  | none => []
  | some schema => visited schema

end

theorem visited_object (values : Option (List Literal)) (members : List (Member Schema))
    (items : Option Schema) :
    visited (mk "object" values members items) =
      mk "object" values members items :: visitedMembers members := by
  rw [visited, if_pos rfl]

theorem visited_array (values : Option (List Literal)) (members : List (Member Schema))
    (items : Option Schema) :
    visited (mk "array" values members items) =
      mk "array" values members items :: visitedElement items := by
  rw [visited, if_neg (by decide), if_pos rfl]

theorem visited_of_ne {name : String} (hobject : name ≠ "object") (harray : name ≠ "array")
    (values : Option (List Literal)) (members : List (Member Schema)) (items : Option Schema) :
    visited (mk name values members items) = [mk name values members items] := by
  rw [visited, if_neg hobject, if_neg harray]

theorem self_mem_visited (s : Schema) : s ∈ s.visited := by
  cases s
  rw [visited]
  exact List.mem_cons_self ..

theorem visitedMembers_eq (ms : List (Member Schema)) :
    visitedMembers ms = ms.flatMap (·.schema.visited) := by
  induction ms with
  | nil => rfl
  | cons m ms ih =>
    rw [visitedMembers, ih, visitedMember, List.flatMap_cons]

/-- A member of an object is gone through with the object. -/
theorem visited_member_subset {values : Option (List Literal)} {members : List (Member Schema)}
    {items : Option Schema} {m : Member Schema} (hm : m ∈ members) :
    m.schema.visited ⊆ visited (mk "object" values members items) := by
  rw [visited_object, visitedMembers_eq]
  exact fun t ht => List.mem_cons_of_mem _ (List.mem_flatMap_of_mem hm ht)

/-- The elements of an array are gone through with the array. -/
theorem visited_element_subset {values : Option (List Literal)} {members : List (Member Schema)}
    {s : Schema} : s.visited ⊆ visited (mk "array" values members (some s)) := by
  rw [visited_array]
  exact List.subset_cons_self ..

/-- A property that is passed on from an object to its members, and from an array to its
elements. -/
structure PassedOn (P : Schema → Prop) : Prop where
  member {values : Option (List Literal)} {members : List (Member Schema)}
    {items : Option Schema} {m : Member Schema} (h : P (mk "object" values members items))
    (hm : m ∈ members) : P m.schema
  element {values : Option (List Literal)} {members : List (Member Schema)} {s : Schema}
    (h : P (mk "array" values members (some s))) : P s

namespace PassedOn

variable {P : Schema → Prop}

mutual

/-- **What is passed on holds of all schemas that are gone through** for one of which it holds. -/
theorem forall_visited (hP : PassedOn P) (s : Schema) (h : P s) : ∀ t ∈ s.visited, P t := by
  match s with
  | .mk name values members items =>
    intro t ht
    rw [visited, List.mem_cons] at ht
    rcases ht with rfl | ht
    · exact h
    · split at ht
      · next hname =>
        subst hname
        exact forall_visitedMembers hP members (fun m hm => hP.member h hm) t ht
      · split at ht
        · next hname =>
          subst hname
          exact forall_visitedElement hP items (fun s hs => hP.element (hs ▸ h)) t ht
        · cases ht

theorem forall_visitedMembers (hP : PassedOn P) (ms : List (Member Schema))
    (h : ∀ m ∈ ms, P m.schema) : ∀ t ∈ visitedMembers ms, P t := by
  match ms with
  | [] => exact nofun
  | m :: ms =>
    intro t ht
    rcases List.mem_append.mp ht with ht | ht
    · exact forall_visitedMember hP m (h m (List.mem_cons_self ..)) t ht
    · exact forall_visitedMembers hP ms (fun n hn => h n (List.mem_cons_of_mem _ hn)) t ht

theorem forall_visitedMember (hP : PassedOn P) (m : Member Schema) (h : P m.schema) :
    ∀ t ∈ visitedMember m, P t := by
  match m with
  | ⟨name, required, schema⟩ => exact forall_visited hP schema h

theorem forall_visitedElement (hP : PassedOn P) (s? : Option Schema)
    (h : ∀ s, s? = some s → P s) : ∀ t ∈ visitedElement s?, P t := by
  match s? with
  | none => exact nofun
  | some s => exact forall_visited hP s (h s rfl)

end

end PassedOn

/-- Going through a schema goes through every schema in it. -/
theorem visited_subset_of_mem {s t : Schema} (h : t ∈ s.visited) : t.visited ⊆ s.visited := by
  have hpassed : PassedOn fun t => t.visited ⊆ s.visited :=
    { member := fun hobject hm => List.Subset.trans (visited_member_subset hm) hobject
      element := fun harray => List.Subset.trans visited_element_subset harray }
  exact hpassed.forall_visited s (List.Subset.refl _) t h

end Schema

/-- The schemas that are gone through for an operation: those of the parameters, of the request
body and of the responses. -/
def Operation.visitedSchemas (op : Operation) : List Schema :=
  op.parameters.flatMap (·.schema.visited)
    ++ (op.requestBody.toList.flatMap fun body => body.content.entries.flatMap (·.2.visited))
    ++ op.responses.flatMap fun r => r.content.entries.flatMap (·.2.visited)

/-- The schemas that are gone through for an operation, by the places where they stand. -/
inductive Visited (op : Operation) : Schema → Prop
  | parameter {p : Parameter} (hp : p ∈ op.parameters) : Visited op p.schema
  | requestBody {body : RequestBody} {e : String × Schema} (hb : op.requestBody = some body)
      (he : e ∈ body.content.entries) : Visited op e.2
  | response {r : Response} {e : String × Schema} (hr : r ∈ op.responses)
      (he : e ∈ r.content.entries) : Visited op e.2
  | member {values : Option (List Literal)} {members : List (Member Schema)}
      {items : Option Schema} {m : Member Schema}
      (h : Visited op (.mk "object" values members items)) (hm : m ∈ members) :
      Visited op m.schema
  | element {values : Option (List Literal)} {members : List (Member Schema)} {s : Schema}
      (h : Visited op (.mk "array" values members (some s))) : Visited op s

section Visited

variable {op : Operation}

/-- What is gone through for a schema stands in it. -/
theorem Visited.of_mem_visited {s t : Schema} (h : Visited op s) (ht : t ∈ s.visited) :
    Visited op t := by
  have hpassed : Schema.PassedOn (Visited op) := { member := .member, element := .element }
  exact hpassed.forall_visited s h t ht

theorem mem_visitedSchemas_iff {s : Schema} :
    s ∈ op.visitedSchemas ↔
      (∃ p ∈ op.parameters, s ∈ p.schema.visited) ∨
      (∃ body, op.requestBody = some body ∧ ∃ e ∈ body.content.entries, s ∈ e.2.visited) ∨
      ∃ r ∈ op.responses, ∃ e ∈ r.content.entries, s ∈ e.2.visited := by
  simp only [Operation.visitedSchemas, List.mem_append, List.mem_flatMap, Option.mem_toList,
    or_assoc]

/-- The schemas that are gone through are closed under going through them. -/
theorem visitedSchemas_closed {s t : Schema} (hs : s ∈ op.visitedSchemas) (ht : t ∈ s.visited) :
    t ∈ op.visitedSchemas := by
  rw [mem_visitedSchemas_iff] at hs ⊢
  rcases hs with ⟨p, hp, hs⟩ | ⟨body, hb, e, he, hs⟩ | ⟨r, hr, e, he, hs⟩
  · exact Or.inl ⟨p, hp, Schema.visited_subset_of_mem hs ht⟩
  · exact Or.inr (Or.inl ⟨body, hb, e, he, Schema.visited_subset_of_mem hs ht⟩)
  · exact Or.inr (Or.inr ⟨r, hr, e, he, Schema.visited_subset_of_mem hs ht⟩)

/-- **The schemas that are gone through** are those that stand in the parameters, the request body
and the responses, down to the members of objects and the elements of arrays. -/
theorem mem_visitedSchemas {s : Schema} : s ∈ op.visitedSchemas ↔ Visited op s := by
  constructor
  · rw [mem_visitedSchemas_iff]
    rintro (⟨p, hp, hs⟩ | ⟨body, hb, e, he, hs⟩ | ⟨r, hr, e, he, hs⟩)
    · exact (Visited.parameter hp).of_mem_visited hs
    · exact (Visited.requestBody hb he).of_mem_visited hs
    · exact (Visited.response hr he).of_mem_visited hs
  · intro h
    induction h with
    | parameter hp =>
      exact mem_visitedSchemas_iff.mpr (Or.inl ⟨_, hp, Schema.self_mem_visited _⟩)
    | requestBody hb he =>
      exact mem_visitedSchemas_iff.mpr
        (Or.inr (Or.inl ⟨_, hb, _, he, Schema.self_mem_visited _⟩))
    | response hr he =>
      exact mem_visitedSchemas_iff.mpr
        (Or.inr (Or.inr ⟨_, hr, _, he, Schema.self_mem_visited _⟩))
    | member _ hm ih =>
      exact visitedSchemas_closed ih (Schema.visited_member_subset hm (Schema.self_mem_visited _))
    | element _ ih =>
      exact visitedSchemas_closed ih (Schema.visited_element_subset (Schema.self_mem_visited _))

end Visited

/-! ## Results that fail at a schema -/

/-- The kind of the first schema of an unknown kind. -/
def firstUnknown? (ss : List Schema) : Option String :=
  (ss.map Schema.kindName).find? (· ∉ Schema.kindNames)

/-- A result that fails at the first schema of an unknown kind, and only there. -/
def FailsAtFirst {α : Type} (ss : List Schema) (x : Except Fault α) : Prop :=
  match firstUnknown? ss with
  | some name => x = .error (.unsupportedKind name)
  | none => ∃ a, x = .ok a

section FailsAtFirst

variable {α β : Type} {ss ts : List Schema} {x : Except Fault α} {f : α → Except Fault β}

theorem firstUnknown?_append (ss ts : List Schema) :
    firstUnknown? (ss ++ ts) = (firstUnknown? ss).or (firstUnknown? ts) := by
  rw [firstUnknown?, List.map_append, List.find?_append]
  rfl

theorem firstUnknown?_eq_none :
    firstUnknown? ss = none ↔ ∀ s ∈ ss, s.kindName ∈ Schema.kindNames := by
  simp [firstUnknown?]

theorem firstUnknown?_eq_some {name : String} :
    firstUnknown? ss = some name ↔
      ∃ s, IsFirst (fun s => s.kindName ∉ Schema.kindNames) ss s ∧ s.kindName = name := by
  rw [firstUnknown?, List.find?_map, Option.map_eq_some_iff]
  simp only [find?_eq_some_iff_isFirst, Function.comp_apply, decide_eq_true_eq]

theorem FailsAtFirst.eq_error_iff (h : FailsAtFirst ss x) {fault : Fault} :
    x = .error fault ↔ ∃ name, firstUnknown? ss = some name ∧ fault = .unsupportedKind name := by
  unfold FailsAtFirst at h
  split at h
  · next name hname => simp [h, hname, eq_comm]
  · next hnone =>
    obtain ⟨a, rfl⟩ := h
    simp [hnone]

theorem FailsAtFirst.exists_ok_iff (h : FailsAtFirst ss x) :
    (∃ a, x = .ok a) ↔ firstUnknown? ss = none := by
  unfold FailsAtFirst at h
  split at h
  · next name hname => simp [h, hname]
  · next hnone => simp [h, hnone]

/-- A schema of an unknown kind comes before all that follows. -/
theorem failsAtFirst_of_unknown {s : Schema} (h : s.kindName ∉ Schema.kindNames) :
    FailsAtFirst (s :: ss) (.error (.unsupportedKind s.kindName) : Except Fault α) := by
  have hfirst : firstUnknown? (s :: ss) = some s.kindName := by
    simp [firstUnknown?, h]
  rw [FailsAtFirst, hfirst]

/-- A schema of a known kind leaves the decision to what follows. -/
theorem FailsAtFirst.cons {s : Schema} (h : s.kindName ∈ Schema.kindNames)
    (hx : FailsAtFirst ss x) : FailsAtFirst (s :: ss) x := by
  have hrest : firstUnknown? (s :: ss) = firstUnknown? ss := by
    simp [firstUnknown?, h]
  rw [FailsAtFirst, hrest]
  exact hx

theorem FailsAtFirst.pure (a : α) : FailsAtFirst [] (pure a) :=
  ⟨a, rfl⟩

/-- **Results one after another fail at the first schema of all** that has an unknown kind. -/
theorem FailsAtFirst.bind (hx : FailsAtFirst ss x) (hf : ∀ a, FailsAtFirst ts (f a)) :
    FailsAtFirst (ss ++ ts) (x >>= f) := by
  unfold FailsAtFirst at hx
  split at hx
  · next name hname =>
    rw [FailsAtFirst, firstUnknown?_append, hname, hx]
    rfl
  · next hnone =>
    obtain ⟨a, rfl⟩ := hx
    rw [FailsAtFirst, firstUnknown?_append, hnone, Option.none_or]
    exact hf a

/-- What is done with a value does not change at which schema a result fails. -/
theorem FailsAtFirst.map (hx : FailsAtFirst ss x) (g : α → β) :
    FailsAtFirst ss (x >>= fun a => Pure.pure (g a)) := by
  rw [← List.append_nil ss]
  exact hx.bind fun a => .pure (g a)

/-- A list of results, each of which fails at the first of its own schemas. -/
theorem FailsAtFirst.mapM {γ : Type} {g : γ → Except Fault α} {schemas : γ → List Schema}
    (h : ∀ c, FailsAtFirst (schemas c) (g c)) (cs : List γ) :
    FailsAtFirst (cs.flatMap schemas) (cs.mapM g) := by
  induction cs with
  | nil => exact .pure []
  | cons c cs ih =>
    rw [List.mapM_cons, List.flatMap_cons]
    exact (h c).bind fun y => ih.map (y :: ·)

end FailsAtFirst

/-! ## Types and declarations -/

mutual

/-- **The type of a schema** fails at the first schema in it that has an unknown kind. -/
theorem toType_failsAtFirst (s : Schema) : FailsAtFirst s.visited s.toType := by
  match s with
  | .mk name values members items =>
    rw [Schema.toType]
    cases hkind : Schema.Kind.ofName? name with
    | none =>
      rw [Schema.visited]
      exact failsAtFirst_of_unknown (s := .mk name values members items)
        (Schema.ofName?_eq_none_iff.mp hkind)
    | some kind =>
      have hknown : name ∈ Schema.kindNames := by
        by_contra hunknown
        rw [Schema.ofName?_eq_none_iff.mpr hunknown] at hkind
        cases hkind
      cases kind with
      | object =>
        obtain rfl := Schema.ofName?_eq_object.mp hkind
        rw [Schema.visited_object]
        exact ((memberTypes_failsAtFirst members).map _).cons hknown
      | array =>
        obtain rfl := Schema.ofName?_eq_array.mp hkind
        rw [Schema.visited_array]
        exact ((elementType_failsAtFirst items).map _).cons hknown
      | _ =>
        -- no other kind looks into a schema
        rw [Schema.visited_of_ne (by rintro rfl; cases hkind) (by rintro rfl; cases hkind)]
        refine .cons hknown ?_
        cases values <;> exact .pure _

theorem memberTypes_failsAtFirst (ms : List (Member Schema)) :
    FailsAtFirst (Schema.visitedMembers ms) (Schema.memberTypes ms) := by
  match ms with
  | [] => exact .pure []
  | m :: ms =>
    exact (memberType_failsAtFirst m).bind fun p => (memberTypes_failsAtFirst ms).map (p :: ·)

theorem memberType_failsAtFirst (m : Member Schema) :
    FailsAtFirst (Schema.visitedMember m) (Schema.memberType m) := by
  match m with
  | ⟨name, required, schema⟩ => exact (toType_failsAtFirst schema).map _

theorem elementType_failsAtFirst (s? : Option Schema) :
    FailsAtFirst (Schema.visitedElement s?) (Schema.elementType s?) := by
  match s? with
  | none => exact .pure _
  | some s => exact toType_failsAtFirst s

end

theorem schemaProperty_failsAtFirst (name : String) (s : Schema) (optional : Bool) :
    FailsAtFirst s.visited (schemaProperty name s optional) :=
  (toType_failsAtFirst s).map _

theorem contentProperties_failsAtFirst (es : List (String × Schema)) :
    FailsAtFirst (es.flatMap (·.2.visited)) (contentProperties es) := by
  rw [contentProperties_eq_mapM]
  exact .mapM (fun e => schemaProperty_failsAtFirst e.1 e.2 false) es

theorem parameterProperties_failsAtFirst (params : List Parameter) :
    FailsAtFirst (params.flatMap (·.schema.visited)) (parameterProperties params) := by
  rw [parameterProperties_eq_mapM]
  exact .mapM (fun p => schemaProperty_failsAtFirst p.name p.schema (!p.required)) params

section Declarations

variable (op : Operation)

theorem parameterDecls_failsAtFirst :
    FailsAtFirst (op.parameters.flatMap (·.schema.visited)) op.parameterDecls := by
  rw [Operation.parameterDecls]
  split
  · exact (parameterProperties_failsAtFirst op.parameters).map _
  · next hnone =>
    -- without the interface there is no parameter
    have hempty : op.parameters = [] := by simpa [Operation.shape] using hnone
    rw [hempty]
    exact .pure []

theorem requestBodyDecls_failsAtFirst :
    FailsAtFirst (op.requestBody.toList.flatMap fun body =>
      body.content.entries.flatMap (·.2.visited)) op.requestBodyDecls := by
  rw [Operation.requestBodyDecls]
  cases op.requestBody with
  | none => exact .pure []
  | some body =>
    rw [Option.toList_some, List.flatMap_singleton]
    exact (contentProperties_failsAtFirst body.content.entries).map _

theorem responseDeclsOf_failsAtFirst (rs : List Response) :
    FailsAtFirst (rs.flatMap fun r => r.content.entries.flatMap (·.2.visited))
      (op.responseDeclsOf rs) := by
  rw [responseDeclsOf_eq_mapM]
  exact .mapM (fun r => (contentProperties_failsAtFirst r.content.entries).map _) rs

/-- **The declarations of an operation** fail at the first schema of an unknown kind. -/
theorem declarations_failsAtFirst : FailsAtFirst op.visitedSchemas op.declarations := by
  rw [Operation.visitedSchemas, List.append_assoc]
  refine (parameterDecls_failsAtFirst op).bind fun _ => ?_
  refine (requestBodyDecls_failsAtFirst op).bind fun _ => ?_
  exact (responseDeclsOf_failsAtFirst op op.responses).map _

end Declarations

/-! ## The fault of an operation -/

namespace Operation

/-- All schemas that are gone through have a known kind. -/
def KindsKnown (op : Operation) : Prop :=
  ∀ s, Visited op s → s.kindName ∈ Schema.kindNames

/-- The first schema of an unknown kind among those that are gone through. -/
def IsFirstUnknown (op : Operation) (s : Schema) : Prop :=
  IsFirst (fun s => s.kindName ∉ Schema.kindNames) op.visitedSchemas s

/-- The first path parameter that has no placeholder in the address. -/
def IsFirstUndefined (op : Operation) (p : Parameter) : Prop :=
  IsFirst (fun p => ¬ Occurs (placeholder p.name) op.uri) (op.parametersIn .path) p

end Operation

section Outcome

variable {op : Operation} {options : MethodOptions} {fault : Fault}

theorem kindsKnown_iff : op.KindsKnown ↔ firstUnknown? op.visitedSchemas = none := by
  simp only [Operation.KindsKnown, firstUnknown?_eq_none, mem_visitedSchemas]

theorem not_kindsKnown_iff : ¬ op.KindsKnown ↔ ∃ s, op.IsFirstUnknown s := by
  simp only [Operation.IsFirstUnknown, exists_isFirst_iff, mem_visitedSchemas,
    Operation.KindsKnown, not_forall, exists_prop]

theorem not_placeholdersOccur_iff : ¬ op.PlaceholdersOccur ↔ ∃ p, op.IsFirstUndefined p := by
  simp only [Operation.IsFirstUndefined, exists_isFirst_iff, Operation.PlaceholdersOccur,
    not_forall, exists_prop]

theorem exists_declarations_iff : (∃ ds, op.declarations = .ok ds) ↔ op.KindsKnown := by
  rw [(declarations_failsAtFirst op).exists_ok_iff, kindsKnown_iff]

theorem declarations_eq_error_iff :
    op.declarations = .error fault ↔
      ∃ s, op.IsFirstUnknown s ∧ fault = .unsupportedKind s.kindName := by
  rw [(declarations_failsAtFirst op).eq_error_iff]
  simp only [firstUnknown?_eq_some]
  constructor
  · rintro ⟨_, ⟨s, hs, rfl⟩, rfl⟩
    exact ⟨s, hs, rfl⟩
  · rintro ⟨s, hs, rfl⟩
    exact ⟨_, ⟨s, hs, rfl⟩, rfl⟩

theorem undefinedParameter?_eq_some_iff {p : Parameter} :
    undefinedParameter? op.uri (op.parametersIn .path) = some p ↔ op.IsFirstUndefined p := by
  rw [undefinedParameter?, find?_eq_some_iff_isFirst, Operation.IsFirstUndefined]
  simp only [Bool.not_eq_true', ← Bool.not_eq_true, occursIn_toList_iff]

/-- The faults of an address: a path parameter without a placeholder, or segments that are
misaligned. -/
theorem url_eq_error_iff :
    op.url = .error fault ↔
      (∃ p, op.IsFirstUndefined p ∧ fault = .undefinedParameter p.name op.uri) ∨
      op.PlaceholdersOccur ∧ op.Misaligned ∧ fault = .misplacedText op.firstText := by
  simp only [← undefinedParameter?_eq_some_iff]
  cases hf : undefinedParameter? op.uri (op.parametersIn .path) with
  | some p =>
    have hocc : ¬ op.PlaceholdersOccur :=
      not_placeholdersOccur_iff.mpr ⟨p, undefinedParameter?_eq_some_iff.mp hf⟩
    have hurl : op.url = .error (.undefinedParameter p.name op.uri) := by
      rw [Operation.url, hf]
      rfl
    simp [hurl, hocc, eq_comm]
  | none =>
    have hocc : op.PlaceholdersOccur := undefinedParameter?_eq_none.mp hf
    rcases url_cases op with ⟨h, _⟩ | ⟨_, hm, hurl⟩ | ⟨_, hm, e, hurl⟩
    · exact absurd hocc h
    · simp [hurl, hocc, hm, eq_comm]
    · simp [hurl, hm]

/-- The faults of an operation: an unknown kind, and if there is none, a fault of the address. -/
theorem generate_eq_error_iff :
    op.generate options = .error fault ↔
      (∃ s, op.IsFirstUnknown s ∧ fault = .unsupportedKind s.kindName) ∨
      op.KindsKnown ∧ (∃ p, op.IsFirstUndefined p ∧ fault = .undefinedParameter p.name op.uri) ∨
      op.KindsKnown ∧ op.PlaceholdersOccur ∧ op.Misaligned ∧
        fault = .misplacedText op.firstText := by
  rw [generate_eq_error, declarations_eq_error_iff, exists_declarations_iff, toMethod_eq_error,
    body_eq_error, url_eq_error_iff, and_or_left]

theorem generate_cases (op : Operation) (options : MethodOptions) :
    (¬ op.KindsKnown ∧ ∃ s, op.IsFirstUnknown s ∧
        op.generate options = .error (.unsupportedKind s.kindName)) ∨
      (op.KindsKnown ∧ ¬ op.PlaceholdersOccur ∧ ∃ p, op.IsFirstUndefined p ∧
        op.generate options = .error (.undefinedParameter p.name op.uri)) ∨
      (op.KindsKnown ∧ op.PlaceholdersOccur ∧ op.Misaligned ∧
        op.generate options = .error (.misplacedText op.firstText)) ∨
      op.KindsKnown ∧ op.PlaceholdersOccur ∧ ¬ op.Misaligned ∧
        ∃ part, op.generate options = .ok part := by
  cases h : op.generate options with
  | error fault =>
    rcases generate_eq_error_iff.mp h with ⟨s, hs, rfl⟩ | ⟨hk, p, hp, rfl⟩ | ⟨hk, hocc, hm, rfl⟩
    · exact Or.inl ⟨not_kindsKnown_iff.mpr ⟨s, hs⟩, s, hs, rfl⟩
    · exact Or.inr (Or.inl ⟨hk, not_placeholdersOccur_iff.mpr ⟨p, hp⟩, p, hp, rfl⟩)
    · exact Or.inr (Or.inr (Or.inl ⟨hk, hocc, hm, rfl⟩))
  | ok part =>
    obtain ⟨hds, hm⟩ := generate_eq_ok.mp h
    obtain ⟨stmts, hbody, _⟩ := toMethod_eq_ok.mp hm
    obtain ⟨url, _, hurl, _⟩ := body_eq_ok.mp hbody
    obtain ⟨hocc, hm⟩ := url_eq_ok_iff.mp ⟨url, hurl⟩
    exact Or.inr (Or.inr (Or.inr ⟨exists_declarations_iff.mp ⟨_, hds⟩, hocc, hm, part, rfl⟩))

/-- **The first fault of an operation.** The schemas that are gone through decide first, and the
first one of an unknown kind is the fault whatever the address is. With known kinds only, it is the
first path parameter without a placeholder. Beyond that, there is no fault but misaligned segments
of the address; in particular no access path is ever refused. -/
theorem generate_first_fault (op : Operation) (options : MethodOptions) :
    (∀ s, s ∈ op.visitedSchemas ↔ Visited op s) ∧
      (¬ op.KindsKnown ↔ ∃ s, op.IsFirstUnknown s ∧
        op.generate options = .error (.unsupportedKind s.kindName)) ∧
      (op.KindsKnown ∧ ¬ op.PlaceholdersOccur ↔ ∃ p, op.IsFirstUndefined p ∧
        op.generate options = .error (.undefinedParameter p.name op.uri)) ∧
      (op.KindsKnown ∧ op.PlaceholdersOccur ∧ op.Misaligned ↔
        op.generate options = .error (.misplacedText op.firstText)) ∧
      (op.KindsKnown ∧ op.PlaceholdersOccur ∧ ¬ op.Misaligned ↔
        ∃ part, op.generate options = .ok part) ∧
      ∀ path, op.generate options ≠ .error (.invalidPath path) := by
  refine ⟨fun _ => mem_visitedSchemas, ?_⟩
  rcases generate_cases op options with ⟨hk, s, hs, h⟩ | ⟨hk, hocc, p, hp, h⟩ |
    ⟨hk, hocc, hm, h⟩ | ⟨hk, hocc, hm, part, h⟩
  · simp only [hk, h, false_and, not_false_eq_true, true_iff, false_iff]
    refine ⟨⟨s, hs, rfl⟩, ?_⟩
    simp
  · simp only [hk, hocc, h, true_and, false_and, not_true_eq_false, not_false_eq_true, true_iff,
      false_iff]
    refine ⟨by simp, ⟨p, hp, rfl⟩, ?_⟩
    simp
  · simp [hk, hocc, hm, h]
  · simp [hk, hocc, hm, h]

end Outcome

end TypedClient
