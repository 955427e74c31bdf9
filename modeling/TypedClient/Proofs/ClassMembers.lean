import TypedClient.Proofs.DistinctNames
import TypedClient.Proofs.Identifier

/-!
# Members of the class

The class of a module begins with code that declares members of its own, and the methods of the
operations come behind it. None of the declared names is reserved, so an id makes one of them
whenever it has the characters for it.

## Main definitions

* `declaredMembers`: the names of the members that class code declares
* `ClassDecl.declaredMembers`: those that are declared before the methods of a class

## Main results

* `declaredMembers_prelude`: the members every class begins with
* `methods_apart_from_members_iff`: when no method is named like one of them
-/

namespace TypedClient

open Identifier Text TypeScript

/-! ## Declared members -/

/-- The names at the places where a text goes on after the word `private`, in their order. They
are names of fields, and of the parameters of a constructor that are fields as well. -/
def privateNames : List Char → List String
  | [] => []
  | 'p' :: 'r' :: 'i' :: 'v' :: 'a' :: 't' :: 'e' :: ' ' :: s =>
    String.ofList (s.takeWhile isPart) :: privateNames s
  | _ :: s => privateNames s

/-- The name at the beginning of a line, if an opening parenthesis is behind it. -/
def memberWithParams (line : List Char) : List String :=
  if isName (line.takeWhile isPart) && (line.dropWhile isPart).head? == some '(' then
    [String.ofList (line.takeWhile isPart)]
  else []

/-- The names of the members that class code declares: its fields, and what is declared with
parameters at the beginning of a line. -/
def declaredMembers (code : String) : List String :=
  (lines code.toList).flatMap fun line => memberWithParams line ++ privateNames line

/-- The members that are declared before the methods of a class. -/
def TypeScript.ClassDecl.declaredMembers (c : ClassDecl) : List String :=
  c.prelude.flatMap fun s =>
    match s with
    | .raw code => TypedClient.declaredMembers code
    | _ => []

/-- **The members every class begins with.** -/
theorem declaredMembers_prelude :
    declaredMembers Client.prelude = ["baseUrl", "constructor", "apiClient"] := by
  decide +kernel

/-! ## Names of methods -/

section Methods

variable {op : Operation} {name : String}

/-- A declared member is a name that is not reserved and needs no completion. -/
theorem ofId_eq_iff_of_mem (h : name ∈ declaredMembers Client.prelude) (id : String) :
    ofId id = name ↔ letters upperCase id = name.toList := by
  have hall : ∀ n ∈ declaredMembers Client.prelude,
      isValid n ∧ isReserved n = false ∧ n.toList.head? ≠ some '_' := by
    rw [declaredMembers_prelude]
    decide
  obtain ⟨hvalid, hreserved, hunderscore⟩ := hall name h
  exact ofIdWith_eq_iff hvalid hreserved hunderscore

theorem declaredMembers_classOf (config : Config) (methods : List Method) :
    (Client.classOf config methods).declaredMembers = ["baseUrl", "constructor", "apiClient"] := by
  rw [← declaredMembers_prelude]
  exact List.append_nil _

theorem classes_generate (ops : List Operation) (config : Config) :
    (Client.generate ops config).module.classes =
      [Client.classOf config ((Client.contributions config.methodOptions ops).map (·.method))] :=
  rfl

/-- **No method is named like a member the class declares** just when no operation that is in the
module is named, by its override or its id, with exactly the characters of such a member. -/
theorem methods_apart_from_members_iff (ops : List Operation) (config : Config) :
    (∀ c ∈ (Client.generate ops config).module.classes, ∀ m ∈ c.methods,
      m.name ∉ c.declaredMembers) ↔
    ∀ op ∈ Client.generated config.methodOptions ops,
      ∀ name ∈ ["baseUrl", "constructor", "apiClient"],
        letters upperCase (op.nameOverride.getD op.id) ≠ name.toList := by
  have hnames := (names_of_contributions config.methodOptions ops).1
  rw [classes_generate, List.forall_mem_singleton, declaredMembers_classOf,
    ← declaredMembers_prelude]
  calc (∀ m ∈ (Client.contributions config.methodOptions ops).map (·.method),
          m.name ∉ declaredMembers Client.prelude)
      ↔ ∀ n ∈ (Client.generated config.methodOptions ops).map Operation.functionName,
          n ∉ declaredMembers Client.prelude := by
        rw [← hnames, List.forall_mem_map, List.forall_mem_map]
    _ ↔ ∀ op ∈ Client.generated config.methodOptions ops,
          op.functionName ∉ declaredMembers Client.prelude := List.forall_mem_map
    _ ↔ _ := by
        refine forall₂_congr fun op _ => ?_
        rw [← List.forall_mem_ne']
        refine forall₂_congr fun name hname => ?_
        rw [ne_eq, ← ofId_eq_iff_of_mem hname]
        exact not_congr eq_comm

/-- Operations whose ids are made of the characters of the members of the class. -/
def memberOperations : List Operation :=
  ["constructor", "base-url", "api/client"].map fun id =>
    { id, httpMethod := .get, uri := "/" }

/-- **Methods may be named like the members of the class**, its constructor among them. -/
theorem memberOperations_clash :
    (Client.generate memberOperations {}).module.methodNames =
        ["constructor", "baseUrl", "apiClient"] ∧
      ¬ ∀ c ∈ (Client.generate memberOperations {}).module.classes, ∀ m ∈ c.methods,
        m.name ∉ c.declaredMembers := by
  have hnames : (Client.generate memberOperations {}).module.methodNames =
      ["constructor", "baseUrl", "apiClient"] := by
    decide +kernel
  refine ⟨hnames, fun h => ?_⟩
  have hconstructor : "constructor" ∈ (Client.generate memberOperations {}).module.methodNames := by
    rw [hnames]
    exact List.mem_cons_self
  obtain ⟨c, hc, hname⟩ := List.mem_flatMap.mp hconstructor
  obtain ⟨m, hm, hname⟩ := List.mem_map.mp hname
  have hapart := h c hc m hm
  rw [classes_generate, List.mem_singleton] at hc
  rw [hname, hc, declaredMembers_classOf] at hapart
  exact hapart (by decide)

end Methods

end TypedClient
