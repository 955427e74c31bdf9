import TypedClient.Client
import TypedClient.Proofs.Body
import TypedClient.Proofs.Outcome

/-!
# Laws of assembling a client

Each operation of a list comes either to a method with its declarations or to an omission,
whatever becomes of the other ones.

## Main definitions

* `Client.methods`, `Client.operationTypes`: the methods of a client, and the types it
  declares for its operations
* `Client.generated`: the operations that are in the module
* `Assembled`: what a list of operations comes to, operation by operation

## Main results

* `generate_eq_ok`, `generate_eq_error`: what one operation comes to
* `assembled_generate_iff`: a client holds what its operations come to, and nothing else
* `generate_isolates_faults`: a fault of one operation leaves no trace in what the other ones
  come to
-/

namespace TypedClient

open TypeScript

/-! ## One operation -/

section Contribution

variable {op : Operation} {options : MethodOptions}

theorem generate_eq_ok {part : Contribution} :
    op.generate options = .ok part ↔
      op.declarations = .ok part.declarations ∧ op.toMethod options = .ok part.method := by
  obtain ⟨ds, m⟩ := part
  simp only [Operation.generate, bind_eq_ok, pure_eq_ok, Contribution.mk.injEq]
  constructor
  · rintro ⟨_, hds, _, hm, rfl, rfl⟩
    exact ⟨hds, hm⟩
  · rintro ⟨hds, hm⟩
    exact ⟨ds, hds, m, hm, rfl, rfl⟩

/-- A fault of the declarations comes before one of the method, which leaves no trace of
declarations that could be made. -/
theorem generate_eq_error {fault : Fault} :
    op.generate options = .error fault ↔
      op.declarations = .error fault ∨
      (∃ ds, op.declarations = .ok ds) ∧ op.toMethod options = .error fault := by
  simp only [Operation.generate, bind_eq_error, pure_ne_error, and_false, exists_false, or_false,
    ← exists_and_right]

end Contribution

/-! ## A list of operations -/

namespace Client

/-- The methods of a client. -/
def methods (client : Client) : List Method :=
  client.module.classes.flatMap (·.methods)

/-- The types a client declares for its operations, after those of the runtime. -/
def operationTypes (config : Config) (client : Client) : List TypeDecl :=
  client.module.types.drop (runtimeTypes config).length

/-- The operations that are in the module: those without a fault. -/
def generated (options : MethodOptions) (ops : List Operation) : List Operation :=
  ops.filter fun op => (op.generate options).toOption.isSome

end Client

/-- What a list of operations comes to under given choices: a method, declarations and an
omission for each of them, in their order. An operation has its method and its declarations in
it, or else its fault. -/
inductive Assembled (options : MethodOptions) :
    List Operation → List Method → List TypeDecl → List Omission → Prop
  | nil : Assembled options [] [] [] []
  | added {op : Operation} {ops : List Operation} {m : Method} {ms : List Method}
      {ds ts : List TypeDecl} {os : List Omission} (hds : op.declarations = .ok ds)
      (hm : op.toMethod options = .ok m) (h : Assembled options ops ms ts os) :
      Assembled options (op :: ops) (m :: ms) (ds ++ ts) os
  | omitted {op : Operation} {ops : List Operation} {ms : List Method} {ts : List TypeDecl}
      {os : List Omission} {fault : Fault}
      (hf : op.declarations = .error fault ∨
        (∃ ds, op.declarations = .ok ds) ∧ op.toMethod options = .error fault)
      (h : Assembled options ops ms ts os) :
      Assembled options (op :: ops) ms ts (⟨op.id, fault⟩ :: os)

section Lists

variable {options : MethodOptions} {op : Operation} {ops : List Operation}

theorem contributions_cons_ok {part : Contribution} (h : op.generate options = .ok part) :
    Client.contributions options (op :: ops) = part :: Client.contributions options ops :=
  List.filterMap_cons_some (by rw [h]; rfl)

theorem contributions_cons_error {fault : Fault} (h : op.generate options = .error fault) :
    Client.contributions options (op :: ops) = Client.contributions options ops :=
  List.filterMap_cons_none (by rw [h]; rfl)

theorem omissionsOf_cons_ok {part : Contribution} (h : op.generate options = .ok part) :
    Client.omissionsOf options (op :: ops) = Client.omissionsOf options ops :=
  List.filterMap_cons_none (by rw [h])

theorem omissionsOf_cons_error {fault : Fault} (h : op.generate options = .error fault) :
    Client.omissionsOf options (op :: ops) = ⟨op.id, fault⟩ :: Client.omissionsOf options ops :=
  List.filterMap_cons_some (by rw [h])

theorem generated_cons_ok {part : Contribution} (h : op.generate options = .ok part) :
    Client.generated options (op :: ops) = op :: Client.generated options ops :=
  List.filter_cons_of_pos (by rw [h]; rfl)

theorem generated_cons_error {fault : Fault} (h : op.generate options = .error fault) :
    Client.generated options (op :: ops) = Client.generated options ops :=
  List.filter_cons_of_neg (by rw [h]; nofun)

theorem contributions_append (options : MethodOptions) (xs ys : List Operation) :
    Client.contributions options (xs ++ ys) =
      Client.contributions options xs ++ Client.contributions options ys :=
  List.filterMap_append

theorem omissionsOf_append (options : MethodOptions) (xs ys : List Operation) :
    Client.omissionsOf options (xs ++ ys) =
      Client.omissionsOf options xs ++ Client.omissionsOf options ys :=
  List.filterMap_append

/-- Without the operations that have a fault, the same is added to the module and nothing is left
out. -/
theorem contributions_generated (options : MethodOptions) (ops : List Operation) :
    Client.contributions options (Client.generated options ops) =
        Client.contributions options ops ∧
      Client.omissionsOf options (Client.generated options ops) = [] := by
  induction ops with
  | nil => exact ⟨rfl, rfl⟩
  | cons op ops ih =>
    cases h : op.generate options with
    | error fault => rwa [generated_cons_error h, contributions_cons_error h]
    | ok part =>
      rw [generated_cons_ok h, contributions_cons_ok h, contributions_cons_ok h,
        omissionsOf_cons_ok h, ih.1]
      exact ⟨rfl, ih.2⟩

end Lists

/-! ## What a list of operations comes to -/

namespace Assembled

variable {options : MethodOptions} {ops : List Operation} {ms : List Method}
  {ts : List TypeDecl} {os : List Omission}

/-- Each operation is counted once, as a method or as an omission. -/
theorem length_add_length (h : Assembled options ops ms ts os) :
    ms.length + os.length = ops.length := by
  induction h with
  | nil => rfl
  | added _ _ _ ih =>
    simp only [List.length_cons]
    omega
  | omitted _ _ ih =>
    simp only [List.length_cons]
    omega

theorem methods_sublist (h : Assembled options ops ms ts os) :
    (ms.map Method.name).Sublist (ops.map Operation.functionName) := by
  induction h with
  | nil => exact .slnil
  | added _ hm _ ih =>
    obtain ⟨stmts, _, rfl⟩ := toMethod_eq_ok.mp hm
    exact ih.cons_cons _
  | omitted _ _ ih => exact ih.cons _

theorem omissions_sublist (h : Assembled options ops ms ts os) :
    (os.map Omission.operationId).Sublist (ops.map Operation.id) := by
  induction h with
  | nil => exact .slnil
  | added _ _ _ ih => exact ih.cons _
  | omitted _ _ ih => exact ih.cons_cons _

end Assembled

section Assembly

variable {options : MethodOptions} {config : Config} {ops : List Operation}

/-- A list of operations comes to one thing only: what each of them adds, and the
omissions. -/
theorem assembled_iff {ms : List Method} {ts : List TypeDecl} {os : List Omission} :
    Assembled options ops ms ts os ↔
      ms = (Client.contributions options ops).map (·.method) ∧
      ts = (Client.contributions options ops).flatMap (·.declarations) ∧
      os = Client.omissionsOf options ops := by
  induction ops generalizing ms ts os with
  | nil =>
    constructor
    · rintro ⟨⟩
      exact ⟨rfl, rfl, rfl⟩
    · rintro ⟨rfl, rfl, rfl⟩
      exact .nil
  | cons op ops ih =>
    cases h : op.generate options with
    | ok part =>
      obtain ⟨hds, hm⟩ := generate_eq_ok.mp h
      rw [contributions_cons_ok h, omissionsOf_cons_ok h, List.map_cons, List.flatMap_cons]
      constructor
      · rintro (_ | ⟨hds', hm', hrest⟩ | ⟨hf, _⟩)
        · obtain rfl := Except.ok.inj (hds.symm.trans hds')
          obtain rfl := Except.ok.inj (hm.symm.trans hm')
          obtain ⟨rfl, rfl, rfl⟩ := ih.mp hrest
          exact ⟨rfl, rfl, rfl⟩
        · -- a fault would be one of `generate`
          rw [generate_eq_error.mpr hf] at h
          cases h
      · rintro ⟨rfl, rfl, rfl⟩
        exact .added hds hm (ih.mpr ⟨rfl, rfl, rfl⟩)
    | error fault =>
      rw [contributions_cons_error h, omissionsOf_cons_error h]
      constructor
      · rintro (_ | ⟨hds, hm, _⟩ | ⟨hf, hrest⟩)
        · have hok : op.generate options = .ok ⟨_, _⟩ := generate_eq_ok.mpr ⟨hds, hm⟩
          rw [hok] at h
          cases h
        · rw [generate_eq_error.mpr hf] at h
          obtain rfl := Except.error.inj h
          obtain ⟨rfl, rfl, rfl⟩ := ih.mp hrest
          exact ⟨rfl, rfl, rfl⟩
      · rintro ⟨rfl, rfl, rfl⟩
        exact .omitted (generate_eq_error.mp h) (ih.mpr ⟨rfl, rfl, rfl⟩)

theorem methods_generate :
    (Client.generate ops config).methods =
      (Client.contributions config.methodOptions ops).map (·.method) := by
  simp [Client.methods, Client.generate, Client.classOf]

theorem operationTypes_generate :
    (Client.generate ops config).operationTypes config =
      (Client.contributions config.methodOptions ops).flatMap (·.declarations) :=
  List.drop_left

theorem omissions_generate :
    (Client.generate ops config).omissions = Client.omissionsOf config.methodOptions ops := rfl

/-- **A client holds what its operations come to**, and nothing else. -/
theorem assembled_generate_iff {ms : List Method} {ts : List TypeDecl} {os : List Omission} :
    Assembled config.methodOptions ops ms ts os ↔
      ms = (Client.generate ops config).methods ∧
      ts = (Client.generate ops config).operationTypes config ∧
      os = (Client.generate ops config).omissions := by
  rw [methods_generate, operationTypes_generate, omissions_generate]
  exact assembled_iff

theorem assembled_generate (ops : List Operation) (config : Config) :
    Assembled config.methodOptions ops (Client.generate ops config).methods
      ((Client.generate ops config).operationTypes config)
      (Client.generate ops config).omissions :=
  assembled_generate_iff.mpr ⟨rfl, rfl, rfl⟩

/-- The module around what the operations add. -/
theorem module_generate :
    (Client.generate ops config).module =
      { imports := Client.imports config
        types := Client.runtimeTypes config ++ (Client.generate ops config).operationTypes config
        classes := [Client.classOf config (Client.generate ops config).methods] } := by
  rw [operationTypes_generate, methods_generate]
  rfl

/-- Without the operations that have a fault, the module is the same. -/
theorem generate_generated :
    Client.generate (Client.generated config.methodOptions ops) config =
      { module := (Client.generate ops config).module, omissions := [] } := by
  obtain ⟨hparts, hnone⟩ := contributions_generated config.methodOptions ops
  simp only [Client.generate, hparts, hnone]

/-- **A fault leaves no trace in the module.** Each operation of a list comes to its own method
and its own declarations or to one omission, in order; what two lists come to together is what
the one and the other come to; and without the operations that have a fault, the module and its
text are the same and nothing is left out. -/
theorem generate_isolates_faults (config : Config) (ops : List Operation) :
    (∀ ms ts os, Assembled config.methodOptions ops ms ts os ↔
      ms = (Client.generate ops config).methods ∧
      ts = (Client.generate ops config).operationTypes config ∧
      os = (Client.generate ops config).omissions) ∧
    (Client.generate ops config).module =
      { imports := Client.imports config
        types := Client.runtimeTypes config ++ (Client.generate ops config).operationTypes config
        classes := [Client.classOf config (Client.generate ops config).methods] } ∧
    (Client.generate ops config).methods.length + (Client.generate ops config).omissions.length =
      ops.length ∧
    ((Client.generate ops config).methods.map Method.name).Sublist
      (ops.map Operation.functionName) ∧
    ((Client.generate ops config).omissions.map Omission.operationId).Sublist
      (ops.map Operation.id) ∧
    (∀ xs : List Operation,
      (Client.generate (ops ++ xs) config).methods =
        (Client.generate ops config).methods ++ (Client.generate xs config).methods ∧
      (Client.generate (ops ++ xs) config).operationTypes config =
        (Client.generate ops config).operationTypes config ++
          (Client.generate xs config).operationTypes config ∧
      (Client.generate (ops ++ xs) config).omissions =
        (Client.generate ops config).omissions ++ (Client.generate xs config).omissions) ∧
    Client.generate (Client.generated config.methodOptions ops) config =
      { module := (Client.generate ops config).module, omissions := [] } ∧
    (Client.generate (Client.generated config.methodOptions ops) config).render =
      (Client.generate ops config).render := by
  have hparts := assembled_generate ops config
  refine ⟨fun _ _ _ => assembled_generate_iff, module_generate, hparts.length_add_length,
    hparts.methods_sublist, hparts.omissions_sublist, fun xs => ?_, generate_generated, ?_⟩
  · simp only [methods_generate, operationTypes_generate, omissions_generate,
      contributions_append, omissionsOf_append, List.map_append, List.flatMap_append, and_self]
  · rw [generate_generated]
    rfl

end Assembly

end TypedClient
