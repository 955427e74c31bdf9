import TypedClient.Declarations
import TypedClient.RuntimeContract

/-!
# Clients

A client is a class with one method for each operation, in a module with the types the
methods refer to. An operation for which no method can be made is left out and reported.

## Main definitions

* `Config`: what a user may choose
* `Operation.generate`: the method and the declarations of one operation
* `Client.generate`: the module of a list of operations, and the operations left out
-/

namespace TypedClient

open TypeScript

/-- What a user may choose about a client. -/
structure Config where
  className : String := "Client"
  sync : Bool := false
  extendedComment : Bool := false
  /-- The module to import the runtime contract from; it is declared if there is none. -/
  runtimeModule : Option String := none
  deriving DecidableEq, Repr

/-- The part of the choices that concerns the methods. -/
def Config.methodOptions (config : Config) : MethodOptions :=
  { sync := config.sync, extendedComment := config.extendedComment }

/-- What one operation adds to a module. -/
structure Contribution where
  declarations : List TypeDecl
  method : Method
  deriving Repr

/-- What an operation adds to a module. A fault of its declarations comes before a fault
of its method. -/
def Operation.generate (op : Operation) (options : MethodOptions) :
    Except Fault Contribution := do
  return { declarations := ← op.declarations, method := ← op.toMethod options }

/-- An operation that was left out. -/
structure Omission where
  operationId : String
  cause : Fault
  deriving DecidableEq, Repr

/-- A generated module with the operations left out of it. -/
structure Client where
  module : SourceModule
  omissions : List Omission
  deriving Repr

namespace Client

/-- The fields and the constructor of the class. -/
def prelude : String :=
  "\n".intercalate
    ["private baseUrl: string;",
      "constructor(private apiClient: ApiClient<RequestOption>, baseUrl: string) \x7b",
      "  this.baseUrl = baseUrl.replace(/\\/$/, \"\");",
      "\x7d"]

/-- What the operations add to the module, without those that have a fault. -/
def contributions (options : MethodOptions) (ops : List Operation) : List Contribution :=
  ops.filterMap fun op => (op.generate options).toOption

/-- The operations that have a fault. -/
def omissionsOf (options : MethodOptions) (ops : List Operation) : List Omission :=
  ops.filterMap fun op =>
    match op.generate options with
    | .ok _ => none
    | .error cause => some ⟨op.id, cause⟩

/-- The imports of a module: the runtime contract, if it is in another module. -/
def imports (config : Config) : List Import :=
  config.runtimeModule.toList.map fun source =>
    { items := ["ApiClient", "QueryParameters"], source, typeOnly := true }

/-- The types declared before those of the operations. -/
def runtimeTypes (config : Config) : List TypeDecl :=
  if config.runtimeModule.isSome then [] else runtimeContract config.sync

/-- The class with given methods. -/
def classOf (config : Config) (methods : List Method) : ClassDecl where
  name := config.className
  typeParams := [⟨"RequestOption", none⟩]
  prelude := [.raw prelude]
  methods := methods
  isExported := true

/-- The client of a list of operations, in their order. -/
def generate (ops : List Operation) (config : Config) : Client :=
  -- each operation is generated by itself, so a fault of one leaves the others alone
  let parts := contributions config.methodOptions ops
  { module :=
      { imports := imports config
        types := runtimeTypes config ++ parts.flatMap (·.declarations)
        classes := [classOf config (parts.map (·.method))] }
    omissions := omissionsOf config.methodOptions ops }

/-- Whether every operation is in the module. -/
def isComplete (client : Client) : Bool :=
  client.omissions.isEmpty

/-- The text of the module. -/
def render (client : Client) : String :=
  client.module.print

end Client

end TypedClient
