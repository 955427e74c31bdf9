import TypedClient.Operation
import TypedClient.TypeScript.Module

/-!
# The runtime contract

The types by which a generated client and the code that sends its requests agree. They
are declared in the module unless it imports them.

## Main definitions

* `requestMethods`: the request methods that the contract lists
* `queryStyles`: the styles a query parameter may have
* `runtimeContract`: the declarations

## Main results

* `requestMethods_eq`: the listed methods are the names of all methods
-/

namespace TypedClient

open TypeScript

/-- The request methods, as the contract lists them. -/
def requestMethods : List String :=
  ["GET", "PUT", "POST", "DELETE", "OPTIONS", "HEAD", "PATCH", "TRACE"]

/-- The contract has a list of its own, which agrees with the methods that an operation may have. -/
theorem requestMethods_eq : requestMethods = HttpMethod.all.map (·.name) := rfl

theorem name_mem_requestMethods (m : HttpMethod) : m.name ∈ requestMethods :=
  requestMethods_eq ▸ List.mem_map_of_mem m.mem_all

/-- The styles a query parameter may have. -/
def queryStyles : List Style :=
  [.form, .spaceDelimited, .pipeDelimited, .deepObject]

/-- The function type of sending a request, whose result is promised unless requests are
synchronous. -/
def requestType (sync : Bool) : TypeExpr :=
  .function [⟨"T", none⟩]
    [⟨"requestArgs", some (.ref "RequestArgs"), false⟩,
      ⟨"options", some (.ref "RequestOption"), true⟩]
    (if sync then .ref "T" else .promise (.ref "T"))

/-- The declarations of the runtime contract: the request methods, a query parameter and
the query, the request, and the client that sends it. -/
def runtimeContract (sync : Bool) : List TypeDecl :=
  [.exportedAlias "HttpMethod" (.union (requestMethods.map .text)),
    .exportedInterface "QueryParameter"
      [⟨"value", .any, false⟩,
        ⟨"style", .union (queryStyles.map fun s => .text s.name), true⟩,
        ⟨"explode", .boolean, false⟩],
    .exportedAlias "QueryParameters" (.named "Record" [.string, .ref "QueryParameter"]),
    .exportedInterface "RequestArgs"
      [⟨"httpMethod", .ref "HttpMethod", false⟩,
        ⟨"url", .string, false⟩,
        ⟨"headers", .named "Record" [.string, .any], false⟩,
        ⟨"requestBody", .any, true⟩,
        ⟨"queryParameters", .ref "QueryParameters", true⟩],
    { name := "ApiClient", typeParams := [⟨"RequestOption", none⟩],
      body := .interfaceOf [⟨"request", requestType sync, false⟩], isExported := true }]

end TypedClient
