import TypedClient.Method
import TypedClient.Proofs.Routing

/-!
# Laws of method bodies

Only the address can keep a method from being made. With an address, the statements are
the address, the headers, the query if there is one, and the call that sends the request.

## Main definitions

* `Operation.requestFields`, `Operation.requestCall`: the description of the request, and
  the call that sends it
* `Operation.queryStmts`: the statement of the query, if there is one

## Main results

* `request_eq`: the call can always be made
* `body_eq_ok`, `body_eq_error`: the statements, and the only fault that leaves none
* `toMethod_eq_ok`, `toMethod_eq_error`: the same for the method
-/

namespace TypedClient

open TypeScript

namespace Operation

/-- The description of the request: the body and the query are in it if there are any. -/
def requestFields (op : Operation) : List (ObjectField Expr) :=
  [⟨"httpMethod", .text op.httpMethod.name⟩, ⟨"url", .ident "url"⟩,
      ⟨"headers", .ident "headers"⟩]
    ++ (if op.shape.hasBody then [⟨"requestBody", .member (.ident "params") "requestBody"⟩]
      else [])
    ++ if op.shape.hasQuery then [⟨"queryParameters", .ident "queryParameters"⟩] else []

/-- The call that sends the request. -/
def requestCall (op : Operation) : Expr :=
  .call (.member (.member .this "apiClient") "request")
    [.object op.requestFields true, .ident "option"]

/-- The object of the query parameters. -/
def queryExpr (op : Operation) : Expr :=
  .object ((op.parametersIn .query).map queryField) true

/-- The statement of the query, if there is a query parameter. -/
def queryStmts (op : Operation) : List Stmt :=
  if op.shape.hasQuery then
    [.const "queryParameters" (some (.ref "QueryParameters")) op.queryExpr]
  else []

end Operation

variable {op : Operation}

theorem query?_eq (op : Operation) :
    op.query? = if op.shape.hasQuery then some op.queryExpr else none := rfl

theorem hasQuery_iff : op.shape.hasQuery = true ↔ ∃ p ∈ op.parameters, p.location = .query := by
  simp [Operation.shape]

theorem hasBody_iff : op.shape.hasBody = true ↔ op.requestBody.isSome := by
  simp [Operation.shape]

theorem mem_requestFields {f : ObjectField Expr} :
    f ∈ op.requestFields ↔
      f = ⟨"httpMethod", .text op.httpMethod.name⟩ ∨ f = ⟨"url", .ident "url"⟩ ∨
      f = ⟨"headers", .ident "headers"⟩ ∨
      op.shape.hasBody = true ∧ f = ⟨"requestBody", .member (.ident "params") "requestBody"⟩ ∨
      op.shape.hasQuery = true ∧ f = ⟨"queryParameters", .ident "queryParameters"⟩ := by
  simp only [Operation.requestFields, List.mem_append, List.mem_ite_nil_right, List.mem_cons,
    List.not_mem_nil, or_false, or_assoc]

/-- **The call that sends the request can always be made.** -/
theorem request_eq (op : Operation) : op.request = .ok op.requestCall := by
  have hq : op.query?.isSome = op.shape.hasQuery := by
    rw [query?_eq]
    cases op.shape.hasQuery <;> rfl
  rw [Operation.request, Operation.requestCall, Operation.requestFields, hq]
  cases op.shape.hasBody <;> cases op.shape.hasQuery <;> rfl

/-- **The statements of a body**, in their order, after an address that could be made. -/
theorem body_eq_ok {stmts : List Stmt} :
    op.body = .ok stmts ↔ ∃ url headers, op.url = .ok url ∧
      objectLiteral op.headers [] = .ok headers ∧
      stmts = [.const "url" none url, .const "headers" none headers] ++ op.queryStmts
        ++ [.return (some op.requestCall)] := by
  have hq : (op.query?.toList.map fun q =>
      Stmt.const "queryParameters" (some (.ref "QueryParameters")) q) = op.queryStmts := by
    rw [query?_eq, Operation.queryStmts]
    cases op.shape.hasQuery <;> rfl
  simp only [Operation.body, bind_eq_ok, request_eq, hq, Except.ok.injEq, exists_eq_left',
    pure_eq_ok, eq_comm (a := stmts), exists_and_left]

/-- **Only a fault of the address leaves an operation without a body.** -/
theorem body_eq_error {f : Fault} : op.body = .error f ↔ op.url = .error f := by
  obtain ⟨fs, hfs, _⟩ := exists_headersObject op
  simp only [Operation.body, bind_eq_error, request_eq, hfs, Except.ok.injEq, reduceCtorEq,
    pure_ne_error, and_false, exists_false, or_false]

theorem toMethod_eq_ok {options : MethodOptions} {m : Method} :
    op.toMethod options = .ok m ↔ ∃ stmts, op.body = .ok stmts ∧
      m = {
        name := op.functionName
        typeParams := op.typeParams
        params := methodParams op.paramsName op.shape
        returnType := op.returnType options.sync
        body := stmts
        isAsync := !options.sync
        comment := op.methodComment options
        isDeprecated := op.isDeprecated } := by
  simp only [Operation.toMethod, bind_eq_ok, pure_eq_ok, eq_comm (a := m)]

theorem toMethod_eq_error {options : MethodOptions} {f : Fault} :
    op.toMethod options = .error f ↔ op.body = .error f := by
  simp only [Operation.toMethod, bind_eq_error, pure_ne_error, and_false, exists_false,
    or_false]

end TypedClient
