import TypedClient.Method
import TypedClient.TypeScript.Printer.Module

/-!
# Declarations

The types a method refers to are declared beside it: its parameters, its request body and
its responses by content type, the choices of content types, and the structured argument.

## Main definitions

* `contentProperties`: one member for each content type
* `Operation.declarations`: the declarations of an operation, in a fixed order
* `interfaceText`: a single interface, printed
-/

namespace TypedClient

open TypeScript

/-- One required member for each schema of a map. -/
def contentProperties : List (String × Schema) → Except Fault (List (Property TypeExpr))
  | [] => .ok []
  | (key, schema) :: es =>
    return ⟨key, ← schema.toType, false⟩ :: (← contentProperties es)

/-- One member for each parameter, optional unless the parameter is required. -/
def parameterProperties : List Parameter → Except Fault (List (Property TypeExpr))
  | [] => .ok []
  | p :: ps => return ⟨p.name, ← p.schema.toType, !p.required⟩ :: (← parameterProperties ps)

/-- An interface with one member for each schema, printed. -/
def interfaceText (name : String) (schemas : OrderedMap Schema) : Except Fault String := do
  let properties ← contentProperties schemas.entries
  return TypeDecl.print { name, body := .interfaceOf properties }

namespace Operation

/-- The interface of all parameters. -/
def parameterDecls (op : Operation) : Except Fault (List TypeDecl) :=
  if op.shape.hasParameters then
    return [.exportedInterface op.parameterName (← parameterProperties op.parameters)]
  else return []

/-- The interface of the request body, one member for each content type. -/
def requestBodyDecls (op : Operation) : Except Fault (List TypeDecl) :=
  match op.requestBody with
  | none => return []
  | some body =>
    return [.exportedInterface op.requestBodyName (← contentProperties body.content.entries)]

/-- The interfaces of given responses, one member for each content type. -/
def responseDeclsOf (op : Operation) : List Response → Except Fault (List TypeDecl)
  | [] => .ok []
  | r :: rs => do
    let properties ← contentProperties r.content.entries
    return .exportedInterface (op.responseName r) properties :: (← responseDeclsOf op rs)

/-- The choice of a content type for the request body. -/
def requestChoiceDecls (op : Operation) : List TypeDecl :=
  if op.shape.hasBody then
    [.exportedAlias op.requestContentTypeName (.keyof (.ref op.requestBodyName))]
  else []

/-- The choice of a content type for the responses: a content type of one of them. -/
def responseChoiceDecls (op : Operation) : List TypeDecl :=
  match op.responseNames with
  | [] => []
  | [only] => [.exportedAlias op.responseContentTypeName (.keyof (.ref only))]
  | names =>
    [.exportedAlias op.responseContentTypeName (.union (names.map fun n => .keyof (.ref n)))]

/-- The members of the structured argument's headers: the choices that are left to the
caller. -/
def choiceProperties (shape : Shape) : List (Property TypeExpr) :=
  (if shape.hasRequestChoice then [⟨"Content-Type", .ref requestChoice, false⟩] else [])
    ++ if shape.hasResponseChoice then [⟨"Accept", .ref responseChoice, false⟩] else []

/-- The members of the structured argument: the parameters, the chosen content types and
the request body, as far as there are any. -/
def paramsProperties (op : Operation) : List (Property TypeExpr) :=
  let choices := choiceProperties op.shape
  let body := selectContent (.ref op.requestBodyName) op.requestContentTypes requestChoice
  (if op.shape.hasParameters then [⟨"parameter", .ref op.parameterName, false⟩] else [])
    ++ (if choices.isEmpty then [] else [⟨"headers", .object choices, false⟩])
    ++ if op.shape.hasBody then [⟨"requestBody", body, false⟩] else []

/-- The interface of the structured argument. -/
def paramsDecls (op : Operation) : List TypeDecl :=
  if op.shape.needsParams then
    [{ name := op.paramsName, typeParams := op.typeParams,
       body := .interfaceOf op.paramsProperties, isExported := true }]
  else []

/-- The declarations of an operation: parameters, request body, responses, the two
choices of content types, and the structured argument. -/
def declarations (op : Operation) : Except Fault (List TypeDecl) := do
  let parameter ← op.parameterDecls
  let body ← op.requestBodyDecls
  let responses ← op.responseDeclsOf op.responses
  return parameter ++ body ++ responses ++ op.requestChoiceDecls ++ op.responseChoiceDecls
    ++ op.paramsDecls

end Operation

end TypedClient
