import TypedClient.TypeScript.Module

/-!
# Parts of types and expressions

The types that occur in a type and the expressions that occur in an expression, at any
depth, and those a method or a declaration is written with.

## Main definitions

* `TypeExpr.parts`, `Expr.parts`: all types in a type, all expressions in an expression
* `Method.types`, `TypeDecl.types`: the types a method or a declaration is written with
* `Stmt.exprs`: the expressions of a statement
* `Expr.path?`: the root and the keys of an access path

## Main results

* `TypeExpr.parts_union`, `TypeExpr.parts_object` and the like: the parts of a list of
  types are those of its members
* `TypeExpr.forall_parts_union`, `TypeExpr.forall_parts_object` and the like: what holds of
  all parts
* `TypeExpr.induction`: what holds of a type if it holds of the types it is made of
-/

namespace TypedClient.TypeScript

/-! ## Types -/

namespace TypeExpr

section Size

variable {t : TypeExpr} {name : String} {types : List TypeExpr}
  {typeParams : List (TypeParam TypeExpr)} {params : List (Param TypeExpr)} {result : TypeExpr}

theorem sizeOf_lt_union (h : t ∈ types) : sizeOf t < sizeOf (union types) := by
  have := List.sizeOf_lt_of_mem h
  simp only [union.sizeOf_spec]
  omega

theorem sizeOf_lt_named (h : t ∈ types) : sizeOf t < sizeOf (named name types) := by
  have := List.sizeOf_lt_of_mem h
  simp only [named.sizeOf_spec]
  omega

theorem sizeOf_lt_object {p : Property TypeExpr} {properties : List (Property TypeExpr)}
    (h : p ∈ properties) : sizeOf p.type < sizeOf (object properties) := by
  have := List.sizeOf_lt_of_mem h
  obtain ⟨name, type, optional⟩ := p
  simp only [Property.mk.sizeOf_spec, object.sizeOf_spec] at this ⊢
  omega

theorem sizeOf_lt_bound {p : TypeParam TypeExpr} (h : p ∈ typeParams) (ht : t ∈ p.bound) :
    sizeOf t < sizeOf (function typeParams params result) := by
  have := List.sizeOf_lt_of_mem h
  obtain ⟨name, bound⟩ := p
  obtain rfl : bound = some t := ht
  simp only [TypeParam.mk.sizeOf_spec, Option.some.sizeOf_spec, function.sizeOf_spec] at this ⊢
  omega

theorem sizeOf_lt_param {p : Param TypeExpr} (h : p ∈ params) (ht : t ∈ p.type) :
    sizeOf t < sizeOf (function typeParams params result) := by
  have := List.sizeOf_lt_of_mem h
  obtain ⟨name, type, optional⟩ := p
  obtain rfl : type = some t := ht
  simp only [Param.mk.sizeOf_spec, Option.some.sizeOf_spec, function.sizeOf_spec] at this ⊢
  omega

end Size

/-- **What holds of a type if it holds of the types it is made of**, in lists and options of any
kind, holds of every type. A union is taken apart from the front, as long as it has two members. -/
theorem induction {P : TypeExpr → Prop} (primitive : ∀ keyword, P (.primitive keyword))
    (literal : ∀ value, P (.literal value)) (union_nil : P (.union []))
    (union_singleton : ∀ t, P t → P (.union [t]))
    (union_cons : ∀ t u ts, P t → P (.union (u :: ts)) → P (.union (t :: u :: ts)))
    (array : ∀ element, P element → P (.array element))
    (object : ∀ properties, (∀ p ∈ properties, P p.type) → P (.object properties))
    (named : ∀ name arguments, (∀ t ∈ arguments, P t) → P (.named name arguments))
    (indexed : ∀ base index, P base → P index → P (.indexed base index))
    (keyof : ∀ base, P base → P (.keyof base))
    (function : ∀ typeParams params result, (∀ p ∈ typeParams, ∀ t ∈ p.bound, P t) →
      (∀ p ∈ params, ∀ t ∈ p.type, P t) → P result → P (.function typeParams params result))
    (t : TypeExpr) : P t := by
  -- on the size, since the lists and options hide the types they hold from a structural recursion
  induction h : sizeOf t using Nat.strongRecOn generalizing t with
  | ind n ih =>
    subst h
    have smaller : ∀ u : TypeExpr, sizeOf u < sizeOf t → P u := fun u hu => ih _ hu u rfl
    match t with
    | .primitive keyword => exact primitive keyword
    | .literal value => exact literal value
    | .union [] => exact union_nil
    | .union [t] => exact union_singleton t (smaller t (sizeOf_lt_union (by simp)))
    | .union (t :: u :: ts) =>
      exact union_cons t u ts (smaller t (sizeOf_lt_union (by simp)))
        (smaller _ (by simp only [TypeExpr.union.sizeOf_spec, List.cons.sizeOf_spec]; omega))
    | .array element =>
      exact array element (smaller element (by simp only [TypeExpr.array.sizeOf_spec]; omega))
    | .object properties => exact object properties fun p hp => smaller _ (sizeOf_lt_object hp)
    | .named name arguments =>
      exact named name arguments fun u hu => smaller u (sizeOf_lt_named hu)
    | .indexed base index =>
      exact indexed base index (smaller base (by simp only [TypeExpr.indexed.sizeOf_spec]; omega))
        (smaller index (by simp only [TypeExpr.indexed.sizeOf_spec]; omega))
    | .keyof base =>
      exact keyof base (smaller base (by simp only [TypeExpr.keyof.sizeOf_spec]; omega))
    | .function typeParams params result =>
      exact function typeParams params result
        (fun p hp u hu => smaller u (sizeOf_lt_bound hp hu))
        (fun p hp u hu => smaller u (sizeOf_lt_param hp hu))
        (smaller result (by simp only [TypeExpr.function.sizeOf_spec]; omega))

mutual

/-- All types that occur in a type, itself included. -/
def parts : TypeExpr → List TypeExpr
  | .primitive keyword => [.primitive keyword]
  | .literal value => [.literal value]
  | .union members => .union members :: partsOfAll members
  | .array element => .array element :: parts element
  | .object properties => .object properties :: partsOfProperties properties
  | .named name arguments => .named name arguments :: partsOfAll arguments
  | .indexed base index => .indexed base index :: (parts base ++ parts index)
  | .keyof base => .keyof base :: parts base
  | .function typeParams params result =>
    .function typeParams params result ::
      (partsOfTypeParams typeParams ++ partsOfParams params ++ parts result)

/-- The types that occur in several types. -/
def partsOfAll : List TypeExpr → List TypeExpr
  | [] => []
  | t :: ts => parts t ++ partsOfAll ts

/-- The types that occur in members. -/
def partsOfProperties : List (Property TypeExpr) → List TypeExpr
  | [] => []
  | ⟨_, type, _⟩ :: ps => parts type ++ partsOfProperties ps

/-- The types that occur in type parameters. -/
def partsOfTypeParams : List (TypeParam TypeExpr) → List TypeExpr
  | [] => []
  | ⟨_, bound⟩ :: ps => partsOfOptional bound ++ partsOfTypeParams ps

/-- The types that occur in parameters. -/
def partsOfParams : List (Param TypeExpr) → List TypeExpr
  | [] => []
  | ⟨_, type, _⟩ :: ps => partsOfOptional type ++ partsOfParams ps

/-- The types that occur in a type that may be absent. -/
def partsOfOptional : Option TypeExpr → List TypeExpr
  | none => []
  | some type => parts type

end

theorem partsOfAll_eq (types : List TypeExpr) : partsOfAll types = types.flatMap parts := by
  induction types with
  | nil => rfl
  | cons t ts ih => rw [partsOfAll, ih, List.flatMap_cons]

theorem partsOfProperties_eq (properties : List (Property TypeExpr)) :
    partsOfProperties properties = properties.flatMap (parts ·.type) := by
  induction properties with
  | nil => rfl
  | cons p ps ih => rw [partsOfProperties, ih, List.flatMap_cons]

theorem partsOfOptional_eq (type : Option TypeExpr) :
    partsOfOptional type = type.toList.flatMap parts := by
  cases type with
  | none => rfl
  | some t => simp [partsOfOptional]

theorem partsOfTypeParams_eq (typeParams : List (TypeParam TypeExpr)) :
    partsOfTypeParams typeParams = typeParams.flatMap (·.bound.toList.flatMap parts) := by
  induction typeParams with
  | nil => rfl
  | cons p ps ih => rw [partsOfTypeParams, ih, partsOfOptional_eq, List.flatMap_cons]

theorem partsOfParams_eq (params : List (Param TypeExpr)) :
    partsOfParams params = params.flatMap (·.type.toList.flatMap parts) := by
  induction params with
  | nil => rfl
  | cons p ps ih => rw [partsOfParams, ih, partsOfOptional_eq, List.flatMap_cons]

@[simp]
theorem parts_primitive (keyword : Primitive) :
    (primitive keyword).parts = [primitive keyword] := rfl

@[simp]
theorem parts_literal (value : Literal) : (literal value).parts = [literal value] := rfl

@[simp]
theorem parts_union (members : List TypeExpr) :
    (union members).parts = union members :: members.flatMap parts := by
  rw [parts, partsOfAll_eq]

@[simp]
theorem parts_array (element : TypeExpr) :
    (array element).parts = array element :: element.parts := rfl

@[simp]
theorem parts_object (properties : List (Property TypeExpr)) :
    (object properties).parts = object properties :: properties.flatMap (parts ·.type) := by
  rw [parts, partsOfProperties_eq]

@[simp]
theorem parts_named (name : String) (arguments : List TypeExpr) :
    (named name arguments).parts = named name arguments :: arguments.flatMap parts := by
  rw [parts, partsOfAll_eq]

@[simp]
theorem parts_indexed (base index : TypeExpr) :
    (indexed base index).parts = indexed base index :: (base.parts ++ index.parts) := rfl

@[simp]
theorem parts_keyof (base : TypeExpr) : (keyof base).parts = keyof base :: base.parts := rfl

@[simp]
theorem parts_function (typeParams : List (TypeParam TypeExpr)) (params : List (Param TypeExpr))
    (result : TypeExpr) :
    (function typeParams params result).parts = function typeParams params result ::
      (typeParams.flatMap (·.bound.toList.flatMap parts) ++
        params.flatMap (·.type.toList.flatMap parts) ++ result.parts) := by
  rw [parts, partsOfTypeParams_eq, partsOfParams_eq]

section Forall

variable {P : TypeExpr → Prop} {types : List TypeExpr} {t : TypeExpr}

theorem forall_parts_union :
    (∀ u ∈ (union types).parts, P u) ↔ P (union types) ∧ ∀ t ∈ types, ∀ u ∈ t.parts, P u := by
  rw [parts_union, List.forall_mem_cons, List.forall_mem_flatMap]

theorem forall_parts_array :
    (∀ u ∈ (array t).parts, P u) ↔ P (array t) ∧ ∀ u ∈ t.parts, P u := by
  rw [parts_array, List.forall_mem_cons]

theorem forall_parts_object {properties : List (Property TypeExpr)} :
    (∀ u ∈ (object properties).parts, P u) ↔
      P (object properties) ∧ ∀ p ∈ properties, ∀ u ∈ p.type.parts, P u := by
  rw [parts_object, List.forall_mem_cons, List.forall_mem_flatMap]

theorem forall_parts_named {name : String} :
    (∀ u ∈ (named name types).parts, P u) ↔
      P (named name types) ∧ ∀ t ∈ types, ∀ u ∈ t.parts, P u := by
  rw [parts_named, List.forall_mem_cons, List.forall_mem_flatMap]

theorem forall_parts_indexed {index : TypeExpr} :
    (∀ u ∈ (indexed t index).parts, P u) ↔
      P (indexed t index) ∧ (∀ u ∈ t.parts, P u) ∧ ∀ u ∈ index.parts, P u := by
  rw [parts_indexed, List.forall_mem_cons, List.forall_mem_append]

theorem forall_parts_keyof :
    (∀ u ∈ (keyof t).parts, P u) ↔ P (keyof t) ∧ ∀ u ∈ t.parts, P u := by
  rw [parts_keyof, List.forall_mem_cons]

theorem forall_parts_function {typeParams : List (TypeParam TypeExpr)}
    {params : List (Param TypeExpr)} :
    (∀ u ∈ (function typeParams params t).parts, P u) ↔
      P (function typeParams params t) ∧
        (∀ p ∈ typeParams, ∀ b ∈ p.bound, ∀ u ∈ b.parts, P u) ∧
        (∀ p ∈ params, ∀ b ∈ p.type, ∀ u ∈ b.parts, P u) ∧ ∀ u ∈ t.parts, P u := by
  simp only [parts_function, List.forall_mem_cons, List.forall_mem_append, List.forall_mem_flatMap,
    Option.mem_toList, Option.mem_def, and_assoc]

end Forall

end TypeExpr

/-- The type a statement is annotated with. -/
def Stmt.type? : Stmt → Option TypeExpr
  | .const _ type _ => type
  | _ => none

/-- The types a method is written with: the bounds of its type parameters, the types of
its parameters, its return type, and the annotations in its body. -/
def Method.types (m : Method) : List TypeExpr :=
  m.typeParams.filterMap (·.bound) ++ m.params.filterMap (·.type) ++ [m.returnType]
    ++ m.body.filterMap Stmt.type?

/-- The types behind a declared name. -/
def TypeBody.types : TypeBody → List TypeExpr
  | .interfaceOf properties => properties.map (·.type)
  | .aliasOf type => [type]

/-- The types a declaration is written with: the bounds of its type parameters, and the
types behind its name. -/
def TypeDecl.types (d : TypeDecl) : List TypeExpr :=
  d.typeParams.filterMap (·.bound) ++ d.body.types

/-! ## Expressions -/

namespace Expr

mutual

/-- All expressions that occur in an expression, itself included. -/
def parts : Expr → List Expr
  | .ident name => [.ident name]
  | .this => [.this]
  | .literal value => [.literal value]
  | .member receiver name => .member receiver name :: parts receiver
  | .element receiver key => .element receiver key :: parts receiver
  | .object fields spread => .object fields spread :: partsOfFields fields
  | .template value => .template value :: partsOfTemplate value
  | .plus left right => .plus left right :: (parts left ++ parts right)
  | .call function arguments =>
    .call function arguments :: (parts function ++ partsOfAll arguments)

/-- The expressions that occur in several expressions. -/
def partsOfAll : List Expr → List Expr
  | [] => []
  | e :: es => parts e ++ partsOfAll es

/-- The expressions that occur in entries. -/
def partsOfFields : List (ObjectField Expr) → List Expr
  | [] => []
  | ⟨_, value⟩ :: fs => parts value ++ partsOfFields fs

/-- The expressions that occur in a template. -/
def partsOfTemplate : Template Expr → List Expr
  | ⟨_, spans⟩ => partsOfSpans spans

/-- The expressions that occur in substitutions. -/
def partsOfSpans : List (Span Expr) → List Expr
  | [] => []
  | ⟨expr, _⟩ :: ss => parts expr ++ partsOfSpans ss

end

theorem partsOfAll_eq (es : List Expr) : partsOfAll es = es.flatMap parts := by
  induction es with
  | nil => rfl
  | cons e es ih => rw [partsOfAll, ih, List.flatMap_cons]

theorem partsOfFields_eq (fs : List (ObjectField Expr)) :
    partsOfFields fs = fs.flatMap (parts ·.value) := by
  induction fs with
  | nil => rfl
  | cons f fs ih => rw [partsOfFields, ih, List.flatMap_cons]

theorem partsOfSpans_eq (ss : List (Span Expr)) :
    partsOfSpans ss = ss.flatMap (parts ·.expr) := by
  induction ss with
  | nil => rfl
  | cons s ss ih => rw [partsOfSpans, ih, List.flatMap_cons]

@[simp]
theorem parts_ident (name : String) : (ident name).parts = [ident name] := rfl

@[simp]
theorem parts_this : this.parts = [this] := rfl

@[simp]
theorem parts_literal (value : Literal) : (literal value).parts = [literal value] := rfl

@[simp]
theorem parts_member (receiver : Expr) (name : String) :
    (member receiver name).parts = member receiver name :: receiver.parts := rfl

@[simp]
theorem parts_element (receiver : Expr) (key : String) :
    (element receiver key).parts = element receiver key :: receiver.parts := rfl

@[simp]
theorem parts_object (fields : List (ObjectField Expr)) (spread : Bool) :
    (object fields spread).parts =
      object fields spread :: fields.flatMap (parts ·.value) := by
  rw [parts, partsOfFields_eq]

@[simp]
theorem parts_template (t : Template Expr) :
    (template t).parts = template t :: t.spans.flatMap (parts ·.expr) := by
  rw [parts, partsOfTemplate, partsOfSpans_eq]

@[simp]
theorem parts_plus (left right : Expr) :
    (plus left right).parts = plus left right :: (left.parts ++ right.parts) := rfl

@[simp]
theorem parts_call (function : Expr) (arguments : List Expr) :
    (call function arguments).parts =
      call function arguments :: (function.parts ++ arguments.flatMap parts) := by
  rw [parts, partsOfAll_eq]

/-- The root and the keys of an access path: members and elements of a variable. -/
def path? : Expr → Option (String × List String)
  | .ident name => some (name, [])
  | .member receiver name => (path? receiver).map fun p => (p.1, p.2 ++ [name])
  | .element receiver key => (path? receiver).map fun p => (p.1, p.2 ++ [key])
  | _ => none

end Expr

/-- The expressions of a statement. -/
def Stmt.exprs : Stmt → List Expr
  | .const _ _ value => [value]
  | .expr value => [value]
  | .return value => value.toList
  | .raw _ => []

end TypedClient.TypeScript
