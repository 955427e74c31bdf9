import Mathlib.Data.List.Basic
import TypedClient.Number.Decimal
import TypedClient.Proofs.TypeScript.Parts

/-!
# Forms of types

Two types that differ in how their unions are nested are the same type: a union directly in a
union adds its members to it, a union of one member is that member, and the union without
members is the type without values. The form of a type is what is left when this is taken away,
with numbers as their digits.

What the text of a type says is another form. A union of one member has no text of its own, and
the parentheses rule goes by the type and not by its text, so the suffixes and the members that
follow a text may end up inside it.

## Main definitions

* `TypeForm`: the forms of types
* `TypeExpr.alternatives`, `TypeExpr.form`: the members of the form of a type, and the form
* `Suffix`, `suffixed`: what may follow an operand
* `TypeExpr.written`, `TypeExpr.writtenForm`: the members that the text of a type says with what
  follows it, and the form that it says

## Main results

* `TypeExpr.isUnion_of_mem_alternatives`: no union stands directly in a form
* `TypeExpr.form_union_cons`: a union of several types is one of several members
-/

namespace TypedClient.TypeScript

/-! ## Forms -/

/-- A type in which no union stands directly in a union and every union has several members. -/
inductive TypeForm
  | primitive (keyword : Primitive)
  | string (text : String)
  | numeral (text : String)
  | bool (value : Bool)
  | null
  | union (members : List TypeForm)
  | array (element : TypeForm)
  | object (properties : List (Property TypeForm))
  | named (name : String) (arguments : List TypeForm)
  | indexed (base index : TypeForm)
  | keyof (base : TypeForm)
  | function (typeParams : List (TypeParam TypeForm)) (params : List (Param TypeForm))
      (result : TypeForm)
  deriving Repr

namespace TypeForm

/-- The union of one or more members. -/
def ofMembers : List TypeForm → TypeForm
  | [v] => v
  | vs => .union vs

def isUnion : TypeForm → Bool
  | .union _ => true
  | _ => false

/-- The forms that are not an operand without parentheses. -/
def needsParens : TypeForm → Bool
  | .union _ => true
  | .keyof _ => true
  | .function .. => true
  | _ => false

/-- The forms that begin with more than an operand. -/
def isPrefixed : TypeForm → Bool
  | .keyof _ => true
  | .function .. => true
  | _ => false

theorem isUnion_ofMembers {vs : List TypeForm} (h : ∀ v ∈ vs.head?, v.isUnion = false) :
    (ofMembers vs).isUnion = false ↔ ∃ v, vs = [v] := by
  match vs with
  | [] => simp [ofMembers, isUnion]
  | [v] => simpa [ofMembers] using h
  | v :: w :: vs => simp [ofMembers, isUnion]

theorem ofMembers_inj {vs ws : List TypeForm} (hv : ∀ v ∈ vs.head?, v.isUnion = false)
    (hw : ∀ w ∈ ws.head?, w.isUnion = false) : ofMembers vs = ofMembers ws ↔ vs = ws := by
  refine ⟨fun h => ?_, congrArg ofMembers⟩
  match vs, ws with
  | [v], [w] => exact congrArg ([·]) h
  | [v], [] => simp [show v = union [] from h, isUnion] at hv
  | [v], w :: x :: ws => simp [show v = union _ from h, isUnion] at hv
  | [], [w] => simp [← show union [] = w from h, isUnion] at hw
  | v :: x :: vs, [w] => simp [← show union _ = w from h, isUnion] at hw
  | [], [] => rfl
  | [], w :: x :: ws => cases h
  | v :: x :: vs, [] => cases h
  | v :: x :: vs, w :: y :: ws => exact union.inj h

/-- `keyof` before the first of several members. -/
def keyofFirst : List TypeForm → List TypeForm
  | [] => []
  | v :: vs => .keyof v :: vs

theorem keyofFirst_eq_cons {vs ws : List TypeForm} {v : TypeForm} :
    keyofFirst vs = .keyof v :: ws ↔ vs = v :: ws := by
  cases vs <;> simp [keyofFirst]

theorem isKeyof_of_keyofFirst {vs ws : List TypeForm} {v : TypeForm}
    (h : keyofFirst vs = v :: ws) : ∃ w, v = .keyof w := by
  cases vs with
  | nil => cases h
  | cons w vs => exact ⟨w, (List.cons.inj h).1.symm⟩

end TypeForm

open TypeForm (ofMembers keyofFirst)

/-- The form of a constant. -/
def literalForm : Literal → TypeForm
  | .string text => .string text
  | .number value => .numeral (Decimal.text value)
  | .integer value => .numeral (Decimal.integerText value)
  | .bool value => .bool value
  | .null => .null

/-- The form that the text of a constant says: two of the numbers that are no numbers are
written like names. -/
def literalWrittenForm : Literal → TypeForm
  | .number .nan => .named "NaN" []
  | .number (.infinite false) => .named "inf" []
  | value => literalForm value

/-- What may follow the text of an operand. -/
inductive Suffix
  | array
  | index (form : TypeForm)

/-- An operand with a suffix. -/
def Suffix.on : Suffix → TypeForm → TypeForm
  | .array, v => .array v
  | .index i, v => .indexed v i

/-- An operand with suffixes, the nearest first. -/
def suffixed : List Suffix → TypeForm → TypeForm
  | [], v => v
  | s :: suffixes, v => suffixed suffixes (s.on v)

namespace TypeExpr

/-- The members of the form of a type. -/
def alternatives : TypeExpr → List TypeForm
  | .primitive keyword => [.primitive keyword]
  | .literal value => [literalForm value]
  | .union [] => [.primitive .never]
  | .union members => members.flatMap alternatives
  | .array element => [.array (ofMembers (alternatives element))]
  | .object properties =>
    [.object (properties.map fun p => ⟨p.name, ofMembers (alternatives p.type), p.optional⟩)]
  | .named name arguments => [.named name (arguments.map fun t => ofMembers (alternatives t))]
  | .indexed base index =>
    [.indexed (ofMembers (alternatives base)) (ofMembers (alternatives index))]
  | .keyof base => [.keyof (ofMembers (alternatives base))]
  | .function typeParams params result =>
    [.function
      (typeParams.map fun p =>
        ⟨p.name, p.bound.attach.map fun ⟨t, _⟩ => ofMembers (alternatives t)⟩)
      (params.map fun p =>
        ⟨p.name, p.type.attach.map fun ⟨t, _⟩ => ofMembers (alternatives t), p.optional⟩)
      (ofMembers (alternatives result))]
termination_by t => sizeOf t
decreasing_by
  all_goals first
    | exact sizeOf_lt_union ‹_›
    | exact sizeOf_lt_object ‹_›
    | exact sizeOf_lt_named ‹_›
    | exact sizeOf_lt_bound ‹_› ‹_›
    | exact sizeOf_lt_param ‹_› ‹_›
    | simp; try omega

/-- The form of a type. -/
def form (t : TypeExpr) : TypeForm :=
  ofMembers (alternatives t)

/-- Texts with `|` between each two, the last with what follows it: suffixes and then further
members. -/
def chain : List (List Suffix → List TypeForm → List TypeForm) → List Suffix → List TypeForm →
    List TypeForm
  | [], suffixes, others => suffixed suffixes (.primitive .never) :: others
  | [last], suffixes, others => last suffixes others
  | first :: rest, suffixes, others => first [] (chain rest suffixes others)

/-- A text, perhaps between parentheses, with what follows it. -/
def grouped (parens : Bool) (text : List Suffix → List TypeForm → List TypeForm)
    (suffixes : List Suffix) (others : List TypeForm) : List TypeForm :=
  if parens then suffixed suffixes (ofMembers (text [] [])) :: others else text suffixes others

/-- The members that the text of a type says, followed by the text of suffixes and then of
further members. The suffixes go to the last operand of the text, and a function takes all that
follows it into its result. -/
def written : TypeExpr → List Suffix → List TypeForm → List TypeForm
  | .primitive keyword, suffixes, others => suffixed suffixes (.primitive keyword) :: others
  | .literal value, suffixes, others => suffixed suffixes (literalWrittenForm value) :: others
  | .union members, suffixes, others => chain (members.map written) suffixes others
  | .array element, suffixes, others =>
    grouped element.needsParens (written element) (.array :: suffixes) others
  | .object properties, suffixes, others =>
    suffixed suffixes (.object (properties.map fun p =>
      ⟨p.name, ofMembers (written p.type [] []), p.optional⟩)) :: others
  | .named name arguments, suffixes, others =>
    suffixed suffixes (.named name (arguments.map fun t => ofMembers (written t [] []))) :: others
  | .indexed base index, suffixes, others =>
    grouped base.needsParens (written base)
      (.index (ofMembers (written index [] [])) :: suffixes) others
  | .keyof base, suffixes, others =>
    keyofFirst (grouped base.isCompound (written base) suffixes others)
  | .function typeParams params result, suffixes, others =>
    [.function
      (typeParams.map fun p =>
        ⟨p.name, p.bound.attach.map fun ⟨t, _⟩ => ofMembers (written t [] [])⟩)
      (params.map fun p =>
        ⟨p.name, p.type.attach.map fun ⟨t, _⟩ => ofMembers (written t [] []), p.optional⟩)
      (ofMembers (written result suffixes others))]
termination_by t => sizeOf t
decreasing_by
  all_goals first
    | exact sizeOf_lt_union ‹_›
    | exact sizeOf_lt_object ‹_›
    | exact sizeOf_lt_named ‹_›
    | exact sizeOf_lt_bound ‹_› ‹_›
    | exact sizeOf_lt_param ‹_› ‹_›
    | simp; try omega

/-- The form that the text of a type says. -/
def writtenForm (t : TypeExpr) : TypeForm :=
  ofMembers (written t [] [])

end TypeExpr

/-! ## The members of a form -/

theorem isUnion_literalForm (value : Literal) : (literalForm value).isUnion = false := by
  cases value <;> rfl

theorem map_attach (o : Option TypeExpr) (f : TypeExpr → TypeForm) :
    (o.attach.map fun ⟨t, _⟩ => f t) = o.map f :=
  Option.attach_map_val o f

namespace TypeExpr

@[simp]
theorem alternatives_union_singleton (t : TypeExpr) :
    (union [t]).alternatives = t.alternatives := by
  rw [alternatives]
  · exact List.flatMap_singleton alternatives t
  · exact fun h => nomatch h

@[simp]
theorem alternatives_union_cons (t u : TypeExpr) (ts : List TypeExpr) :
    (union (t :: u :: ts)).alternatives = t.alternatives ++ (union (u :: ts)).alternatives := by
  rw [alternatives, alternatives]
  · rfl
  · exact fun h => nomatch h
  · exact fun h => nomatch h

@[simp]
theorem alternatives_object (properties : List (Property TypeExpr)) :
    (object properties).alternatives =
      [.object (properties.map fun p => ⟨p.name, p.type.form, p.optional⟩)] := by
  rw [alternatives]
  rfl

@[simp]
theorem alternatives_named (name : String) (arguments : List TypeExpr) :
    (named name arguments).alternatives = [.named name (arguments.map form)] := by
  rw [alternatives]
  rfl

@[simp]
theorem alternatives_function (typeParams : List (TypeParam TypeExpr))
    (params : List (Param TypeExpr)) (result : TypeExpr) :
    (function typeParams params result).alternatives =
      [.function (typeParams.map fun p => ⟨p.name, p.bound.map form⟩)
        (params.map fun p => ⟨p.name, p.type.map form, p.optional⟩) result.form] := by
  rw [alternatives]
  simp only [map_attach _ fun t => ofMembers (alternatives t)]
  rfl

theorem written_function (typeParams : List (TypeParam TypeExpr))
    (params : List (Param TypeExpr)) (result : TypeExpr) (suffixes : List Suffix)
    (others : List TypeForm) :
    (function typeParams params result).written suffixes others =
      [.function (typeParams.map fun p => ⟨p.name, p.bound.map writtenForm⟩)
        (params.map fun p => ⟨p.name, p.type.map writtenForm, p.optional⟩)
        (ofMembers (result.written suffixes others))] := by
  rw [written]
  simp only [map_attach _ fun t => ofMembers (written t [] [])]
  rfl

@[simp]
theorem written_union_singleton (t : TypeExpr) (suffixes : List Suffix) (others : List TypeForm) :
    (union [t]).written suffixes others = t.written suffixes others := by
  rw [written]
  rfl

@[simp]
theorem written_union_cons (t u : TypeExpr) (ts : List TypeExpr) (suffixes : List Suffix)
    (others : List TypeForm) :
    (union (t :: u :: ts)).written suffixes others =
      t.written [] ((union (u :: ts)).written suffixes others) := by
  rw [written, written]
  rfl

theorem alternatives_ne_nil (t : TypeExpr) : t.alternatives ≠ [] := by
  induction t using TypeExpr.induction with
  | union_singleton t ih => simpa using ih
  | union_cons t u ts ih _ => simp [ih]
  | function typeParams params result => simp
  | _ => simp [alternatives]

/-- No member of a form is a union. -/
theorem isUnion_of_mem_alternatives (t : TypeExpr) : ∀ v ∈ t.alternatives, v.isUnion = false := by
  induction t using TypeExpr.induction with
  | literal value => simpa [alternatives] using isUnion_literalForm value
  | union_singleton t ih => simpa using ih
  | union_cons t u ts iht ihts =>
    rw [alternatives_union_cons]
    exact List.forall_mem_append.mpr ⟨iht, ihts⟩
  | function typeParams params result => simp [TypeForm.isUnion]
  | _ => simp [alternatives, TypeForm.isUnion]

/-- The form of a type is its only member, unless it has several. -/
theorem alternatives_eq_singleton {t : TypeExpr} (h : t.form.isUnion = false) :
    t.alternatives = [t.form] := by
  obtain ⟨v, hv⟩ := (TypeForm.isUnion_ofMembers fun v hv =>
    t.isUnion_of_mem_alternatives v (List.mem_of_mem_head? hv)).mp h
  rw [form, hv]
  rfl

/-- A union of several types has several members. -/
theorem form_union_cons (t u : TypeExpr) (ts : List TypeExpr) :
    (union (t :: u :: ts)).form = .union (union (t :: u :: ts)).alternatives := by
  have hfirst := t.alternatives_ne_nil
  have hrest := (union (u :: ts)).alternatives_ne_nil
  rw [form, alternatives_union_cons]
  match t.alternatives, (union (u :: ts)).alternatives, hfirst, hrest with
  | [v], w :: ws, _, _ => rfl
  | v :: x :: vs, w :: ws, _, _ => rfl

@[simp]
theorem form_union_singleton (t : TypeExpr) : (union [t]).form = t.form := by
  rw [form, alternatives_union_singleton, form]

end TypeExpr

end TypedClient.TypeScript
