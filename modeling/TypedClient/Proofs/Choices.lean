import Mathlib.Data.List.Forall2
import TypedClient.Proofs.Assembly

/-!
# What the choices of a user change

The choices decide how a client is presented and not which operations are in it or what their
requests are: whether the methods return promises, what their comments say, how the class is
called, and where the types of the runtime come from.

## Main definitions

* `SameApartFromChoices`: two methods that differ only in what the choices are about

## Main results

* `toMethod_sameApartFromChoices`: an operation has the same method under all choices, apart from
  what they are about
* `Assembled.change_options`: under other choices a list of operations comes to the same
  declarations and omissions, and to methods that are the same in this way
* `choices_change_presentation_only`: the same for two clients
-/

namespace TypedClient

open TypeScript

/-- Two methods, made under choices `c` and `d`, that differ only in what the choices are about:
whether the result is promised, and the comment. -/
structure SameApartFromChoices (c d : MethodOptions) (m n : Method) : Prop where
  name : m.name = n.name
  typeParams : m.typeParams = n.typeParams
  params : m.params = n.params
  body : m.body = n.body
  isDeprecated : m.isDeprecated = n.isDeprecated
  isAsync : m.isAsync = !c.sync ∧ n.isAsync = !d.sync
  /-- The comment does not depend on whether the result is promised. -/
  comment : c.extendedComment = d.extendedComment → m.comment = n.comment
  /-- Both return the same result, which is no promise by itself, and promise it unless they are
  synchronous. -/
  returnType : ∃ result : TypeExpr, (∀ value, result ≠ .promise value) ∧
    m.returnType = (if c.sync then result else .promise result) ∧
    n.returnType = (if d.sync then result else .promise result)

section OneOperation

variable {op : Operation} {c d : MethodOptions}

theorem selectContent_ne_promise {base : TypeExpr} (h : ∀ value, base ≠ .promise value)
    (contentTypes : List String) (choice : String) (value : TypeExpr) :
    selectContent base contentTypes choice ≠ .promise value := by
  unfold selectContent
  split
  · exact h value
  · exact nofun
  · exact nofun

theorem refUnion_ne_promise (names : List String) (value : TypeExpr) :
    refUnion names ≠ .promise value := by
  unfold refUnion
  split <;> exact nofun

/-- The result of an operation is no promise by itself. -/
theorem resultType_ne_promise (op : Operation) (value : TypeExpr) :
    op.resultType ≠ .promise value := by
  unfold Operation.resultType
  split
  · exact nofun
  · exact selectContent_ne_promise (refUnion_ne_promise _) _ _ value

/-- The choices do not decide whether an operation has a method. -/
theorem toMethod_eq_error_iff {fault : Fault} :
    op.toMethod c = .error fault ↔ op.toMethod d = .error fault := by
  rw [toMethod_eq_error, toMethod_eq_error]

/-- **An operation has the same method under all choices**, apart from what they are about. -/
theorem toMethod_sameApartFromChoices {m : Method} (d : MethodOptions)
    (h : op.toMethod c = .ok m) :
    ∃ n, op.toMethod d = .ok n ∧ SameApartFromChoices c d m n := by
  obtain ⟨stmts, hbody, rfl⟩ := toMethod_eq_ok.mp h
  refine ⟨_, toMethod_eq_ok.mpr ⟨stmts, hbody, rfl⟩, ?_⟩
  constructor
  case returnType => exact ⟨op.resultType, resultType_ne_promise op, rfl, rfl⟩
  case isAsync => exact ⟨rfl, rfl⟩
  case comment =>
    intro he
    simp only [Operation.methodComment, he]
  all_goals rfl

end OneOperation

/-- Under other choices, a list of operations comes to the same declarations and omissions, and
to the same methods apart from what the choices are about. -/
theorem Assembled.change_options {c : MethodOptions} (d : MethodOptions) {ops : List Operation}
    {ms : List Method} {ts : List TypeDecl} {os : List Omission} (h : Assembled c ops ms ts os) :
    ∃ ns, Assembled d ops ns ts os ∧ List.Forall₂ (SameApartFromChoices c d) ms ns := by
  induction h with
  | nil => exact ⟨[], .nil, .nil⟩
  | added hds hm _ ih =>
    obtain ⟨ns, hns, hsame⟩ := ih
    obtain ⟨n, hn, hmn⟩ := toMethod_sameApartFromChoices d hm
    exact ⟨n :: ns, .added hds hn hns, .cons hmn hsame⟩
  | omitted hf _ ih =>
    obtain ⟨ns, hns, hsame⟩ := ih
    exact ⟨ns, .omitted (hf.imp_right (And.imp_right toMethod_eq_error_iff.mp)) hns, hsame⟩

/-- **The choices change the presentation of a client only**: two clients of the same operations
leave out the same operations for the same faults, declare the same types for the operations, and
have the same methods one by one, apart from what the choices are about. -/
theorem choices_change_presentation_only (ops : List Operation) (c d : Config) :
    (Client.generate ops c).omissions = (Client.generate ops d).omissions ∧
      (Client.generate ops c).operationTypes c = (Client.generate ops d).operationTypes d ∧
      List.Forall₂ (SameApartFromChoices c.methodOptions d.methodOptions)
        (Client.generate ops c).methods (Client.generate ops d).methods := by
  have hc : Assembled c.methodOptions ops (Client.generate ops c).methods
      ((Client.generate ops c).operationTypes c) (Client.generate ops c).omissions :=
    assembled_generate ops c
  obtain ⟨ns, hd, hsame⟩ := hc.change_options d.methodOptions
  obtain ⟨rfl, htypes, homissions⟩ := assembled_generate_iff.mp hd
  exact ⟨homissions, htypes, hsame⟩

end TypedClient
