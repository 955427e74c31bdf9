import Mathlib.Data.List.Basic
import TypedClient.Operation

/-!
# Names of declared types

The types that are declared for an operation come in families. A name begins with the tag of its
family, and no tag is the beginning of another one, so a name says of which family it is.

## Main definitions

* `Family`: the families of declared types

## Main results

* `Family.tag_append_inj`: equal names are of one family, and equal after its tag
* `Operation.responseName_inj`: the responses of an operation are named by their status
-/

namespace TypedClient

/-- The families of types that are declared for operations. -/
inductive Family
  | parameter
  | requestBody
  | response
  | requestChoice
  | responseChoice
  | params
  deriving DecidableEq, Repr

namespace Family

/-- What the names of a family begin with. -/
def tag : Family → String
  | parameter => "Parameter$"
  | requestBody => "RequestBody$"
  | response => "Response$"
  | requestChoice => "RequestContentType$"
  | responseChoice => "ResponseContentType$"
  | params => "Params$"

theorem tag_incomparable {f g : Family} (h : f ≠ g) : ¬ f.tag.toList <+: g.tag.toList := by
  cases f <;> cases g <;> first | exact absurd rfl h | decide

/-- **Equal names are of one family**, and equal after its tag. -/
theorem tag_append_inj {f g : Family} {x y : String} :
    f.tag ++ x = g.tag ++ y ↔ f = g ∧ x = y := by
  constructor
  · intro h
    by_cases hfg : f = g
    · subst hfg
      exact ⟨rfl, String.append_right_inj _ |>.mp h⟩
    · -- one of the two tags would be the beginning of the other one
      have hf : f.tag.toList <+: (g.tag ++ y).toList := by
        rw [← h, String.toList_append]
        exact List.prefix_append ..
      have hg : g.tag.toList <+: (g.tag ++ y).toList := by
        rw [String.toList_append]
        exact List.prefix_append ..
      rcases List.prefix_or_prefix_of_prefix hf hg with h | h
      · exact absurd h (tag_incomparable hfg)
      · exact absurd h (tag_incomparable (Ne.symm hfg))
  · rintro ⟨rfl, rfl⟩
    rfl

end Family

namespace Operation

variable (op : Operation)

theorem parameterName_eq : op.parameterName = Family.parameter.tag ++ op.functionName := rfl

theorem requestBodyName_eq : op.requestBodyName = Family.requestBody.tag ++ op.functionName := rfl

theorem responseName_eq (r : Response) :
    op.responseName r = Family.response.tag ++ (op.functionName ++ "$Status$" ++ r.status) := by
  rw [responseName, String.append_assoc, String.append_assoc, String.append_assoc]
  rfl

theorem requestContentTypeName_eq :
    op.requestContentTypeName = Family.requestChoice.tag ++ op.functionName := rfl

theorem responseContentTypeName_eq :
    op.responseContentTypeName = Family.responseChoice.tag ++ op.functionName := rfl

theorem paramsName_eq : op.paramsName = Family.params.tag ++ op.functionName := rfl

variable {op}

/-- **The responses of an operation are named by their status.** -/
theorem responseName_inj {r s : Response} :
    op.responseName r = op.responseName s ↔ r.status = s.status := by
  rw [responseName, responseName, String.append_right_inj]

end Operation

end TypedClient
