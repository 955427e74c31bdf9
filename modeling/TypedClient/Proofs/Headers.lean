import TypedClient.Proofs.ContentTypes
import TypedClient.Proofs.ObjectLiteral

/-!
# The headers of an operation

The headers of an operation are made by insertions: the content type of the request, the accepted
one, and then the header parameters. A parameter that is called like a header before it takes its
place, and not one of its own.

## Main definitions

* `Operation.headerHistory`: the insertions that make the headers
* `Operation.headerNames`: the names of the headers, with all repetitions

## Main results

* `headers_eq_ofList`: the headers are what is inserted
* `map_fst_headerHistory`: which names are inserted
* `headers_outcome`: the names of the headers, their values, and their object literal
-/

namespace TypedClient

open TypeScript

namespace Direction

/-- Both directions, the request first. -/
def all : List Direction :=
  [request, response]

end Direction

namespace Operation

variable (op : Operation)

/-- What is inserted into the headers of an operation, in order. -/
def headerHistory : List (String × EntryValue) :=
  (Direction.all.flatMap fun d =>
      (((Selection.of (d.described op)).entry d.choicePath).map (d.header, ·)).toList)
    ++ (op.parametersIn .header).map fun p => (p.name, .parameter p.name)

/-- The names of the headers in the order in which they are due, with all repetitions: one for each
direction that has a content type, and those of the header parameters. -/
def headerNames : List String :=
  (Direction.all.filter fun d => d.described op ≠ []).map Direction.header
    ++ (op.parametersIn .header).map (·.name)

end Operation

section Headers

variable {op : Operation}

/-- The entry of a direction is the one for its selection. -/
theorem contentTypeEntry_contentTypes (op : Operation) (d : Direction) :
    contentTypeEntry (d.contentTypes op) d.choicePath =
      (Selection.of (d.described op)).entry d.choicePath := by
  rw [Selection.contentTypeEntry_eq, d.ofDistinct_contentTypes]

/-- Entries that may be absent are inserted if they are there. -/
theorem insertOptional_insertOptional (key key' : String) (value? value?' : Option EntryValue) :
    insertOptional (insertOptional ∅ key value?) key' value?' =
      .ofList ((value?.map (key, ·)).toList ++ (value?'.map (key', ·)).toList) := by
  cases value? <;> cases value?' <;> rfl

/-- **The headers are what is inserted**: those of the two directions, as far as there is a content
type, and the header parameters. -/
theorem headers_eq_ofList (op : Operation) : op.headers = .ofList op.headerHistory := by
  have hrequest : contentTypeEntry op.requestContentTypes "params.headers.Content-Type" = _ :=
    contentTypeEntry_contentTypes op .request
  have hresponse : contentTypeEntry op.responseContentTypes "params.headers.Accept" = _ :=
    contentTypeEntry_contentTypes op .response
  simp only [Operation.headers, hrequest, hresponse, insertOptional_insertOptional,
    OrderedMap.ofList, Operation.headerHistory, Direction.all, List.flatMap_cons, List.flatMap_nil,
    List.append_nil, List.foldl_append, List.foldl_map]
  rfl

theorem entry_eq_none_iff {contentTypes : List String} {path : String} :
    (Selection.of contentTypes).entry path = none ↔ contentTypes = [] := by
  rw [← List.dedup_eq_nil, Selection.of]
  match contentTypes.dedup with
  | [] => simp [Selection.ofDistinct, Selection.entry]
  | [_] => simp [Selection.ofDistinct, Selection.entry]
  | _ :: _ :: _ => simp [Selection.ofDistinct, Selection.entry]

/-- **The names that are inserted** are those of the headers. -/
theorem map_fst_headerHistory (op : Operation) :
    op.headerHistory.map Prod.fst = op.headerNames := by
  have hentry : ∀ d : Direction,
      (((Selection.of (d.described op)).entry d.choicePath).map (d.header, ·)).toList.map Prod.fst =
        if d.described op ≠ [] then [d.header] else [] := by
    intro d
    cases h : (Selection.of (d.described op)).entry d.choicePath with
    | none => simp [entry_eq_none_iff.mp h]
    | some value =>
      have hne : d.described op ≠ [] := fun hnil => by
        rw [entry_eq_none_iff.mpr hnil] at h
        cases h
      simp [hne]
  rw [Operation.headerHistory, Operation.headerNames, List.map_append, List.map_map,
    List.map_flatMap]
  simp only [hentry, Direction.all, List.flatMap_cons, List.flatMap_nil, List.filter_cons]
  -- the parameters are the same on both sides, and each direction is there or not
  congr 1
  by_cases hrequest : Direction.request.described op = [] <;>
    by_cases hresponse : Direction.response.described op = [] <;>
    simp [hrequest, hresponse]

/-- The fields of entries have their keys. -/
theorem map_key_of_forall₂ {es : List (String × EntryValue)} {fields : List (ObjectField Expr)}
    (h : List.Forall₂ IsFieldOf es fields) : fields.map (·.key) = es.map Prod.fst := by
  induction h with
  | nil => rfl
  | cons h _ ih => rw [List.map_cons, List.map_cons, h.key, ih]

/-- **The headers of an operation.** Their names come in the order in which they are due, each
where it comes first. A name that a header parameter has belongs to its value, and otherwise it
belongs to the content type of a direction: to the only one, or to what the caller chose. Other
parameters do not matter. The headers always make up an object literal, with a field for each. -/
theorem headers_outcome (op : Operation) :
    FirstSeen op.headerNames op.headers.keys ∧
    (∀ name ∈ (op.parametersIn .header).map (·.name),
      op.headers.get? name = some (.parameter name)) ∧
    (∀ d : Direction, d.header ∉ (op.parametersIn .header).map (·.name) →
      op.headers.get? d.header = (Selection.of (d.described op)).entry d.choicePath) ∧
    (∀ params, params.filter (·.location == .header) = op.parametersIn .header →
      ({ op with parameters := params } : Operation).headers = op.headers) ∧
    ∃ fields, List.Forall₂ IsFieldOf op.headers.entries fields ∧
      fields.map (·.key) = op.headers.keys ∧
      ∀ first, objectLiteral op.headers first = .ok (.object (first ++ fields) true) := by
  refine ⟨?_, fun name hname => ?_, fun d hd => ?_, fun params hparams => ?_, ?_⟩
  · rw [headers_eq_ofList, ← map_fst_headerHistory]
    exact OrderedMap.firstSeen_keys_ofList _
  · rw [Operation.headers, get?_foldl_insert Parameter.name EntryValue.parameter, if_pos hname]
  · rw [get?_headers, if_neg hd, contentTypeEntry_contentTypes]
  · rw [Operation.headers, Operation.parametersIn, hparams]
    rfl
  · obtain ⟨_, hheaders, _⟩ := exists_headersObject op
    obtain ⟨fields, hfields, _⟩ := objectLiteral_eq_ok_iff.mp hheaders
    exact ⟨fields, hfields, map_key_of_forall₂ hfields,
      fun _ => objectLiteral_eq_ok_iff.mpr ⟨fields, hfields, rfl⟩⟩

/-- A header parameter that is called `Accept` gives the value of this header, in its place. -/
example :
    let op : Operation := {
      id := "list", httpMethod := .get, uri := "/"
      parameters := [⟨"X-One", .header, false, none, false, .any⟩,
        ⟨"q", .query, false, none, false, .any⟩, ⟨"Accept", .header, false, none, false, .any⟩]
      responses := [⟨"200", .ofList [("text/plain", .any)]⟩] }
    op.headers.entries = [("Accept", .parameter "Accept"), ("X-One", .parameter "X-One")] := rfl

end Headers

end TypedClient
