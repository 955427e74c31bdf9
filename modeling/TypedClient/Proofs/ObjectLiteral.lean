import TypedClient.Proofs.DottedPath
import TypedClient.Proofs.Insertions

/-!
# Object literals of a history

The entries of an object literal are inserted one after another, and only what the insertions leave
is written. So a fault in a value that was replaced later on does not count, and one in the value
that replaced it does.

## Main definitions

* `EntryValue.Denotes`: the expression of the value of an entry
* `EntryValue.IsFaulty`: a value that has no expression
* `IsFieldOf`: the field of an entry

## Main results

* `EntryValue.toExpr_eq_ok_iff`, `EntryValue.toExpr_eq_error_iff`: every value has its expression,
  but for faulty ones
* `objectLiteral_eq_ok_iff`, `objectLiteral_eq_error_iff`: the fields of a map of entries, and its
  first fault
* `objectLiteral_outcome`: the same for what a history of insertions leaves
-/

namespace TypedClient

open TypeScript

/-! ## Values of entries -/

namespace EntryValue

/-- The expression that stands for a value: the text itself, the access path of the segments of a
path, or the value of a parameter. -/
inductive Denotes : EntryValue → Expr → Prop
  | constant (text : String) : Denotes (.constant text) (.text text)
  | variable {path root : String} {keys : List String} {e : Expr} (hslash : ¬ IsSlashed path)
      (hpath : SegmentsOf path (root :: keys)) (h : Accesses root keys e) :
      Denotes (.variable path) e
  | parameter (name : String) : Denotes (.parameter name) (parameterReference name)

/-- A path with a segment that begins with a slash. -/
def IsFaulty (value : EntryValue) : Prop :=
  ∃ path, value = .variable path ∧ IsSlashed path

variable {value : EntryValue}

theorem toExpr_eq_ok_iff {e : Expr} : value.toExpr = .ok e ↔ value.Denotes e := by
  match value with
  | .constant text =>
    rw [toExpr, Except.ok.injEq]
    constructor
    · rintro rfl
      exact .constant text
    · rintro ⟨⟩
      rfl
  | .variable path =>
    rw [toExpr, pathReference_eq_ok_iff]
    constructor
    · rintro ⟨hslash, root, keys, hpath, h⟩
      exact .variable hslash hpath h
    · rintro (_ | ⟨hslash, hpath, h⟩)
      exact ⟨hslash, _, _, hpath, h⟩
  | .parameter name =>
    rw [toExpr, Except.ok.injEq]
    constructor
    · rintro rfl
      exact .parameter name
    · rintro ⟨⟩
      rfl

theorem toExpr_eq_error_iff {fault : Fault} :
    value.toExpr = .error fault ↔
      ∃ path, value = .variable path ∧ IsSlashed path ∧ fault = .invalidPath path := by
  match value with
  | .constant text => simp [toExpr]
  | .variable path => simp [toExpr, pathReference_eq_error_iff]
  | .parameter name => simp [toExpr]

theorem exists_toExpr_eq_error_iff : (∃ fault, value.toExpr = .error fault) ↔ value.IsFaulty := by
  simp only [toExpr_eq_error_iff, IsFaulty]
  constructor
  · rintro ⟨_, path, hvalue, hslash, _⟩
    exact ⟨path, hvalue, hslash⟩
  · rintro ⟨path, hvalue, hslash⟩
    exact ⟨_, path, hvalue, hslash, rfl⟩

end EntryValue

/-! ## Fields -/

/-- The field of an entry: its key, with the expression of its value. -/
structure IsFieldOf (e : String × EntryValue) (f : ObjectField Expr) : Prop where
  key : f.key = e.1
  value : e.2.Denotes f.value

theorem entryField_eq_ok_iff {e : String × EntryValue} {f : ObjectField Expr} :
    entryField e = .ok f ↔ IsFieldOf e f := by
  rw [entryField_eq_ok, EntryValue.toExpr_eq_ok_iff]
  exact ⟨fun h => ⟨h.1, h.2⟩, fun h => ⟨h.key, h.value⟩⟩

theorem entryField_eq_error_iff {e : String × EntryValue} {fault : Fault} :
    entryField e = .error fault ↔ e.2.toExpr = .error fault := by
  rw [entryField, bind_eq_error]
  simp only [pure_ne_error, and_false, exists_false, or_false]

section Literals

variable {entries : EntryMap} {first : List (ObjectField Expr)}

/-- **The object literal of a map of entries** has the fields it was given, and then the field of
each entry, in their order. -/
theorem objectLiteral_eq_ok_iff {e : Expr} :
    objectLiteral entries first = .ok e ↔
      ∃ fields, List.Forall₂ IsFieldOf entries.entries fields ∧
        e = .object (first ++ fields) true := by
  simp only [objectLiteral, bind_eq_ok, pure_eq_ok, entryFields_eq_mapM, mapM_eq_ok_iff_forall₂,
    entryField_eq_ok_iff, eq_comm (b := e)]

/-- **The first faulty value** is the fault of the object literal. -/
theorem objectLiteral_eq_error_iff {fault : Fault} :
    objectLiteral entries first = .error fault ↔
      ∃ key path, IsFirst (fun e => e.2.IsFaulty) entries.entries (key, .variable path) ∧
        fault = .invalidPath path := by
  simp only [objectLiteral, bind_eq_error, pure_ne_error, and_false, exists_false, or_false,
    entryFields_eq_mapM, mapM_eq_error_iff, entryField_eq_error_iff,
    EntryValue.exists_toExpr_eq_error_iff]
  -- only the value of a path is faulty, so the first fault carries the path
  constructor
  · rintro ⟨⟨key, value⟩, hfirst, hfault⟩
    obtain ⟨path, rfl, _, rfl⟩ := EntryValue.toExpr_eq_error_iff.mp hfault
    exact ⟨key, path, hfirst, rfl⟩
  · rintro ⟨key, path, hfirst, rfl⟩
    obtain ⟨_, hvalue, hslash⟩ := hfirst.holds
    obtain rfl := EntryValue.variable.inj hvalue
    exact ⟨_, hfirst, EntryValue.toExpr_eq_error_iff.mpr ⟨_, rfl, hslash, rfl⟩⟩

end Literals

/-- **The object literal of a history of insertions.** The given fields come first, unchanged, and
then each inserted key where it was inserted first, with the expression of the value that was
inserted last. The first faulty value of these is the fault. -/
theorem objectLiteral_outcome (history : List (String × EntryValue))
    (first : List (ObjectField Expr)) :
    ∃ final, (∀ es, Leaves history es ↔ es = final) ∧
      (∀ e, objectLiteral (.ofList history) first = .ok e ↔
        ∃ fields, List.Forall₂ IsFieldOf final fields ∧ e = .object (first ++ fields) true) ∧
      ∀ fault, objectLiteral (.ofList history) first = .error fault ↔
        ∃ key path, IsFirst (fun e => e.2.IsFaulty) final (key, .variable path) ∧
          fault = .invalidPath path :=
  ⟨_, fun _ => OrderedMap.leaves_iff, fun _ => objectLiteral_eq_ok_iff,
    fun _ => objectLiteral_eq_error_iff⟩

/-- A faulty value counts only if it is the last one under its key. -/
example :
    objectLiteral (.ofList [("a", .variable "/x"), ("a", .constant "1")]) [] =
      .ok (.object [⟨"a", .text "1"⟩] true) ∧
    objectLiteral (.ofList [("a", .constant "1"), ("a", .variable "/x")]) [] =
      .error (.invalidPath "/x") := ⟨rfl, rfl⟩

end TypedClient
