import Mathlib.Data.List.Induction
import TypedClient.Proofs.Text.Split
import TypedClient.Proofs.TypeScript.Parts
import TypedClient.Proofs.TypeScript.TemplateText

/-!
# Dotted paths

A dotted path is cut at its periods, and the segments are accessed one after another. The segments
can be read off the access path, and also off its text, although a segment may hold brackets,
quotes and backslashes, or nothing at all.

## Main definitions

* `SegmentsOf`: the segments of a path
* `IsSlashed`: some segment of a path begins with a slash
* `Accesses`: the access path of a root and of keys
* `readPath`: the root and the keys of an access path, read from its text

## Main results

* `segmentsOf_iff`: a path has its segments in just one way
* `pathReference_eq_ok_iff`, `pathReference_eq_error_iff`: what a path leads to, and which paths
  are at fault
* `readPath_print`: the root and the keys are read back, whatever follows them
* `pathReference_outcome`: these together
-/

namespace TypedClient

open TypeScript Text

/-! ## Segments -/

/-- The segments of a path: texts without periods that make it up with a period between each
two. -/
structure SegmentsOf (path : String) (segments : List String) : Prop where
  ne_nil : segments ≠ []
  noPeriod : ∀ s ∈ segments, '.' ∉ s.toList
  joined : ".".intercalate segments = path

theorem map_toList_pathSegments (path : String) :
    (pathSegments path).map String.toList = path.toList.splitOn '.' := by
  rw [pathSegments, pieces_eq_splitOnP, List.map_map, List.splitOn_eq_splitOnP]
  exact List.map_id'' (fun _ => String.toList_ofList) _

theorem segmentsOf_pathSegments (path : String) : SegmentsOf path (pathSegments path) where
  ne_nil := by simpa [pathSegments] using pieces_ne_nil _ _
  noPeriod := by
    intro s hs hperiod
    obtain ⟨t, ht, rfl⟩ := List.mem_map.mp hs
    rw [String.toList_ofList] at hperiod
    cases forall_mem_pieces _ _ t ht '.' hperiod
  joined := by
    rw [← String.toList_inj, String.toList_intercalate, map_toList_pathSegments]
    exact List.intercalate_splitOn '.'

/-- **A path has its segments in just one way.** -/
theorem segmentsOf_iff {path : String} {segments : List String} :
    SegmentsOf path segments ↔ segments = pathSegments path := by
  constructor
  · rintro ⟨hne, hperiod, rfl⟩
    have hsplit : ((".".toList).intercalate (segments.map String.toList)).splitOn '.' =
        segments.map String.toList :=
      List.splitOn_intercalate '.' (by simpa using hperiod) (by simpa using hne)
    rw [← String.toList_intercalate, ← map_toList_pathSegments] at hsplit
    exact (List.map_inj_right fun _ _ => String.toList_inj.mp).mp hsplit.symm
  · rintro rfl
    exact segmentsOf_pathSegments path

/-- Some segment of a path begins with a slash. -/
def IsSlashed (path : String) : Prop :=
  ∃ segments, SegmentsOf path segments ∧ ∃ s ∈ segments, beginsWithSlash s = true

theorem any_beginsWithSlash_iff {path : String} :
    (pathSegments path).any beginsWithSlash = true ↔ IsSlashed path := by
  simp only [IsSlashed, segmentsOf_iff, exists_eq_left, List.any_eq_true]

instance (path : String) : Decidable (IsSlashed path) :=
  decidable_of_iff _ any_beginsWithSlash_iff

/-! ## Access paths -/

/-- An access path: a variable, and then one access for each key, to a member if the key is a
name and to an element otherwise. -/
inductive Accesses (root : String) : List String → Expr → Prop
  | root : Accesses root [] (.ident root)
  | member {keys : List String} {key : String} {e : Expr} (h : Accesses root keys e)
      (hkey : Identifier.isValid key = true) : Accesses root (keys ++ [key]) (.member e key)
  | element {keys : List String} {key : String} {e : Expr} (h : Accesses root keys e)
      (hkey : Identifier.isValid key = false) : Accesses root (keys ++ [key]) (.element e key)

section Accesses

variable {root path : String} {keys : List String} {e : Expr}

/-- The accesses to the keys of a root, one after another, are the one access path there is. -/
theorem accesses_iff : Accesses root keys e ↔ e = keys.foldl access (.ident root) := by
  constructor
  · intro h
    induction h with
    | root => rfl
    | member _ hkey ih => rw [List.foldl_concat, ← ih, access, if_pos hkey]
    | element _ hkey ih => rw [List.foldl_concat, ← ih, access, if_neg (by simp [hkey])]
  · rintro rfl
    -- the last key is the outermost access, so the induction takes keys from the end
    induction keys using List.reverseRecOn with
    | nil => exact .root
    | append_singleton keys key ih =>
      rw [List.foldl_concat, access]
      split
      · next hkey => exact .member ih hkey
      · next hkey => exact .element ih (Bool.eq_false_iff.mpr hkey)

/-- The root and the keys can be read off an access path. -/
theorem Accesses.path?_eq (h : Accesses root keys e) : e.path? = some (root, keys) := by
  induction h with
  | root => rfl
  | member _ _ ih => rw [Expr.path?, ih]; rfl
  | element _ _ ih => rw [Expr.path?, ih]; rfl

theorem exists_pathReference_eq (path : String) :
    ∃ root keys, pathSegments path = root :: keys ∧ pathReference path =
      if IsSlashed path then .error (.invalidPath path)
      else .ok (keys.foldl access (.ident root)) := by
  obtain ⟨root, keys, hsegments⟩ :=
    List.exists_cons_of_ne_nil (segmentsOf_pathSegments path).ne_nil
  refine ⟨root, keys, hsegments, ?_⟩
  simp only [pathReference, ← any_beginsWithSlash_iff, hsegments]

/-- **A path leads to the access path of its segments**, unless one of them begins with a slash. -/
theorem pathReference_eq_ok_iff : pathReference path = .ok e ↔
    ¬ IsSlashed path ∧ ∃ root keys, SegmentsOf path (root :: keys) ∧ Accesses root keys e := by
  obtain ⟨root, keys, hsegments, hpath⟩ := exists_pathReference_eq path
  rw [hpath]
  simp only [segmentsOf_iff, hsegments, accesses_iff, List.cons.injEq]
  split
  · next h => simp [h]
  · next h => simp [h, eq_comm]

/-- **A path is at fault** if one of its segments begins with a slash, whichever it is. -/
theorem pathReference_eq_error_iff {fault : Fault} :
    pathReference path = .error fault ↔ IsSlashed path ∧ fault = .invalidPath path := by
  obtain ⟨root, keys, _, hpath⟩ := exists_pathReference_eq path
  rw [hpath]
  split
  · next h => simp [h, eq_comm]
  · next h => simp [h]

end Accesses

/-! ## Reading access paths -/

/-- The text of an access path: its root, and each key as it is written after an expression. -/
theorem Accesses.toList_printAt {root : String} {keys : List String} {e : Expr}
    (h : Accesses root keys e) (level : Nat) :
    (e.printAt level).toList = root.toList ++ keys.flatMap accessText := by
  obtain rfl := accesses_iff.mp h
  clear h
  induction keys using List.reverseRecOn with
  | nil => simp [Expr.printAt]
  | append_singleton keys key ih =>
    rw [List.foldl_concat, printAt_access, ih, List.flatMap_append, List.flatMap_singleton,
      List.append_assoc]

/-- The keys written one after another after an expression, as far as they go, and what comes
after them. -/
def readAccesses (s : List Char) : List (List Char) × List Char :=
  match h : readAccess s with
  | none => ([], s)
  | some (key, r) =>
    have : r.length < s.length := length_readAccess h
    ((key :: (readAccesses r).1), (readAccesses r).2)
termination_by s.length

/-- The root and the keys of an access path, and what comes after it. -/
def readPath (s : List Char) : Option (List (List Char) × List Char) :=
  (Identifier.readName s).map fun r => (r.1 :: (readAccesses r.2).1, (readAccesses r.2).2)

/-- A text that does not go on with an access, nor with the name before it. -/
def EndsPath (rest : List Char) : Prop :=
  ∀ c ∈ rest.head?, Identifier.isPart c = false ∧ c ≠ '.' ∧ c ≠ '['

theorem readAccesses_of_none {s : List Char} (h : readAccess s = none) :
    readAccesses s = ([], s) := by
  rw [readAccesses]
  split
  · rfl
  · next hs => rw [h] at hs; cases hs

theorem readAccesses_of_some {s key r : List Char} (h : readAccess s = some (key, r)) :
    readAccesses s = (key :: (readAccesses r).1, (readAccesses r).2) := by
  rw [readAccesses]
  split
  · next hs => rw [h] at hs; cases hs
  · next hs =>
    rw [h] at hs
    obtain ⟨rfl, rfl⟩ := Prod.mk.inj (Option.some.inj hs)
    rfl

theorem EndsPath.readAccess_eq {rest : List Char} (h : EndsPath rest) :
    readAccess rest = none := by
  unfold readAccess
  split
  · cases (h _ rfl).2.1 rfl
  · cases (h _ rfl).2.2 rfl
  · rfl

/-- No character of a name comes first where a key is written, nor where a path ends. -/
theorem isPart_head?_accesses {keys : List String} {rest : List Char} (h : EndsPath rest) :
    ∀ c ∈ (keys.flatMap accessText ++ rest).head?, Identifier.isPart c = false := by
  intro c hc
  cases keys with
  | nil => exact (h c hc).1
  | cons key keys =>
    -- a key is written behind a period or an opening bracket
    rw [List.flatMap_cons, accessText] at hc
    split at hc
    · cases hc; rfl
    · cases hc; rfl

/-- **Keys are read back**, whatever characters they hold. -/
theorem readAccesses_accessText (keys : List String) {rest : List Char} (h : EndsPath rest) :
    readAccesses (keys.flatMap accessText ++ rest) = (keys.map String.toList, rest) := by
  induction keys with
  | nil => exact readAccesses_of_none h.readAccess_eq
  | cons key keys ih =>
    rw [List.flatMap_cons, List.append_assoc,
      readAccesses_of_some (readAccess_accessText key (isPart_head?_accesses h)), ih]
    rfl

/-- **The root and the keys of an access path are read back** from its text if the root is a
name. -/
theorem readPath_print {root : String} {keys : List String} {e : Expr} (h : Accesses root keys e)
    (hroot : Identifier.isValid root = true) (level : Nat) {rest : List Char}
    (hrest : EndsPath rest) :
    readPath ((e.printAt level).toList ++ rest) =
      some ((root :: keys).map String.toList, rest) := by
  rw [h.toList_printAt, List.append_assoc, readPath,
    Identifier.readName_append hroot (isPart_head?_accesses hrest), Option.map_some,
    readAccesses_accessText keys hrest]
  rfl

/-- **What a dotted path leads to.** It is at fault if some segment begins with a slash, and the
fault carries the whole path. Otherwise it leads to the access path of its segments, which make up
the path with periods between them. The root and the keys can be read off an access path, and off
its text if the root is a name. -/
theorem pathReference_outcome (path : String) :
    (∀ fault, pathReference path = .error fault ↔
      IsSlashed path ∧ fault = .invalidPath path) ∧
    (∀ e, pathReference path = .ok e ↔
      ¬ IsSlashed path ∧
        ∃ root keys, SegmentsOf path (root :: keys) ∧ Accesses root keys e) ∧
    (∀ root keys e, Accesses root keys e →
      e.path? = some (root, keys) ∧
        (Identifier.isValid root = true → ∀ level rest, EndsPath rest →
          readPath ((e.printAt level).toList ++ rest) =
            some ((root :: keys).map String.toList, rest))) := by
  refine ⟨fun _ => pathReference_eq_error_iff, fun _ => pathReference_eq_ok_iff, ?_⟩
  intro root keys e h
  exact ⟨h.path?_eq, fun hroot level _ hrest => readPath_print h hroot level hrest⟩

/-- A slash inside a segment is no fault, wherever the segment stands. -/
example : IsSlashed "a.b./c" ∧ ¬ IsSlashed "a/.b/c" := by decide

end TypedClient
