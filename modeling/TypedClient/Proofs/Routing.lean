import TypedClient.Proofs.Outcome
import TypedClient.Routing

/-!
# Laws of routing

The headers of an operation hold constants, choices of content types that are left to the
caller, and parameters, so that they always make up an object literal.

## Main definitions

* `entryField`: the field of an object literal for an entry
* `HeaderValue`: the values a header may have

## Main results

* `entryFields_eq_mapM`: the fields of an object literal, one for each entry
* `headerValue_of_mem`: every header has such a value
* `exists_headersObject`: the headers always make up an object literal
-/

namespace TypedClient

open TypeScript

/-! ## Entries of a map -/

section Entries

variable {β : Type} {m : OrderedMap β} {key : String} {value : β} {e : String × β}

theorem OrderedMap.mem_insertEntry {es : List (String × β)}
    (h : e ∈ OrderedMap.insertEntry key value es) : e ∈ es ∨ e = (key, value) := by
  induction es with
  | nil => exact Or.inr (List.mem_singleton.mp h)
  | cons x es ih =>
    obtain ⟨k, v⟩ := x
    rw [OrderedMap.insertEntry] at h
    split at h
    · rcases List.mem_cons.mp h with rfl | h
      · exact Or.inr rfl
      · exact Or.inl (List.mem_cons_of_mem _ h)
    · rcases List.mem_cons.mp h with rfl | h
      · exact Or.inl (List.mem_cons_self ..)
      · exact (ih h).imp_left (List.mem_cons_of_mem _)

theorem OrderedMap.mem_insert (h : e ∈ (m.insert key value).entries) :
    e ∈ m.entries ∨ e = (key, value) :=
  OrderedMap.mem_insertEntry h

theorem mem_insertOptional {m : EntryMap} {value? : Option EntryValue} {e : String × EntryValue}
    (h : e ∈ (insertOptional m key value?).entries) :
    e ∈ m.entries ∨ ∃ v, value? = some v ∧ e = (key, v) := by
  cases value? with
  | none => exact Or.inl h
  | some v => exact (OrderedMap.mem_insert h).imp_right fun he => ⟨v, rfl, he⟩

theorem mem_foldl_insert {α : Type} {k : α → String} {v : α → β} {xs : List α}
    (h : e ∈ (xs.foldl (fun m x => m.insert (k x) (v x)) m).entries) :
    e ∈ m.entries ∨ ∃ x ∈ xs, e = (k x, v x) := by
  induction xs generalizing m with
  | nil => exact Or.inl h
  | cons x xs ih =>
    rcases ih h with h | ⟨y, hy, he⟩
    · exact (OrderedMap.mem_insert h).imp_right fun he => ⟨x, List.mem_cons_self .., he⟩
    · exact Or.inr ⟨y, List.mem_cons_of_mem _ hy, he⟩

theorem OrderedMap.lookup_insertEntry (es : List (String × β)) (k : String) :
    (OrderedMap.insertEntry key value es).lookup k =
      if k = key then some value else es.lookup k := by
  induction es with
  | nil =>
    rw [OrderedMap.insertEntry, List.lookup_cons]
    split <;> simp_all
  | cons x es ih =>
    obtain ⟨l, v⟩ := x
    rw [OrderedMap.insertEntry]
    split
    · next hl =>
      rw [List.lookup_cons, List.lookup_cons, hl]
      split <;> simp_all
    · next hl =>
      rw [List.lookup_cons, List.lookup_cons, ih]
      split <;> simp_all

theorem OrderedMap.get?_insert (k : String) :
    (m.insert key value).get? k = if k = key then some value else m.get? k :=
  OrderedMap.lookup_insertEntry m.entries k

/-- What is found under a key is its entry. -/
theorem OrderedMap.get?_eq_some_iff {k : String} {v : β} :
    m.get? k = some v ↔ (k, v) ∈ m.entries := by
  obtain ⟨es, hnodup⟩ := m
  rw [OrderedMap.get?]
  induction es with
  | nil => simp
  | cons x es ih =>
    obtain ⟨l, w⟩ := x
    obtain ⟨hl, hnodup⟩ := List.nodup_cons.mp hnodup
    by_cases hkl : k = l
    · subst hkl
      have hk : (k, v) ∉ es := fun h => hl (List.mem_map.mpr ⟨_, h, rfl⟩)
      simp [hk, eq_comm]
    · simp only [List.lookup_cons, beq_false_of_ne hkl, ih hnodup, List.mem_cons, Prod.mk.injEq,
        hkl, false_and, false_or]

theorem get?_insertOptional {m : EntryMap} {value? : Option EntryValue} (k : String) :
    (insertOptional m key value?).get? k =
      if k = key then value?.or (m.get? k) else m.get? k := by
  cases value? with
  | none => simp [insertOptional]
  | some v => rw [insertOptional, OrderedMap.get?_insert, Option.some_or]

/-- Of many insertions, those under a key decide what is found there. -/
theorem get?_foldl_insert {α : Type} (name : α → String) (value : String → β) (xs : List α)
    (k : String) :
    (xs.foldl (fun m x => m.insert (name x) (value (name x))) m).get? k =
      if k ∈ xs.map name then some (value k) else m.get? k := by
  induction xs generalizing m with
  | nil => rfl
  | cons x xs ih =>
    rw [List.foldl_cons, ih, OrderedMap.get?_insert, List.map_cons]
    split <;> split <;> simp_all

end Entries

/-! ## Object literals -/

/-- The field of an object literal for an entry. -/
def entryField (e : String × EntryValue) : Except Fault (ObjectField Expr) :=
  return ⟨e.1, ← e.2.toExpr⟩

/-- **The fields of an object literal** are one for each entry, in their order. -/
theorem entryFields_eq_mapM (es : List (String × EntryValue)) :
    entryFields es = es.mapM entryField := by
  induction es with
  | nil => rfl
  | cons e es ih =>
    obtain ⟨key, value⟩ := e
    rw [entryFields, ih, List.mapM_cons, entryField, bind_assoc]
    simp only [pure_bind]

theorem entryField_eq_ok {e : String × EntryValue} {f : ObjectField Expr} :
    entryField e = .ok f ↔ f.key = e.1 ∧ e.2.toExpr = .ok f.value := by
  obtain ⟨key, value⟩ := f
  rw [entryField, bind_eq_ok]
  constructor
  · rintro ⟨x, hx, h⟩
    obtain ⟨rfl, rfl⟩ := ObjectField.mk.inj (pure_eq_ok.mp h)
    exact ⟨rfl, hx⟩
  · rintro ⟨rfl, hx⟩
    exact ⟨value, hx, rfl⟩

/-! ## Headers -/

/-- The values a header of an operation may have: a constant, a choice of content types
that the operation leaves to its caller, or a header parameter. -/
inductive HeaderValue (op : Operation) : EntryValue → Prop
  | constant (text : String) : HeaderValue op (.constant text)
  | requestChoice (h : op.shape.hasRequestChoice) :
      HeaderValue op (.variable "params.headers.Content-Type")
  | responseChoice (h : op.shape.hasResponseChoice) :
      HeaderValue op (.variable "params.headers.Accept")
  | parameter {p : Parameter} (hp : p ∈ op.parametersIn .header) :
      HeaderValue op (.parameter p.name)

theorem contentTypeEntry_eq_some {contentTypes : List String} {path : String} {v : EntryValue}
    (h : contentTypeEntry contentTypes path = some v) :
    (∃ c, v = .constant c) ∨ v = .variable path ∧ 2 ≤ contentTypes.length := by
  unfold contentTypeEntry at h
  split at h
  · cases h
  · next c => exact Or.inl ⟨c, (Option.some.inj h).symm⟩
  · next h₀ h₁ =>
    match contentTypes with
    | [] => exact absurd rfl h₀
    | [c] => exact absurd rfl (h₁ c)
    | c :: d :: cs => exact Or.inr ⟨(Option.some.inj h).symm, by simp⟩

theorem Operation.hasRequestChoice_iff {op : Operation} :
    op.shape.hasRequestChoice = true ↔ 2 ≤ op.requestContentTypes.length := by
  simp [Operation.shape]

theorem Operation.hasResponseChoice_iff {op : Operation} :
    op.shape.hasResponseChoice = true ↔ 2 ≤ op.responseContentTypes.length := by
  simp [Operation.shape]

/-- **Every header has one of these values.** -/
theorem headerValue_of_mem {op : Operation} {e : String × EntryValue}
    (h : e ∈ op.headers.entries) : HeaderValue op e.2 := by
  rcases mem_foldl_insert h with h | ⟨p, hp, rfl⟩
  · rcases mem_insertOptional h with h | ⟨v, hv, rfl⟩
    · rcases mem_insertOptional h with h | ⟨v, hv, rfl⟩
      · cases h
      · rcases contentTypeEntry_eq_some hv with ⟨c, rfl⟩ | ⟨rfl, hl⟩
        · exact .constant c
        · exact .requestChoice (Operation.hasRequestChoice_iff.mpr hl)
    · rcases contentTypeEntry_eq_some hv with ⟨c, rfl⟩ | ⟨rfl, hl⟩
      · exact .constant c
      · exact .responseChoice (Operation.hasResponseChoice_iff.mpr hl)
  · exact .parameter hp

/-- Where the caller's choice for the request is found. -/
theorem pathReference_requestChoice : pathReference "params.headers.Content-Type" =
    .ok (access (.member (.ident "params") "headers") "Content-Type") := rfl

/-- Where the caller's choice for the response is found. -/
theorem pathReference_responseChoice : pathReference "params.headers.Accept" =
    .ok (access (.member (.ident "params") "headers") "Accept") := rfl

theorem HeaderValue.exists_toExpr {op : Operation} {v : EntryValue} (h : HeaderValue op v) :
    ∃ x, v.toExpr = .ok x := by
  cases h with
  | constant text => exact ⟨_, rfl⟩
  | requestChoice _ => exact ⟨_, pathReference_requestChoice⟩
  | responseChoice _ => exact ⟨_, pathReference_responseChoice⟩
  | parameter _ => exact ⟨_, rfl⟩

/-- **The headers always make up an object literal**, with a field for each header. -/
theorem exists_headersObject (op : Operation) :
    ∃ fs, objectLiteral op.headers [] = .ok (.object fs true) ∧
      ∀ f ∈ fs, ∃ v, HeaderValue op v ∧ v.toExpr = .ok f.value := by
  have hfield : ∀ e ∈ op.headers.entries, ∃ f, entryField e = .ok f := by
    intro e he
    obtain ⟨x, hx⟩ := (headerValue_of_mem he).exists_toExpr
    exact ⟨⟨e.1, x⟩, entryField_eq_ok.mpr ⟨rfl, hx⟩⟩
  obtain ⟨fs, hfs⟩ := exists_mapM_eq_ok hfield
  refine ⟨fs, ?_, fun f hf => ?_⟩
  · rw [objectLiteral, entryFields_eq_mapM, hfs]
    rfl
  · obtain ⟨e, he, h⟩ := mem_of_mapM_eq_ok hfs f hf
    exact ⟨e.2, headerValue_of_mem he, (entryField_eq_ok.mp h).2⟩

end TypedClient
