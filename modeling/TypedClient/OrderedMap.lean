/-!
# Maps in insertion order

A map from texts that keeps its keys in the order of their first insertion. Inserting a
key again replaces its value where it stands.

## Main definitions

* `OrderedMap`: the maps, with pairwise distinct keys
* `OrderedMap.insert`, `OrderedMap.ofList`: one insertion, and many

## Main results

* `OrderedMap.keys_insert`: an insertion changes the keys only at the end
* `OrderedMap.ofList_entries`: the entries of a map make up this map again
-/

namespace TypedClient

/-- A map from texts, as its entries in the order of first insertion. -/
structure OrderedMap (β : Type) where
  entries : List (String × β)
  nodup : (entries.map Prod.fst).Nodup
  deriving Repr

namespace OrderedMap

variable {β : Type}

@[ext]
theorem ext {m n : OrderedMap β} (h : m.entries = n.entries) : m = n := by
  cases m; cases n; cases h; rfl

/-- The map without entries. -/
def empty : OrderedMap β :=
  ⟨[], List.nodup_nil⟩

instance : EmptyCollection (OrderedMap β) := ⟨empty⟩

instance : Inhabited (OrderedMap β) := ⟨empty⟩

/-- The keys, in the order of first insertion. -/
def keys (m : OrderedMap β) : List String :=
  m.entries.map Prod.fst

/-- The number of entries. -/
def size (m : OrderedMap β) : Nat :=
  m.entries.length

/-- The value of a key. -/
def get? (m : OrderedMap β) (key : String) : Option β :=
  m.entries.lookup key

/-- Entries with the value of one key replaced, or added at the end. -/
def insertEntry (key : String) (value : β) : List (String × β) → List (String × β)
  | [] => [(key, value)]
  | (k, v) :: es => if k = key then (key, value) :: es else (k, v) :: insertEntry key value es

theorem map_fst_insertEntry (key : String) (value : β) (es : List (String × β)) :
    (insertEntry key value es).map Prod.fst =
      if key ∈ es.map Prod.fst then es.map Prod.fst else es.map Prod.fst ++ [key] := by
  induction es with
  | nil => simp [insertEntry]
  | cons e es ih =>
    obtain ⟨k, v⟩ := e
    by_cases h : k = key
    · subst h; simp [insertEntry]
    · simp only [insertEntry, if_neg h, List.map_cons, ih, List.mem_cons, Ne.symm h, false_or]
      split <;> simp

theorem nodup_insertEntry (key : String) (value : β) (es : List (String × β))
    (h : (es.map Prod.fst).Nodup) : ((insertEntry key value es).map Prod.fst).Nodup := by
  rw [map_fst_insertEntry]
  split
  · exact h
  · next hk =>
    refine List.nodup_append.2 ⟨h, by simp, ?_⟩
    intro a ha b hb hab
    simp only [List.mem_singleton] at hb
    exact hk (hb ▸ hab ▸ ha)

/-- The map with one key set to a value: in its place if it was there, else at the end. -/
def insert (m : OrderedMap β) (key : String) (value : β) : OrderedMap β :=
  ⟨insertEntry key value m.entries, nodup_insertEntry key value m.entries m.nodup⟩

/-- The map after the insertion of all entries of a list, one after another. -/
def ofList (es : List (String × β)) : OrderedMap β :=
  es.foldl (fun m e => m.insert e.1 e.2) empty

theorem nodup_keys (m : OrderedMap β) : m.keys.Nodup :=
  m.nodup

@[simp]
theorem keys_empty : (empty : OrderedMap β).keys = [] := rfl

/-- **An insertion keeps the keys in place** and adds a new one at the end. -/
theorem keys_insert (m : OrderedMap β) (key : String) (value : β) :
    (m.insert key value).keys = if key ∈ m.keys then m.keys else m.keys ++ [key] :=
  map_fst_insertEntry key value m.entries

theorem insertEntry_of_notMem {key : String} {value : β} {es : List (String × β)}
    (h : key ∉ es.map Prod.fst) : insertEntry key value es = es ++ [(key, value)] := by
  induction es with
  | nil => rfl
  | cons e es ih =>
    obtain ⟨k, v⟩ := e
    rw [List.map_cons, List.mem_cons, not_or] at h
    obtain ⟨hk, hes⟩ := h
    rw [insertEntry, if_neg (Ne.symm hk), ih hes, List.cons_append]

theorem entries_foldl_insert (es : List (String × β)) (m : OrderedMap β)
    (h : (m.keys ++ es.map Prod.fst).Nodup) :
    (es.foldl (fun m e => m.insert e.1 e.2) m).entries = m.entries ++ es := by
  induction es generalizing m with
  | nil => rw [List.foldl_nil, List.append_nil]
  | cons e es ih =>
    have hkey : e.1 ∉ m.keys := fun hmem =>
      (List.nodup_append.mp h).2.2 e.1 hmem e.1 (List.mem_cons_self ..) rfl
    have hinsert : (m.insert e.1 e.2).entries = m.entries ++ [e] := insertEntry_of_notMem hkey
    rw [List.foldl_cons, ih, hinsert, List.append_assoc, List.singleton_append]
    rw [keys_insert, if_neg hkey, List.append_assoc, List.singleton_append]
    exact h

/-- **The entries of a map make up this map again.** -/
theorem ofList_entries (m : OrderedMap β) : ofList m.entries = m :=
  ext (entries_foldl_insert m.entries empty m.nodup)

end OrderedMap

end TypedClient
