import Mathlib.Data.List.Dedup
import Mathlib.Data.List.Induction
import TypedClient.Proofs.Routing
import TypedClient.Proofs.Segments

/-!
# Histories of insertions

A map in insertion order is what a history of insertions leaves behind. A key stands where it was
inserted first, and has the value that was inserted last; of what came between nothing is left.

## Main definitions

* `FirstSeen`: different texts in the order in which they are first seen
* `LastUnder`: the value inserted last under a key
* `Leaves`: the entries that a history leaves

## Main results

* `OrderedMap.firstSeen_keys_ofList`: the keys are in the order of their first insertion
* `OrderedMap.get?_ofList_eq_some_iff`: under a key is the value inserted last
* `OrderedMap.leaves_iff`: a history leaves the entries of one map, and no others
-/

namespace TypedClient

/-! ## Different texts, as they are first seen -/

/-- The different ones among some texts, in the order in which they are first seen. -/
structure FirstSeen (texts distinct : List String) : Prop where
  nodup : distinct.Nodup
  mem_iff : ∀ t, t ∈ distinct ↔ t ∈ texts
  order : distinct.Pairwise fun a b => texts.idxOf a < texts.idxOf b

namespace FirstSeen

variable {texts distinct other : List String}

theorem of_nodup (h : texts.Nodup) : FirstSeen texts texts where
  nodup := h
  mem_iff := fun _ => Iff.rfl
  order := by
    rw [List.pairwise_iff_getElem]
    intro i j hi hj hij
    rwa [h.idxOf_getElem, h.idxOf_getElem]

/-- A further text is different if it has not been seen. -/
theorem concat (h : FirstSeen texts distinct) (t : String) :
    FirstSeen (texts ++ [t]) (if t ∈ distinct then distinct else distinct ++ [t]) := by
  -- what has been seen keeps its place
  have horder : distinct.Pairwise fun a b => (texts ++ [t]).idxOf a < (texts ++ [t]).idxOf b := by
    refine h.order.imp_of_mem fun ha hb hab => ?_
    rwa [List.idxOf_append_of_mem ((h.mem_iff _).mp ha),
      List.idxOf_append_of_mem ((h.mem_iff _).mp hb)]
  split
  · next ht =>
    refine ⟨h.nodup, fun u => ?_, horder⟩
    rw [List.mem_append, List.mem_singleton, h.mem_iff]
    exact ⟨.inl, fun hu => hu.elim id fun hut => hut ▸ (h.mem_iff t).mp ht⟩
  · next ht =>
    have htexts : t ∉ texts := fun hm => ht ((h.mem_iff t).mpr hm)
    refine ⟨List.nodup_append.mpr ⟨h.nodup, by simp, ?_⟩, fun u => ?_,
      List.pairwise_append.mpr ⟨horder, List.pairwise_singleton _ _, ?_⟩⟩
    · rintro a ha b hb rfl
      exact ht (List.mem_singleton.mp hb ▸ ha)
    · rw [List.mem_append, List.mem_append, h.mem_iff]
    · intro a ha b hb
      rw [List.mem_singleton.mp hb]
      exact idxOf_lt_idxOf_append ((h.mem_iff a).mp ha) htexts

/-- The different texts are as many as there are without repetitions. -/
theorem perm_dedup (h : FirstSeen texts distinct) : distinct.Perm texts.dedup := by
  rw [List.perm_ext_iff_of_nodup h.nodup texts.nodup_dedup]
  intro t
  rw [h.mem_iff, List.mem_dedup]

end FirstSeen

/-! ## What a history leaves -/

section History

variable {β : Type} {history final : List (String × β)}

/-- The value inserted last under a key. -/
def LastUnder (history : List (String × β)) (key : String) (value : β) : Prop :=
  ∃ before after, history = before ++ (key, value) :: after ∧ key ∉ after.map Prod.fst

/-- A further insertion decides about its own key, and about no other. -/
theorem lastUnder_concat {e : String × β} {key : String} {value : β} :
    LastUnder (history ++ [e]) key value ↔
      if key = e.1 then value = e.2 else LastUnder history key value := by
  constructor
  · rintro ⟨before, after, heq, hafter⟩
    rcases List.eq_nil_or_concat after with rfl | ⟨after, x, rfl⟩
    · obtain ⟨rfl, rfl⟩ := List.append_singleton_inj.mp heq
      rw [if_pos rfl]
    · rw [List.concat_eq_append] at heq hafter
      rw [← List.cons_append, ← List.append_assoc, List.append_singleton_inj] at heq
      obtain ⟨rfl, rfl⟩ := heq
      rw [List.map_append, List.mem_append, not_or] at hafter
      have hne : key ≠ e.1 := fun h => hafter.2 (List.mem_singleton.mpr h)
      rw [if_neg hne]
      exact ⟨before, after, rfl, hafter.1⟩
  · split
    · next hkey =>
      rintro rfl
      exact ⟨history, [], by rw [hkey], List.not_mem_nil⟩
    · next hkey =>
      rintro ⟨before, after, rfl, hafter⟩
      refine ⟨before, after ++ [e], by rw [List.append_assoc, List.cons_append], ?_⟩
      rw [List.map_append, List.mem_append, not_or]
      exact ⟨hafter, fun h => hkey (List.mem_singleton.mp h)⟩

/-- The entries that a history of insertions leaves: every key where it was inserted first, with
the value that was inserted last. -/
structure Leaves (history final : List (String × β)) : Prop where
  keys : FirstSeen (history.map Prod.fst) (final.map Prod.fst)
  values : ∀ key value, (key, value) ∈ final ↔ LastUnder history key value

/-- A history leaves just one list of entries. -/
theorem Leaves.unique {other : List (String × β)} (h : Leaves history final)
    (h' : Leaves history other) : final = other := by
  have hperm : final.Perm other := by
    rw [List.perm_ext_iff_of_nodup h.keys.nodup.of_map h'.keys.nodup.of_map]
    rintro ⟨key, value⟩
    rw [h.values, h'.values]
  -- both are in the order of the first insertions
  have hf := h.keys.order
  have ho := h'.keys.order
  rw [List.pairwise_map] at hf ho
  exact hperm.eq_of_pairwise (fun a b _ _ hab hba => absurd hab (Nat.lt_asymm hba)) hf ho

namespace OrderedMap

theorem ofList_concat (history : List (String × β)) (e : String × β) :
    ofList (history ++ [e]) = (ofList history).insert e.1 e.2 := by
  rw [ofList, ofList, List.foldl_append]
  rfl

/-- **The keys of a map** are in the order of their first insertion. -/
theorem firstSeen_keys_ofList (history : List (String × β)) :
    FirstSeen (history.map Prod.fst) (ofList history).keys := by
  induction history using List.reverseRecOn with
  | nil => exact .of_nodup List.nodup_nil
  | append_singleton history e ih =>
    rw [ofList_concat, keys_insert, List.map_append]
    exact ih.concat e.1

/-- **Under a key of a map** is the value that was inserted last. -/
theorem get?_ofList_eq_some_iff {key : String} {value : β} :
    (ofList history).get? key = some value ↔ LastUnder history key value := by
  induction history using List.reverseRecOn with
  | nil => simp [ofList, get?, empty, LastUnder]
  | append_singleton history e ih =>
    rw [ofList_concat, get?_insert, lastUnder_concat]
    split
    · rw [Option.some.injEq, eq_comm]
    · exact ih

/-- **A history of insertions leaves the entries of its map**, and no other entries. -/
theorem leaves_iff : Leaves history final ↔ final = (ofList history).entries := by
  have hleaves : Leaves history (ofList history).entries :=
    ⟨firstSeen_keys_ofList history, fun _ _ =>
      get?_eq_some_iff.symm.trans get?_ofList_eq_some_iff⟩
  constructor
  · exact fun h => h.unique hleaves
  · rintro rfl
    exact hleaves

end OrderedMap

end History

end TypedClient
