import TypedClient.Proofs.Text.Split
import TypedClient.Template

/-!
# Segments of a text

Cutting a text at several delimiters in turn leaves segments that make up the text. A
delimiter stands at every second place, and a segment that is none of the delimiters
contains none of them. The other places may hold a delimiter too: a text between two cuts
that is itself a delimiter is not cut again.

## Main definitions

* `Alternating`: a delimiter at every second place
* `Segmentation`: what is known after some of the delimiters have had their turn
* `leading`: what is left of a text before the first cut
* `StartsOutOfOrder`: a text that starts with two delimiters in the wrong order

## Main results

* `segmentation_splitAll`: the segments after all delimiters have had their turn
* `head?_splitAll`: the first segment
* `startsOutOfOrder_of_leading`: when the first segment is a delimiter
-/

namespace TypedClient

open Text

/-- A list of odd length with a delimiter at every second place. -/
inductive Alternating (delimiters : List String) : List String → Prop
  | single (s : String) : Alternating delimiters [s]
  | step (s : String) {d : String} {ss : List String} (hd : d ∈ delimiters)
      (hss : Alternating delimiters ss) : Alternating delimiters (s :: d :: ss)

namespace Alternating

variable {delimiters : List String} {d : String} {ss ts : List String}

theorem ne_nil (hss : Alternating delimiters ss) : ss ≠ [] := by
  cases hss with
  | single s => exact List.cons_ne_nil s []
  | step s _ _ => exact List.cons_ne_nil s _

theorem append (hss : Alternating delimiters ss) (hd : d ∈ delimiters)
    (hts : Alternating delimiters ts) : Alternating delimiters (ss ++ d :: ts) := by
  induction hss with
  | single s => exact .step s hd hts
  | step s hd' _ ih => exact .step s hd' ih

theorem intersperse (hd : d ∈ delimiters) (hne : ss ≠ []) :
    Alternating delimiters (ss.intersperse d) := by
  induction ss with
  | nil => exact absurd rfl hne
  | cons s ss ih =>
    cases ss with
    | nil => exact .single s
    | cons t ts => exact .step s hd (ih (List.cons_ne_nil t ts))

/-- Every place may be cut further, as long as the delimiters stay. -/
theorem flatMap {f : String → List String} (hf : ∀ s, Alternating delimiters (f s))
    (hfix : ∀ d ∈ delimiters, f d = [d]) (hss : Alternating delimiters ss) :
    Alternating delimiters (ss.flatMap f) := by
  induction hss with
  | single s => simpa using hf s
  | @step s d ss hd _ ih =>
    rw [List.flatMap_cons, List.flatMap_cons, hfix d hd]
    exact (hf s).append hd ih

end Alternating

/-! ## One delimiter -/

section Keeping

variable {text delimiter : String}

theorem splitKeeping_eq (h : delimiter ≠ "") :
    splitKeeping text delimiter =
      ((splitOn delimiter.toList text.toList).map String.ofList).intersperse delimiter := by
  rw [splitKeeping, if_neg (by simpa [String.isEmpty_iff] using h)]

/-- The texts between the occurrences of a delimiter. -/
theorem cut_of_ne_empty (h : delimiter ≠ "") :
    Cut delimiter.toList text.toList (splitOn delimiter.toList text.toList) :=
  cut_splitOn (by simpa using h) _

theorem alternating_splitKeeping {delimiters : List String} (hd : delimiter ∈ delimiters) :
    Alternating delimiters (splitKeeping text delimiter) := by
  by_cases h : delimiter = ""
  · rw [splitKeeping, if_pos (String.isEmpty_iff.mpr h)]
    exact .single text
  · rw [splitKeeping_eq h]
    exact .intersperse hd (by simpa using (cut_of_ne_empty h).ne_nil)

theorem toList_join_intersperse (ss : List (List Char)) :
    (String.join ((ss.map String.ofList).intersperse delimiter)).toList =
      (ss.intersperse delimiter.toList).flatten := by
  induction ss with
  | nil => rfl
  | cons s ss ih =>
    cases ss with
    | nil => simp
    | cons t ts =>
      rw [List.map_cons] at ih
      simpa [List.map_cons] using ih

theorem join_splitKeeping : String.join (splitKeeping text delimiter) = text := by
  by_cases h : delimiter = ""
  · simp [splitKeeping, h]
  · rw [← String.toList_inj, splitKeeping_eq h, toList_join_intersperse]
    exact (cut_of_ne_empty h).flatten_intersperse

theorem mem_of_mem_intersperse {ss : List String} {s : String}
    (h : s ∈ ss.intersperse delimiter) : s ∈ ss ∨ s = delimiter := by
  induction ss with
  | nil => exact Or.inl h
  | cons t ts ih =>
    cases ts with
    | nil => exact Or.inl h
    | cons u us =>
      rw [List.intersperse_cons_cons, List.mem_cons, List.mem_cons] at h
      rcases h with rfl | rfl | h
      · exact Or.inl (List.mem_cons_self ..)
      · exact Or.inr rfl
      · exact (ih h).imp_left (List.mem_cons_of_mem _)

theorem not_occurs_of_mem_splitKeeping {s : String} (h : delimiter ≠ "")
    (hs : s ∈ splitKeeping text delimiter) (hne : s ≠ delimiter) : ¬ Occurs delimiter s := by
  rw [splitKeeping_eq h] at hs
  obtain ⟨t, ht, rfl⟩ := List.mem_map.mp ((mem_of_mem_intersperse hs).resolve_right hne)
  rw [Occurs, String.toList_ofList]
  exact (cut_of_ne_empty h).infix_free t ht

theorem occurs_of_mem_join {ss : List String} {s : String} (h : s ∈ ss) :
    Occurs s (String.join ss) := by
  rw [Occurs, String.toList_join, List.flatMap_def]
  exact List.infix_of_mem_flatten (List.mem_map_of_mem h)

theorem occurs_of_mem_splitKeeping {s : String} (hs : s ∈ splitKeeping text delimiter) :
    Occurs s text := by
  have h := occurs_of_mem_join hs
  rwa [join_splitKeeping] at h

theorem join_splitPieces (delimiters pieces : List String) :
    String.join (splitPieces delimiters delimiter pieces) = String.join pieces := by
  induction pieces with
  | nil => rfl
  | cons s ss ih =>
    rw [splitPieces, List.flatMap_cons, String.join_append, String.join_cons, ← splitPieces, ih]
    split
    · simp
    · rw [join_splitKeeping]

end Keeping

/-! ## All delimiters -/

/-- What holds of the pieces of a text when the delimiters in `cut` have had their turn. -/
structure Segmentation (text : String) (delimiters cut pieces : List String) : Prop where
  alternating : Alternating delimiters pieces
  join_eq : String.join pieces = text
  clean : ∀ s ∈ pieces, s ∉ delimiters → ∀ d ∈ cut, ¬ Occurs d s

namespace Segmentation

variable {text : String} {delimiters cut pieces : List String}

/-- One more delimiter has its turn. -/
theorem splitPieces {d : String} (h : Segmentation text delimiters cut pieces)
    (hd : d ∈ delimiters) (hne : d ≠ "") :
    Segmentation text delimiters (cut ++ [d]) (splitPieces delimiters d pieces) where
  alternating := by
    refine h.alternating.flatMap (fun s => ?_) (fun s hs => if_pos hs)
    split
    · exact .single s
    · exact alternating_splitKeeping hd
  join_eq := by rw [join_splitPieces, h.join_eq]
  clean := by
    intro s hs hsd d' hd' hocc
    obtain ⟨p, hp, hsp⟩ := List.mem_flatMap.mp hs
    -- a piece that is cut is free of the earlier delimiters, and so is what is cut out of it
    split at hsp
    · next hpd => exact hsd (List.mem_singleton.mp hsp ▸ hpd)
    · next hpd =>
      rcases List.mem_append.mp hd' with hd' | hd'
      · exact h.clean p hp hpd d' hd' (hocc.trans (occurs_of_mem_splitKeeping hsp))
      · obtain rfl := List.mem_singleton.mp hd'
        exact not_occurs_of_mem_splitKeeping hne hsp (fun he => hsd (he ▸ hd)) hocc

/-- Several more delimiters have their turn, one after another. -/
theorem foldl {todo : List String} (h : Segmentation text delimiters cut pieces)
    (hsub : todo ⊆ delimiters) (hne : ∀ d ∈ todo, d ≠ "") :
    Segmentation text delimiters (cut ++ todo)
      (todo.foldl (fun ss d => TypedClient.splitPieces delimiters d ss) pieces) := by
  induction todo generalizing cut pieces with
  | nil => simpa using h
  | cons d ds ih =>
    have hd := h.splitPieces (hsub (List.mem_cons_self ..)) (hne d (List.mem_cons_self ..))
    have hds := ih hd (fun x hx => hsub (List.mem_cons_of_mem d hx))
      (fun x hx => hne x (List.mem_cons_of_mem d hx))
    simpa using hds

end Segmentation

/-- Before the first turn the text is its only piece. -/
theorem segmentation_nil (text : String) (delimiters : List String) :
    Segmentation text delimiters [] [text] :=
  ⟨.single text, by simp, fun _ _ _ _ hd => absurd hd List.not_mem_nil⟩

/-- **The segments of a text**, cut at delimiters that are not empty, make up the text,
have a delimiter at every second place, and contain a delimiter only if they are one. -/
theorem segmentation_splitAll {delimiters : List String} (text : String)
    (hne : ∀ d ∈ delimiters, d ≠ "") :
    Segmentation text delimiters delimiters (splitAll text delimiters) := by
  have h := segmentation_nil text delimiters
  simpa [splitAll] using h.foldl (List.Subset.refl delimiters) hne

theorem splitAll_of_mem {text : String} {delimiters : List String} (h : text ∈ delimiters) :
    splitAll text delimiters = [text] := by
  have hrun : ∀ todo : List String,
      todo.foldl (fun ss d => splitPieces delimiters d ss) [text] = [text] := by
    intro todo
    induction todo with
    | nil => rfl
    | cons d ds ih => rwa [List.foldl_cons, splitPieces, List.flatMap_singleton, if_pos h]
  exact hrun delimiters

/-! ## The first segment

The first segment is found by shortening the text at one delimiter after another, until
it is a delimiter itself. -/

/-- The text before the first occurrence of a delimiter. -/
def beforeFirst (delimiter text : String) : String :=
  (splitKeeping text delimiter).headD ""

theorem beforeFirst_cases {delimiter : String} (h : delimiter ≠ "") (text : String) :
    ¬ Occurs delimiter text ∧ beforeFirst delimiter text = text ∨
      ¬ Occurs delimiter (beforeFirst delimiter text) ∧
        ∃ s, text = beforeFirst delimiter text ++ delimiter ++ s := by
  have hcut : Cut delimiter.toList text.toList _ := cut_of_ne_empty h
  rw [beforeFirst, splitKeeping_eq h]
  generalize splitOn delimiter.toList text.toList = ts at hcut
  generalize ht : text.toList = t at hcut
  cases hcut with
  | whole hw =>
    left
    rw [← ht] at hw
    exact ⟨hw, by simp [← ht]⟩
  | @next t s ts hw hs =>
    right
    obtain ⟨u, us, rfl⟩ := List.exists_cons_of_ne_nil hs.ne_nil
    refine ⟨by simpa [Occurs] using hw, String.ofList s, ?_⟩
    rw [← String.toList_inj, ht]
    simp

/-- The first segment, when the delimiters in `todo` have still to have their turn. -/
def leading (delimiters todo : List String) (text : String) : String :=
  todo.foldl (fun t d => if t ∈ delimiters then t else beforeFirst d t) text

section Leading

variable {delimiters todo : List String} {text : String}

theorem leading_cons (d : String) :
    leading delimiters (d :: todo) text =
      leading delimiters todo (if text ∈ delimiters then text else beforeFirst d text) := rfl

/-- A delimiter is not cut any more. -/
theorem leading_of_mem (h : text ∈ delimiters) : leading delimiters todo text = text := by
  induction todo with
  | nil => rfl
  | cons d ds ih => rw [leading_cons, if_pos h, ih]

theorem exists_splitKeeping_eq (d text : String) :
    ∃ ss, splitKeeping text d = beforeFirst d text :: ss := by
  have ha : Alternating [d] (splitKeeping text d) := alternating_splitKeeping (by simp)
  rw [beforeFirst]
  generalize splitKeeping text d = ss at ha
  cases ha with
  | single s => exact ⟨[], rfl⟩
  | step s _ _ => exact ⟨_, rfl⟩

theorem head?_foldl_splitPieces (ss : List String) :
    (todo.foldl (fun ss d => splitPieces delimiters d ss) (text :: ss)).head? =
      some (leading delimiters todo text) := by
  induction todo generalizing ss text with
  | nil => rfl
  | cons d ds ih =>
    rw [List.foldl_cons, leading_cons, splitPieces, List.flatMap_cons]
    split
    · exact ih _
    · obtain ⟨ts, hts⟩ := exists_splitKeeping_eq d text
      rw [hts]
      exact ih _

theorem head?_splitAll (text : String) (delimiters : List String) :
    (splitAll text delimiters).head? = some (leading delimiters delimiters text) :=
  head?_foldl_splitPieces []

/-- A text starts with two delimiters, the second of which has its turn before the
first. -/
def StartsOutOfOrder (delimiters : List String) (text : String) : Prop :=
  ∃ a ∈ delimiters, ∃ b ∈ delimiters, delimiters.idxOf a < delimiters.idxOf b ∧
    (b ++ a).toList <+: text.toList

theorem idxOf_lt_idxOf_append {xs ys : List String} {a b : String} (ha : a ∈ xs)
    (hb : b ∉ xs) : (xs ++ ys).idxOf a < (xs ++ ys).idxOf b := by
  have hlt := List.idxOf_lt_length_iff.mpr ha
  rw [List.idxOf_append, List.idxOf_append, if_pos ha, if_neg hb]
  omega

/-- A text that is no delimiter is cut down to one only if it starts with two delimiters
out of order. -/
theorem startsOutOfOrder_of_leading {before : List String}
    (hd : delimiters = before ++ todo) (hne : ∀ d ∈ delimiters, d ≠ "") {t : String}
    (hpre : t.toList <+: text.toList) (ht : t ∉ delimiters)
    (hclean : ∀ d ∈ before, ¬ Occurs d t) (h : leading delimiters todo t ∈ delimiters) :
    StartsOutOfOrder delimiters text := by
  -- the induction keeps that `t` begins the text and is free of the delimiters before `todo`
  induction todo generalizing before t with
  | nil => exact absurd h ht
  | cons a todo ih =>
    have hmem : a ∈ delimiters := by simp [hd]
    have hd' : delimiters = (before ++ [a]) ++ todo := by simp [hd]
    rw [leading_cons, if_neg ht] at h
    rcases beforeFirst_cases (hne a hmem) t with ⟨hocc, heq⟩ | ⟨hocc, s, heq⟩
    · rw [heq] at h
      refine ih hd' hpre ht (fun d hdm => ?_) h
      rcases List.mem_append.mp hdm with hdm | hdm
      · exact hclean d hdm
      · rwa [List.mem_singleton.mp hdm]
    · generalize beforeFirst a t = b at h hocc heq
      have hbt : Occurs b t := by
        rw [heq, String.append_assoc, Occurs, String.toList_append]
        exact (List.prefix_append ..).isInfix
      by_cases hb : b ∈ delimiters
      · -- the text is cut down to `b` by `a`, so neither `a` nor what came before it is `b`
        refine ⟨a, hmem, b, hb, ?_, ?_⟩
        · have hbn : b ∉ before ++ [a] := by
            intro hm
            rcases List.mem_append.mp hm with hm | hm
            · exact hclean b hm hbt
            · exact hocc (List.mem_singleton.mp hm ▸ List.infix_rfl)
          rw [hd']
          exact idxOf_lt_idxOf_append (by simp) hbn
        · refine List.IsPrefix.trans ?_ hpre
          rw [heq, String.toList_append, String.toList_append, String.toList_append]
          exact List.prefix_append ..
      · refine ih hd' (List.IsPrefix.trans ?_ hpre) hb (fun d hdm => ?_) h
        · rw [heq, String.append_assoc, String.toList_append]
          exact List.prefix_append ..
        · rcases List.mem_append.mp hdm with hdm | hdm
          · exact fun hi => hclean d hdm (hi.trans hbt)
          · rwa [List.mem_singleton.mp hdm]

end Leading

end TypedClient
