import TypedClient.Proofs.Substitutions

/-!
# Places of texts

Segments have delimiters at the odd places, and the even places are those of the texts between
them. But a delimiter may get into the place of a text as well: a piece that is a delimiter stays as
it is, even if it has not been cut out of anything. Which delimiters do so can be read off the text:
a delimiter is by itself at its turn when on each side of it the text ends or a delimiter with an
earlier turn stands.

## Main definitions

* `Alternates`: delimiters at the odd places, and only there
* `Enclosed`: a delimiter between ends of the text and delimiters with an earlier turn
* `EnclosedAtTextPlaces`: the delimiters at the places of texts are the enclosed ones
* `Turns`: what is known when some of the delimiters have had their turn

## Main results

* `enclosedAtTextPlaces_splitPieces`, `turns_splitAll`: what one turn keeps, and what all turns keep
* `exists_piece_of_occurs`: a placeholder in a text is one of its segments
* `splitAll_alternates_iff`: when segments alternate
-/

namespace TypedClient

open Text

/-! ## Places in alternating lists -/

theorem exists_eq_append_getElem {ss : List String} {i : Nat} (h : i < ss.length) :
    ∃ before after, ss = before ++ ss[i] :: after ∧ before.length = i := by
  refine ⟨ss.take i, ss.drop (i + 1), ?_, List.length_take_of_le (Nat.le_of_lt h)⟩
  rw [List.getElem_cons_drop, List.take_append_drop]

namespace Alternating

variable {delimiters es ss before after : List String} {d : String}

theorem length_odd (h : Alternating delimiters ss) : ss.length % 2 = 1 := by
  induction h with
  | single s => rfl
  | step s _ _ ih =>
    rw [List.length_cons, List.length_cons]
    omega

theorem mono (h : Alternating delimiters ss) (hsub : delimiters ⊆ es) : Alternating es ss := by
  induction h with
  | single s => exact .single s
  | step s hd _ ih => exact .step s (hsub hd) ih

/-- **Delimiters stand at the odd places.** -/
theorem mem_of_odd (h : Alternating delimiters (before ++ d :: after))
    (hodd : before.length % 2 = 1) : d ∈ delimiters := by
  generalize hss : before ++ d :: after = ss at h
  -- two places at a time, as the list is made
  induction h generalizing before with
  | single s =>
    cases before with
    | nil => cases hodd
    | cons t before => simp at hss
  | step s he _ ih =>
    match before, hodd with
    | [_], _ =>
      obtain ⟨_, hd⟩ := List.cons.inj hss
      obtain ⟨rfl, _⟩ := List.cons.inj hd
      exact he
    | _ :: _ :: before, hodd =>
      refine ih ?_ (List.cons.inj (List.cons.inj hss).2).2
      rw [List.length_cons, List.length_cons] at hodd
      omega

theorem getElem_mem_of_odd (h : Alternating delimiters ss) {i : Nat} (hi : i < ss.length)
    (hodd : i % 2 = 1) : ss[i] ∈ delimiters := by
  obtain ⟨before, after, hss, rfl⟩ := exists_eq_append_getElem hi
  rw [hss] at h
  exact h.mem_of_odd hodd

end Alternating

/-- A delimiter at every odd place and none at another one. -/
def Alternates (delimiters pieces : List String) : Prop :=
  ∀ i (h : i < pieces.length), pieces[i] ∈ delimiters ↔ i % 2 = 1

instance (delimiters pieces : List String) : Decidable (Alternates delimiters pieces) :=
  inferInstanceAs (Decidable (∀ i (h : i < pieces.length), pieces[i] ∈ delimiters ↔ i % 2 = 1))

/-! ## Enclosed delimiters -/

/-- The delimiters that have their turn before a given one. -/
def earlier (delimiters : List String) (d : String) : List String :=
  delimiters.takeWhile (· != d)

/-- A text that is empty or ends with one of the delimiters. -/
def EndsIn (delimiters : List String) (t : List Char) : Prop :=
  t = [] ∨ ∃ d ∈ delimiters, d.toList <:+ t

/-- A text that is empty or begins with one of the delimiters. -/
def BeginsIn (delimiters : List String) (t : List Char) : Prop :=
  t = [] ∨ ∃ d ∈ delimiters, d.toList <+: t

/-- A delimiter with the texts before and behind it: on each side the text ends there, or an
earlier delimiter stands there. -/
def Enclosed (delimiters : List String) (d : String) (before after : List Char) : Prop :=
  EndsIn (earlier delimiters d) before ∧ BeginsIn (earlier delimiters d) after

/-- The delimiters at the places of texts are those that are enclosed. -/
def EnclosedAtTextPlaces (delimiters pieces : List String) : Prop :=
  ∀ before d after, pieces = before ++ d :: after → d ∈ delimiters →
    (before.length % 2 = 0 ↔
      Enclosed delimiters d (String.join before).toList (String.join after).toList)

section Ends

variable {ds es rest : List String} {d : String} {s t : List Char}

theorem EndsIn.mono (h : EndsIn ds t) (hsub : ds ⊆ es) : EndsIn es t :=
  h.imp_right fun ⟨d, hd, ht⟩ => ⟨d, hsub hd, ht⟩

theorem BeginsIn.mono (h : BeginsIn ds t) (hsub : ds ⊆ es) : BeginsIn es t :=
  h.imp_right fun ⟨d, hd, ht⟩ => ⟨d, hsub hd, ht⟩

theorem EndsIn.append (hs : EndsIn ds s) (ht : EndsIn ds t) : EndsIn ds (s ++ t) := by
  rcases ht with rfl | ⟨d, hd, ht⟩
  · rwa [List.append_nil]
  · exact .inr ⟨d, hd, ht.trans (List.suffix_append s t)⟩

theorem BeginsIn.append (hs : BeginsIn ds s) (ht : BeginsIn ds t) : BeginsIn ds (s ++ t) := by
  rcases hs with rfl | ⟨d, hd, hs⟩
  · exact ht
  · exact .inr ⟨d, hd, hs.trans (List.prefix_append s t)⟩

theorem earlier_append (hd : d ∉ ds) : earlier (ds ++ rest) d = ds ++ earlier rest d :=
  List.takeWhile_append_of_pos fun _ he => bne_iff_ne.mpr (ne_of_mem_of_not_mem he hd)

theorem earlier_cons_self : earlier (d :: rest) d = [] := by
  simp [earlier]

/-- What comes before the place of a text ends with a delimiter. -/
theorem Alternating.endsIn {before after : List String} {s : String}
    (h : Alternating ds (before ++ s :: after)) (heven : before.length % 2 = 0) :
    EndsIn ds (String.join before).toList := by
  rcases List.eq_nil_or_concat before with rfl | ⟨first, d, rfl⟩
  · exact .inl rfl
  · rw [List.concat_eq_append] at h heven ⊢
    rw [List.length_append, List.length_singleton] at heven
    rw [List.append_assoc] at h
    refine .inr ⟨d, h.mem_of_odd (by omega), ?_⟩
    rw [String.join_append, String.toList_append]
    simp

/-- What comes behind the place of a text begins with a delimiter. -/
theorem Alternating.beginsIn {before after : List String} {s : String}
    (h : Alternating ds (before ++ s :: after)) (heven : before.length % 2 = 0) :
    BeginsIn ds (String.join after).toList := by
  cases after with
  | nil => exact .inl rfl
  | cons d rest =>
    rw [← List.singleton_append, ← List.append_assoc] at h
    refine .inr ⟨d, h.mem_of_odd ?_, ?_⟩
    · rw [List.length_append, List.length_singleton]
      omega
    · rw [String.join_cons, String.toList_append]
      exact List.prefix_append ..

end Ends

/-! ## Placeholders next to each other -/

/-- The placeholder of a name without braces. -/
def PlainPlaceholder (d : String) : Prop :=
  ∃ name, BraceFree name ∧ placeholder name = d

section Plain

variable {ds : List String} {d e : String} {s t x : List Char}

theorem PlainPlaceholder.ne_empty (h : PlainPlaceholder d) : d ≠ "" := by
  obtain ⟨name, _, rfl⟩ := h
  exact placeholder_ne_empty name

theorem plain_append_cases (hd : PlainPlaceholder d) (he : PlainPlaceholder e)
    (h : d.toList ++ x = t ++ e.toList ++ s) :
    t = [] ∧ d = e ∨ ∃ u, t = d.toList ++ u ∧ x = u ++ e.toList ++ s := by
  obtain ⟨name, hname, rfl⟩ := hd
  obtain ⟨other, hother, rfl⟩ := he
  exact (placeholder_append_cases hname hother h).imp_left fun h => ⟨h.1, congrArg _ h.2⟩

/-- If a text ends with a placeholder that does not occur behind another placeholder in it, nothing
comes behind the other one. -/
theorem eq_empty_of_suffix (hd : PlainPlaceholder d) (he : PlainPlaceholder e) {u : String}
    (hu : ¬ Occurs d u) (h : d.toList <:+ t ++ e.toList ++ u.toList) : u = "" := by
  obtain ⟨r, hr⟩ := h
  rw [List.append_assoc] at hr
  rcases List.append_eq_append_iff.mp hr with ⟨w, rfl, hw⟩ | ⟨w, rfl, hw⟩
  · -- the other placeholder begins inside this one, so it is the same
    rw [← List.append_nil d.toList, ← List.append_assoc] at hw
    rcases plain_append_cases hd he hw with ⟨rfl, rfl⟩ | ⟨v, _, hv⟩
    · simpa using hw
    · rw [List.nil_eq, List.append_eq_nil_iff] at hv
      exact String.toList_eq_nil_iff.mp hv.2
  · -- this placeholder begins inside the other one, or behind it
    rw [← List.append_nil (w ++ d.toList)] at hw
    rcases plain_append_cases he hd hw with ⟨rfl, rfl⟩ | ⟨v, _, hv⟩
    · simpa using hw
    · refine absurd ?_ hu
      rw [Occurs, hv]
      exact List.infix_append ..

/-- If a text begins with a placeholder that does not occur before another placeholder in it, nothing
comes before the other one. -/
theorem eq_empty_of_prefix (hd : PlainPlaceholder d) (he : PlainPlaceholder e) {u : String}
    (hu : ¬ Occurs d u) (h : d.toList <+: u.toList ++ e.toList ++ t) : u = "" := by
  obtain ⟨name, hname, rfl⟩ := hd
  obtain ⟨other, _, rfl⟩ := he
  obtain ⟨r, hr⟩ := h
  have hbegin : u.toList ++ (placeholder other).toList ++ t =
      [] ++ (placeholder name).toList ++ r := hr.symm
  obtain ⟨between, hbetween, _⟩ := exists_eq_append_of_occurs hname hu hbegin
  exact String.toList_eq_nil_iff.mp (List.append_eq_nil_iff.mp hbetween.symm).1

theorem eq_empty_of_endsIn (hplain : ∀ d ∈ ds, PlainPlaceholder d) {u : String}
    (hu : ∀ d ∈ ds, ¬ Occurs d u) (ht : EndsIn ds t) (h : EndsIn ds (t ++ u.toList)) : u = "" := by
  rcases h with h | ⟨d, hd, h⟩
  · exact String.toList_eq_nil_iff.mp (List.append_eq_nil_iff.mp h).2
  · rcases ht with rfl | ⟨e, he, r, rfl⟩
    · exact absurd h.isInfix (hu d hd)
    · exact eq_empty_of_suffix (hplain d hd) (hplain e he) (hu d hd) h

theorem eq_empty_of_beginsIn (hplain : ∀ d ∈ ds, PlainPlaceholder d) {u : String}
    (hu : ∀ d ∈ ds, ¬ Occurs d u) (ht : BeginsIn ds t) (h : BeginsIn ds (u.toList ++ t)) :
    u = "" := by
  rcases h with h | ⟨d, hd, h⟩
  · exact String.toList_eq_nil_iff.mp (List.append_eq_nil_iff.mp h).1
  · rcases ht with rfl | ⟨e, he, r, rfl⟩
    · rw [List.append_nil] at h
      exact absurd h.isInfix (hu d hd)
    · rw [← List.append_assoc] at h
      exact eq_empty_of_prefix (hplain d hd) (hplain e he) (hu d hd) h

/-- Behind a segment, a placeholder comes after that segment, unless it is the segment. -/
theorem segment_append_cases (hplain : ∀ d ∈ ds, PlainPlaceholder d) {p : String}
    (hclean : p ∉ ds → ∀ d ∈ ds, ¬ Occurs d p) (hd : d ∈ ds) (he : e ∈ ds)
    {before after : List Char}
    (h : p.toList ++ e.toList ++ x = before ++ d.toList ++ after) :
    before = [] ∧ p = d ∨ ∃ between, before = p.toList ++ between ∧
      e.toList ++ x = between ++ d.toList ++ after := by
  by_cases hp : p ∈ ds
  · rw [List.append_assoc] at h
    exact plain_append_cases (hplain p hp) (hplain d hd) h
  · obtain ⟨name, hname, rfl⟩ := hplain d hd
    obtain ⟨other, _, rfl⟩ := hplain e he
    exact .inr (exists_eq_append_of_occurs hname (hclean hp _ hd) h)

/-- **A placeholder in a text is one of its segments**, if the segments that are no placeholders
contain none. -/
theorem exists_piece_of_occurs {ss : List String} (hss : Alternating ds ss)
    (hplain : ∀ d ∈ ds, PlainPlaceholder d)
    (hclean : ∀ s ∈ ss, s ∉ ds → ∀ d ∈ ds, ¬ Occurs d s) (hd : d ∈ ds) {before after : List Char}
    (h : (String.join ss).toList = before ++ d.toList ++ after) :
    ∃ first rest, ss = first ++ d :: rest ∧ (String.join first).toList = before ∧
      (String.join rest).toList = after := by
  induction hss generalizing before with
  | single p =>
    have hp : p ∈ ds := by
      by_contra hp
      refine hclean p (List.mem_singleton_self p) hp d hd ⟨before, after, ?_⟩
      simpa using h.symm
    have hwhole : p.toList ++ [] = before ++ d.toList ++ after := by simpa using h
    rcases plain_append_cases (hplain p hp) (hplain d hd) hwhole with ⟨rfl, rfl⟩ | ⟨u, _, hu⟩
    · exact ⟨[], [], rfl, rfl, by simpa using hwhole⟩
    · rw [List.nil_eq, List.append_eq_nil_iff, List.append_eq_nil_iff] at hu
      exact absurd (String.toList_eq_nil_iff.mp hu.1.2) (hplain d hd).ne_empty
  | @step p e ss he hss ih =>
    obtain ⟨hp, hclean⟩ := List.forall_mem_cons.mp hclean
    obtain ⟨_, hclean⟩ := List.forall_mem_cons.mp hclean
    have htext : p.toList ++ e.toList ++ (String.join ss).toList = before ++ d.toList ++ after := by
      simpa using h
    -- it is the first piece, the delimiter behind that, or one of the later pieces
    rcases segment_append_cases hplain hp hd he htext with ⟨rfl, rfl⟩ | ⟨between, rfl, hbetween⟩
    · refine ⟨[], e :: ss, rfl, rfl, ?_⟩
      simpa using htext
    rcases plain_append_cases (hplain e he) (hplain d hd) hbetween with ⟨rfl, rfl⟩ | ⟨u, rfl, hu⟩
    · exact ⟨[p], ss, rfl, by simp, by simpa using hbetween⟩
    · obtain ⟨first, rest, rfl, rfl, rfl⟩ := ih hclean hu
      exact ⟨p :: e :: first, rest, rfl, by simp, rfl⟩

end Plain

/-! ## One turn -/

section Turn

variable {text x d : String} {delimiters done rest pieces before after : List String}

/-- Where a piece comes from that is there after a turn. -/
theorem exists_of_flatMap_eq {f : String → List String}
    (h : pieces.flatMap f = before ++ d :: after) :
    ∃ first p last left right, pieces = first ++ p :: last ∧ f p = left ++ d :: right ∧
      before = first.flatMap f ++ left ∧ after = right ++ last.flatMap f := by
  induction pieces generalizing before with
  | nil => simp at h
  | cons s ss ih =>
    -- it comes from the first piece or from a later one
    have hfrom : (∃ right, f s = before ++ d :: right ∧ after = right ++ ss.flatMap f) ∨
        ∃ w, before = f s ++ w ∧ ss.flatMap f = w ++ d :: after := by
      rw [List.flatMap_cons] at h
      rcases List.append_eq_append_iff.mp h with hlater | ⟨w, hs, hw⟩
      · exact .inr hlater
      · cases w with
        | nil => exact .inr ⟨[], by simpa using hs.symm, hw.symm⟩
        | cons c right =>
          obtain ⟨rfl, rfl⟩ := List.cons.inj hw
          exact .inl ⟨right, hs, rfl⟩
    rcases hfrom with ⟨right, hs, rfl⟩ | ⟨w, rfl, hw⟩
    · exact ⟨[], s, ss, before, right, rfl, hs, rfl, rfl⟩
    · obtain ⟨first, p, last, left, right, rfl, hp, rfl, hafter⟩ := ih hw
      exact ⟨s :: first, p, last, left, right, rfl, hp, by simp, hafter⟩

theorem length_splitPieces (hx : x ∈ delimiters) :
    (splitPieces delimiters x pieces).length % 2 = pieces.length % 2 := by
  induction pieces with
  | nil => rfl
  | cons s ss ih =>
    have hs : (if s ∈ delimiters then [s] else splitKeeping s x).length % 2 = 1 := by
      split
      · rfl
      · exact (alternating_splitKeeping hx).length_odd
    rw [splitPieces, List.flatMap_cons, ← splitPieces, List.length_append, List.length_cons]
    omega

/-- At the places of texts, a piece that is cut holds no delimiter. -/
theorem not_occurs_of_even {p : String} (hx : x ≠ "")
    (h : splitKeeping p x = before ++ d :: after) (heven : before.length % 2 = 0) :
    ¬ Occurs x d := by
  -- the even places are those of the texts that have been interspersed with the delimiter
  have hat : (splitKeeping p x)[2 * (before.length / 2)]? = some d := by
    have hlength : 2 * (before.length / 2) = before.length := by omega
    rw [h, hlength, List.getElem?_append_right (Nat.le_refl _), Nat.sub_self]
    rfl
  rw [splitKeeping_eq hx, List.getElem?_intersperse_two_mul] at hat
  obtain ⟨t, ht, rfl⟩ := List.mem_map.mp (List.mem_of_getElem? hat)
  rw [Occurs, String.toList_ofList]
  exact (cut_of_ne_empty hx).infix_free t ht

/-- What is left of a piece after it has been cut at `x` holds neither `x` nor a delimiter before
it, so a delimiter that it holds has its turn later. -/
theorem subset_earlier (hds : delimiters = done ++ x :: rest) {p : String}
    (hclean : ∀ e ∈ done, ¬ Occurs e p) (hocc : Occurs d p) (hx : ¬ Occurs x d) :
    done ++ [x] ⊆ earlier delimiters d := by
  have hd : d ∉ done ++ [x] := by
    intro hmem
    rcases List.mem_append.mp hmem with hmem | hmem
    · exact hclean d hmem hocc
    · exact hx (List.mem_singleton.mp hmem ▸ List.infix_rfl)
  rw [hds, List.append_cons done x rest, earlier_append hd]
  exact List.subset_append_left ..

/-- A delimiter that is cut out of a larger piece is not enclosed by those that are cut already. -/
theorem eq_of_enclosed_in_piece (hplain : ∀ d ∈ done, PlainPlaceholder d) {p u v : String}
    {s t : List Char} (hp : u ++ x ++ v = p) (hclean : ∀ e ∈ done, ¬ Occurs e p)
    (hs : EndsIn done s) (ht : BeginsIn done t) (hbefore : EndsIn done (s ++ u.toList))
    (hafter : BeginsIn done (v.toList ++ t)) : p = x := by
  have hu : Occurs u p := by
    rw [Occurs, ← hp, String.append_assoc, String.toList_append]
    exact (List.prefix_append ..).isInfix
  have hv : Occurs v p := by
    rw [Occurs, ← hp, String.toList_append]
    exact (List.suffix_append ..).isInfix
  obtain rfl := eq_empty_of_endsIn hplain (fun e he h => hclean e he (h.trans hu)) hs hbefore
  obtain rfl := eq_empty_of_beginsIn hplain (fun e he h => hclean e he (h.trans hv)) ht hafter
  rw [← hp, String.empty_append, String.append_empty]

/-- **What becomes of a piece that is cut**, with a text before and one behind it that border on it
with delimiters that are cut already. A delimiter at an odd place is the one that has its turn; a
delimiter at an even place is left over between two cuts, both of which come before its turn. -/
theorem even_iff_enclosed_of_cut (hds : delimiters = done ++ x :: rest)
    (hplain : ∀ d ∈ delimiters, PlainPlaceholder d) {p : String} (hmem : p ∉ delimiters)
    (hclean : ∀ e ∈ done, ¬ Occurs e p) {left right : List String}
    (hp : splitKeeping p x = left ++ d :: right) {s t : List Char} (hs : EndsIn done s)
    (ht : BeginsIn done t) :
    left.length % 2 = 0 ↔ Enclosed delimiters d (s ++ (String.join left).toList)
      ((String.join right).toList ++ t) := by
  have hx : x ∈ delimiters := by simp [hds]
  have hdone : done ⊆ delimiters := by simp [hds]
  have halt : Alternating [x] (left ++ d :: right) :=
    hp ▸ alternating_splitKeeping (List.mem_singleton_self x)
  have hwhole : String.join (splitKeeping p x) = p := join_splitKeeping
  rw [hp, String.join_append, String.join_cons, ← String.append_assoc] at hwhole
  have hocc : Occurs d p := by
    apply occurs_of_mem_splitKeeping
    rw [hp]
    simp
  by_cases hleft : left.length % 2 = 0
  · have hlater := subset_earlier hds hclean hocc
      (not_occurs_of_even (hplain x hx).ne_empty hp hleft)
    obtain ⟨hsub, hsubx⟩ := List.append_subset.mp hlater
    refine iff_of_true hleft ⟨?_, ?_⟩
    · exact (hs.mono hsub).append ((halt.endsIn hleft).mono hsubx)
    · exact ((halt.beginsIn hleft).mono hsubx).append (ht.mono hsub)
  · obtain rfl : d = x := List.mem_singleton.mp (halt.mem_of_odd (by omega))
    have hnew : d ∉ done := fun hd => hclean d hd hocc
    refine iff_of_false hleft fun ⟨hbefore, hafter⟩ => hmem ?_
    rw [hds, earlier_append hnew, earlier_cons_self, List.append_nil] at hbefore hafter
    rwa [eq_of_enclosed_in_piece (fun e he => hplain e (hdone he)) hwhole hclean hs ht hbefore
      hafter]

/-- **One turn keeps that the delimiters at the places of texts are the enclosed ones.** -/
theorem enclosedAtTextPlaces_splitPieces (hds : delimiters = done ++ x :: rest)
    (hplain : ∀ d ∈ delimiters, PlainPlaceholder d)
    (hpieces : Segmentation text delimiters done pieces) (hcut : Alternating done pieces)
    (h : EnclosedAtTextPlaces delimiters pieces) :
    EnclosedAtTextPlaces delimiters (splitPieces delimiters x pieces) := by
  have hx : x ∈ delimiters := by simp [hds]
  intro before d after heq hd
  obtain ⟨first, p, last, left, right, rfl, hp, rfl, rfl⟩ := exists_of_flatMap_eq heq
  rw [← splitPieces, ← splitPieces, List.length_append, Nat.add_mod, length_splitPieces hx,
    ← Nat.add_mod, String.join_append, String.join_append, join_splitPieces, join_splitPieces,
    String.toList_append, String.toList_append]
  by_cases hmem : p ∈ delimiters
  · -- the piece stays as it is
    rw [if_pos hmem] at hp
    obtain ⟨rfl, rfl, rfl⟩ : left = [] ∧ p = d ∧ right = [] := by
      cases left with
      | nil => simpa using hp
      | cons c left => simp at hp
    simpa using h first p last rfl hd
  · -- only at the places of texts there are pieces that are cut
    rw [if_neg hmem] at hp
    have hdone : done ⊆ delimiters := by simp [hds]
    have heven : first.length % 2 = 0 := by
      by_contra hodd
      exact hmem (hdone (hcut.mem_of_odd (by omega)))
    have hclean : ∀ e ∈ done, ¬ Occurs e p := hpieces.clean p (by simp) hmem
    rw [← even_iff_enclosed_of_cut hds hplain hmem hclean hp (hcut.endsIn heven)
      (hcut.beginsIn heven)]
    omega

end Turn

/-! ## All turns -/

/-- What is known of the pieces of a text when the delimiters in `done` have had their turn. -/
structure Turns (text : String) (delimiters done pieces : List String) : Prop
    extends Segmentation text delimiters done pieces where
  cut : Alternating done pieces
  enclosed : EnclosedAtTextPlaces delimiters pieces

section Run

variable {text : String} {delimiters done todo pieces : List String}

/-- Before the first turn the whole text is at the place of a text. -/
theorem turns_nil (text : String) (delimiters : List String) :
    Turns text delimiters [] [text] where
  toSegmentation := segmentation_nil text delimiters
  cut := .single text
  enclosed := by
    intro before d after h _
    cases before with
    | nil =>
      obtain ⟨rfl, rfl⟩ := List.cons.inj h
      exact iff_of_true rfl ⟨.inl rfl, .inl rfl⟩
    | cons c before => simp at h

/-- Several delimiters have their turn, one after another. -/
theorem Turns.foldl (h : Turns text delimiters done pieces) (hds : delimiters = done ++ todo)
    (hplain : ∀ d ∈ delimiters, PlainPlaceholder d) :
    Turns text delimiters delimiters
      (todo.foldl (fun ss d => splitPieces delimiters d ss) pieces) := by
  induction todo generalizing done pieces with
  | nil =>
    obtain rfl : done = delimiters := by simp [hds]
    exact h
  | cons x todo ih =>
    have hx : x ∈ delimiters := by simp [hds]
    have hdone : done ++ [x] ⊆ delimiters := by simp [hds]
    refine ih ⟨h.toSegmentation.splitPieces hx (hplain x hx).ne_empty, ?_, ?_⟩ (by simp [hds])
    · refine (h.cut.mono (List.subset_append_left ..)).flatMap (fun s => ?_) fun s hs =>
        if_pos (hdone hs)
      split
      · exact .single s
      · exact alternating_splitKeeping (by simp)
    · exact enclosedAtTextPlaces_splitPieces hds hplain h.toSegmentation h.cut h.enclosed

/-- **The segments of a text** after all turns. -/
theorem turns_splitAll (text : String) (hplain : ∀ d ∈ delimiters, PlainPlaceholder d) :
    Turns text delimiters delimiters (splitAll text delimiters) :=
  (turns_nil text delimiters).foldl (List.nil_append _).symm hplain

/-- Segments alternate just when no delimiter in the text is enclosed. -/
theorem Turns.alternates_iff (h : Turns text delimiters delimiters pieces)
    (hplain : ∀ d ∈ delimiters, PlainPlaceholder d) :
    Alternates delimiters pieces ↔
      ∀ d ∈ delimiters, ∀ before after, text.toList = before ++ d.toList ++ after →
        ¬ Enclosed delimiters d before after := by
  constructor
  · -- an enclosed delimiter of the text is one of the pieces, at the place of a text
    intro halt d hd before after htext henclosed
    rw [← h.join_eq] at htext
    obtain ⟨first, rest, rfl, rfl, rfl⟩ :=
      exists_piece_of_occurs h.alternating hplain h.clean hd htext
    have hplace := halt first.length (by simp)
    rw [List.getElem_append_right (Nat.le_refl _)] at hplace
    have heven := (h.enclosed first d rest rfl hd).mpr henclosed
    simp [hd, heven] at hplace
  · intro hnone i hi
    refine ⟨fun hmem => ?_, h.alternating.getElem_mem_of_odd hi⟩
    by_contra hodd
    obtain ⟨before, after, hpieces, rfl⟩ := exists_eq_append_getElem hi
    generalize pieces[before.length] = s at hpieces hmem
    have henclosed := (h.enclosed _ _ _ hpieces hmem).mp (by omega)
    refine hnone s hmem _ _ ?_ henclosed
    rw [← h.join_eq, hpieces]
    simp

/-- **When segments alternate.** The segments of a text at placeholders of names without braces make
up the text, their number is odd, every odd place has a placeholder, and a segment that is none
contains none. The placeholders stand at the odd places only, with a text that may be empty before,
between and behind them, just when none of them is enclosed in the text by its ends and by
placeholders with an earlier turn. -/
theorem splitAll_alternates_iff (hplain : ∀ d ∈ delimiters, PlainPlaceholder d) (text : String) :
    String.join (splitAll text delimiters) = text ∧
      (splitAll text delimiters).length % 2 = 1 ∧
      (∀ i (h : i < (splitAll text delimiters).length), i % 2 = 1 →
        (splitAll text delimiters)[i] ∈ delimiters) ∧
      (∀ s ∈ splitAll text delimiters, s ∉ delimiters → ∀ d ∈ delimiters, ¬ Occurs d s) ∧
      (Alternates delimiters (splitAll text delimiters) ↔
        ∀ d ∈ delimiters, ∀ before after, text.toList = before ++ d.toList ++ after →
          ¬ Enclosed delimiters d before after) := by
  have h := turns_splitAll text hplain
  exact ⟨h.join_eq, h.alternating.length_odd, fun _ hi => h.alternating.getElem_mem_of_odd hi,
    h.clean, h.alternates_iff hplain⟩

/-- The placeholders of two names. -/
def twoPlaceholders : List String :=
  [placeholder "a", placeholder "b"]

theorem twoPlaceholders_plain : ∀ d ∈ twoPlaceholders, PlainPlaceholder d :=
  List.forall_mem_cons.mpr ⟨⟨"a", by decide, rfl⟩,
    List.forall_mem_singleton.mpr ⟨"b", by decide, rfl⟩⟩

/-- Two placeholders next to each other, with texts around them, and one at the end. -/
theorem adjacentInside_alternates :
    (∀ d ∈ twoPlaceholders, PlainPlaceholder d) ∧
      Alternates twoPlaceholders
        (splitAll "/x/\x7ba\x7d\x7bb\x7d/y/\x7bb\x7d" twoPlaceholders) ∧
      ∀ d ∈ twoPlaceholders, ∀ before after,
        "/x/\x7ba\x7d\x7bb\x7d/y/\x7bb\x7d".toList = before ++ d.toList ++ after →
          ¬ Enclosed twoPlaceholders d before after := by
  have halt : Alternates twoPlaceholders
      (splitAll "/x/\x7ba\x7d\x7bb\x7d/y/\x7bb\x7d" twoPlaceholders) := by decide
  exact ⟨twoPlaceholders_plain, halt,
    (splitAll_alternates_iff twoPlaceholders_plain _).2.2.2.2.mp halt⟩

/-- **Segments need not alternate**: with two placeholders next to each other at the end, no text is
kept between them and none behind them. -/
theorem adjacentAtEnd_not_alternates :
    (∀ d ∈ twoPlaceholders, PlainPlaceholder d) ∧ twoPlaceholders.Nodup ∧
      splitAll "/\x7ba\x7d\x7bb\x7d" twoPlaceholders =
        ["/", "\x7ba\x7d", "\x7bb\x7d"] ∧
      ¬ Alternates twoPlaceholders (splitAll "/\x7ba\x7d\x7bb\x7d" twoPlaceholders) := by
  have hsegments : splitAll "/\x7ba\x7d\x7bb\x7d" twoPlaceholders =
      ["/", "\x7ba\x7d", "\x7bb\x7d"] := by decide
  refine ⟨twoPlaceholders_plain, by decide, hsegments, ?_⟩
  rw [hsegments]
  decide

end Run

end TypedClient
