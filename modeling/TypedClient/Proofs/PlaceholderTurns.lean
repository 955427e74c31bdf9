import TypedClient.Proofs.Substitutions
import TypedClient.Proofs.TypeScript.Parts

/-!
# Turns of placeholders

An address is cut at one placeholder after another, and an earlier cut may go through the middle
of a later placeholder, when braces stand in the names. What counts for a path parameter is the
address as it is when the turn comes to its placeholder: the parameter is substituted just when
the placeholder is still whole, and it is dropped without a fault otherwise.

## Main definitions

* `piecesAfter`: the pieces of a text when some of the delimiters have had their turn
* `StandsIn`: a delimiter is still whole in one of the pieces

## Main results

* `mem_splitAll_iff`: a delimiter becomes a segment just when it is whole at its turn
* `parameterReference_mem_url_iff`: the parameters that are substituted are those whose
  placeholder is a segment
* `url_substitutes_iff`: when a path parameter is substituted, and when all of them are
-/

namespace TypedClient

open Text TypeScript

/-! ## One delimiter -/

/-- The pieces of a text when the delimiters in `done` have had their turn. -/
def piecesAfter (delimiters done : List String) (text : String) : List String :=
  done.foldl (fun ss d => splitPieces delimiters d ss) [text]

/-- A delimiter is still whole: it is one of the pieces, or a part of a piece that is going to be
cut. -/
def StandsIn (delimiters : List String) (d : String) (pieces : List String) : Prop :=
  ∃ s ∈ pieces, s = d ∨ s ∉ delimiters ∧ Occurs d s

section Turns

variable {delimiters before after pieces : List String} {d e s text : String}

/-- Cutting brings out a delimiter wherever it occurs. -/
theorem mem_splitKeeping_iff (hne : d ≠ "") : d ∈ splitKeeping text d ↔ Occurs d text := by
  refine ⟨occurs_of_mem_splitKeeping, fun h => ?_⟩
  rw [splitKeeping_eq hne]
  have hcut : Cut d.toList text.toList _ := cut_of_ne_empty hne
  generalize splitOn d.toList text.toList = ts at hcut
  rw [Occurs] at h
  generalize text.toList = t at hcut h
  cases hcut with
  | whole hw => exact absurd h hw
  | next _ hs =>
    obtain ⟨u, us, rfl⟩ := List.exists_cons_of_ne_nil hs.ne_nil
    simp

/-- The turn of a delimiter makes it a piece just when it is still whole. -/
theorem mem_splitPieces_self (hd : d ∈ delimiters) (hne : d ≠ "") :
    d ∈ splitPieces delimiters d pieces ↔ StandsIn delimiters d pieces := by
  rw [splitPieces, List.mem_flatMap]
  refine exists_congr fun s => and_congr_right fun _ => ?_
  split
  · next hs =>
    rw [List.mem_singleton]
    exact ⟨fun h => Or.inl h.symm, fun h => (h.resolve_right fun h => h.1 hs).symm⟩
  · next hs =>
    rw [mem_splitKeeping_iff hne]
    exact ⟨fun h => Or.inr ⟨hs, h⟩, fun h => (h.resolve_left fun h => hs (h ▸ hd)).2⟩

/-- A delimiter that is whole in no piece but itself is not made by further cuts. -/
theorem mem_splitPieces_iff (hd : d ∈ delimiters)
    (hclean : ∀ s ∈ pieces, s ∉ delimiters → ¬ Occurs d s) :
    d ∈ splitPieces delimiters e pieces ↔ d ∈ pieces := by
  rw [splitPieces, List.mem_flatMap]
  constructor
  · rintro ⟨s, hs, hm⟩
    split at hm
    · exact List.mem_singleton.mp hm ▸ hs
    · next hn => exact absurd (occurs_of_mem_splitKeeping hm) (hclean s hs hn)
  · intro h
    exact ⟨d, h, by rw [if_pos hd]; exact List.mem_singleton_self d⟩

/-- The turns that come after its own neither make nor unmake a delimiter. -/
theorem mem_foldl_splitPieces_iff {cut : List String}
    (h : Segmentation text delimiters cut pieces) (hd : d ∈ delimiters) (hcut : d ∈ cut)
    (hafter : after ⊆ delimiters) (hne : ∀ x ∈ delimiters, x ≠ "") :
    d ∈ after.foldl (fun ss x => splitPieces delimiters x ss) pieces ↔ d ∈ pieces := by
  induction after generalizing cut pieces with
  | nil => exact Iff.rfl
  | cons x after ih =>
    obtain ⟨hx, hafter⟩ := List.cons_subset.mp hafter
    have hnext := h.splitPieces hx (hne x hx)
    rw [List.foldl_cons, ih hnext (List.mem_append_left _ hcut) hafter,
      mem_splitPieces_iff hd fun s hs hn => h.clean s hs hn d hcut]

theorem segmentation_piecesAfter {done : List String} (text : String)
    (hdone : done ⊆ delimiters) (hne : ∀ x ∈ delimiters, x ≠ "") :
    Segmentation text delimiters done (piecesAfter delimiters done text) := by
  have hrun := (segmentation_nil text delimiters).foldl hdone fun x hx => hne x (hdone hx)
  rwa [List.nil_append] at hrun

/-- **A delimiter becomes a segment just when it is still whole at its turn.** -/
theorem mem_splitAll_iff (hds : delimiters = before ++ d :: after)
    (hne : ∀ x ∈ delimiters, x ≠ "") :
    d ∈ splitAll text delimiters ↔ StandsIn delimiters d (piecesAfter delimiters before text) := by
  have hd : d ∈ delimiters := by simp [hds]
  have hbefore : before ⊆ delimiters := by simp [hds]
  have hafter : after ⊆ delimiters := by
    rw [hds]
    exact fun x hx => List.mem_append_right _ (List.mem_cons_of_mem d hx)
  -- the turns are those before `d`, its own, and those after it
  have hrun : splitAll text delimiters =
      (before ++ d :: after).foldl (fun ss x => splitPieces delimiters x ss) [text] := by
    rw [← hds, splitAll]
  have hturn := (segmentation_piecesAfter text hbefore hne).splitPieces hd (hne d hd)
  rw [hrun, List.foldl_append, List.foldl_cons, ← piecesAfter,
    mem_foldl_splitPieces_iff hturn hd (by simp) hafter hne, mem_splitPieces_self hd (hne d hd)]

end Turns

/-! ## Substituted parameters -/

section Url

variable {op : Operation} {e : Expr} {name : String}

theorem parameterReference_injective : Function.Injective parameterReference := by
  intro a b h
  have hkey := congrArg Expr.lastKey h
  rwa [lastKey_parameterReference, lastKey_parameterReference] at hkey

theorem placeholder_injective : Function.Injective placeholder := by
  intro a b h
  have hlist := congrArg String.toList h
  rw [toList_placeholder, toList_placeholder, List.cons.injEq, List.append_left_inj] at hlist
  exact String.toList_injective hlist.2

/-- In the value of a parameter, no other part is the value of a parameter. -/
theorem parameterReference_mem_parts_iff {a b : String} :
    parameterReference a ∈ (parameterReference b).parts ↔ a = b := by
  constructor
  · intro h
    rw [parameterReference, parameterReference, access, access] at h
    split at h <;> split at h <;> simp at h
    · exact h
    · exact h
  · rintro rfl
    rw [parameterReference, access]
    split <;> simp

/-- The value of a parameter is a part of an address just when it is substituted in it. -/
theorem parameterReference_mem_address_iff {t : Template Expr}
    (h : ∀ s ∈ t.spans, ∃ n, s.expr = parameterReference n) :
    parameterReference name ∈
        (Expr.plus (.member .this "baseUrl") (.template t)).parts ↔
      ∃ s ∈ t.spans, s.expr = parameterReference name := by
  have hspans : parameterReference name ∈ t.spans.flatMap (·.expr.parts) ↔
      ∃ s ∈ t.spans, s.expr = parameterReference name := by
    rw [List.mem_flatMap]
    refine exists_congr fun s => and_congr_right fun hs => ?_
    obtain ⟨n, hn⟩ := h s hs
    rw [hn, parameterReference_mem_parts_iff, parameterReference_injective.eq_iff, eq_comm]
  rw [← hspans, parameterReference, access]
  split <;> simp

/-- **The parameters that are substituted** are those whose placeholder is a segment of the
address. -/
theorem parameterReference_mem_url_iff (h : op.url = .ok e)
    (hname : ∃ p ∈ op.parametersIn .path, p.name = name) :
    parameterReference name ∈ e.parts ↔ placeholder name ∈ op.segments := by
  obtain ⟨t, ht, rfl⟩ := exists_uriTemplate_of_url h
  have hspans := uriTemplate_spans ht
  rw [parameterReference_mem_address_iff fun s hs =>
    let ⟨p, _, hp⟩ := hspans s hs
    ⟨p.name, hp⟩]
  rw [uriTemplate_eq] at ht
  constructor
  · rintro ⟨s, hs, he⟩
    obtain ⟨segment, hsegment, hpiece⟩ := List.mem_map.mp (expr_mem_of_templateOf ht s hs)
    by_cases hmem : segment ∈ placeholders (op.parametersIn .path)
    · obtain ⟨p, _, rfl, hp⟩ := uriPiece_of_mem hmem
      rw [hp, he] at hpiece
      rw [← parameterReference_injective (Piece.expr.inj hpiece)]
      exact hsegment
    · rw [uriPiece_of_notMem hmem] at hpiece
      cases hpiece
  · intro hsegment
    obtain ⟨p, _, hp, hpiece⟩ := uriPiece_of_mem (mem_placeholders.mpr <|
      hname.imp fun p hp => ⟨hp.1, congrArg placeholder hp.2⟩)
    refine exists_span_of_templateOf ht ?_
    rw [← placeholder_injective hp, ← hpiece]
    exact List.mem_map_of_mem hsegment

/-- Names free of braces are all substituted. -/
theorem parameterReference_mem_url_of_braceFree
    (hfree : ∀ p ∈ op.parametersIn .path, BraceFree p.name) (h : op.url = .ok e) :
    ∀ p ∈ op.parametersIn .path, parameterReference p.name ∈ e.parts := by
  intro p hp
  have hocc := (url_eq_ok_iff.mp ⟨e, h⟩).1 p hp
  obtain ⟨text, ss, rfl, hss, hspelling, htexts⟩ := exists_spelling_of_url h
  obtain ⟨before, after, huri⟩ := hocc
  rw [← hspelling, toList_spelling] at huri
  -- where the placeholder stands in the address there is a substitution of that name
  have hplace := (mem_substitutionPlaces_iff (forall_mem_pathNames.mpr hfree) hss htexts 0).mpr
    ⟨mem_pathNames.mpr ⟨p, hp, rfl⟩, before, after, rfl, huri.symm⟩
  obtain ⟨next, hmem⟩ := exists_mem_of_mem_substitutionPlaces hplace
  refine (parameterReference_mem_address_iff fun s hs => ?_).mpr
    ⟨⟨parameterReference p.name, next⟩, List.mem_map.mpr ⟨_, hmem, rfl⟩, rfl⟩
  obtain ⟨x, _, rfl⟩ := List.mem_map.mp hs
  exact ⟨x.1, rfl⟩

/-- **When a path parameter is substituted** in the address of an operation: just when its
placeholder is still whole after the parameters declared before it have had their turn. If no name
has braces in it, every path parameter is substituted. -/
theorem url_substitutes_iff (h : op.url = .ok e) :
    (∀ before p after, op.parametersIn .path = before ++ p :: after →
      (parameterReference p.name ∈ e.parts ↔
        StandsIn (placeholders (op.parametersIn .path)) (placeholder p.name)
          (piecesAfter (placeholders (op.parametersIn .path)) (placeholders before) op.uri))) ∧
    ((∀ p ∈ op.parametersIn .path, BraceFree p.name) →
      ∀ p ∈ op.parametersIn .path, parameterReference p.name ∈ e.parts) := by
  refine ⟨fun before p after hparams => ?_, fun hfree =>
    parameterReference_mem_url_of_braceFree hfree h⟩
  have hds : placeholders (op.parametersIn .path) =
      placeholders before ++ placeholder p.name :: placeholders after := by
    rw [hparams, placeholders, List.map_append, List.map_cons]
    rfl
  rw [parameterReference_mem_url_iff h ⟨p, by simp [hparams], rfl⟩, Operation.segments,
    mem_splitAll_iff hds ne_empty_of_mem_placeholders]

/-- An operation with parameters of given names in its address. The beginning of the address is
the placeholder of a name with braces, and of another name and more. -/
def Operation.nestedNames (names : List String) : Operation where
  id := "file"
  httpMethod := .get
  uri := "/\x7ba\x7d\x7bb\x7d/\x7ba\x7d"
  parameters := names.map fun name => { name, location := .path }

/-- With the longer name first, its placeholder is still whole at its turn. -/
theorem nestedNames_substitutes_longer :
    ∃ e, (Operation.nestedNames ["a\x7d\x7bb", "a"]).url = .ok e ∧
      parameterReference "a\x7d\x7bb" ∈ e.parts := by
  obtain ⟨e, he⟩ : ∃ e, (Operation.nestedNames ["a\x7d\x7bb", "a"]).url = .ok e := ⟨_, rfl⟩
  refine ⟨e, he, ((url_substitutes_iff he).1 [] _ _ rfl).mpr ?_⟩
  exact ⟨_, List.mem_singleton_self _, Or.inr ⟨by decide, by decide⟩⟩

/-- **A path parameter may be dropped**, although every placeholder occurs in the address and the
operation has one. -/
theorem nestedNames_drops_parameter :
    (Operation.nestedNames ["a", "a\x7d\x7bb"]).PlaceholdersOccur ∧
      ∃ e, (Operation.nestedNames ["a", "a\x7d\x7bb"]).url = .ok e ∧
        ∃ p ∈ (Operation.nestedNames ["a", "a\x7d\x7bb"]).parametersIn .path,
          parameterReference p.name ∉ e.parts := by
  obtain ⟨e, he⟩ : ∃ e, (Operation.nestedNames ["a", "a\x7d\x7bb"]).url = .ok e := ⟨_, rfl⟩
  have hp : (⟨"a\x7d\x7bb", .path, false, none, false, .any⟩ : Parameter) ∈
      (Operation.nestedNames ["a", "a\x7d\x7bb"]).parametersIn .path :=
    List.mem_cons_of_mem _ (List.mem_singleton_self _)
  refine ⟨(url_eq_ok_iff.mp ⟨e, he⟩).1, e, he, _, hp, ?_⟩
  rw [parameterReference_mem_url_iff he ⟨_, hp, rfl⟩]
  decide

end Url

end TypedClient
