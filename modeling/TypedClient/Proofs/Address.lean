import TypedClient.Proofs.Body
import TypedClient.Proofs.Placeholders
import TypedClient.Proofs.Template

/-!
# Addresses

The segments of an address become texts and substitutions, and these have to fit the pairs
a template is made of. Two things may go wrong: a path parameter has no placeholder, or
the segments begin with a placeholder although one of them is a text.

## Main definitions

* `Operation.segments`: the segments of the address of an operation
* `Operation.PlaceholdersOccur`: every path parameter has a placeholder
* `Operation.Misaligned`: the segments begin with a placeholder and one of them is a text
* `Operation.firstText`: the place of the first segment that is a text
* `Expr.lastKey`: the name of the parameter that is substituted

## Main results

* `spansFrom_pieces`, `exists_paired_tail`: when segments make up substitutions
* `uriTemplate_cases`: when an address has a template
* `url_outcome`: when an operation has an address, and how it fails to have one
* `url_spells_uri`: what the address of an operation says
-/

namespace TypedClient

open Text TypeScript

/-! ## Segments as pieces -/

section Pieces

variable {params : List Parameter} {s : String} {ss : List String}

theorem find?_placeholder {p : Parameter}
    (h : params.find? (fun p => placeholder p.name == s) = some p) :
    p ∈ params ∧ placeholder p.name = s := by
  have hs := List.find?_some h
  exact ⟨List.mem_of_find?_eq_some h, beq_iff_eq.mp hs⟩

theorem uriPiece_of_mem (h : s ∈ placeholders params) :
    ∃ p ∈ params, placeholder p.name = s ∧
      uriPiece params s = .expr (parameterReference p.name) := by
  rw [uriPiece]
  cases hf : params.find? (fun p => placeholder p.name == s) with
  | none =>
    obtain ⟨p, hp, hs⟩ := mem_placeholders.mp h
    exact absurd (beq_iff_eq.mpr hs) (List.find?_eq_none.mp hf p hp)
  | some p =>
    obtain ⟨hp, hs⟩ := find?_placeholder hf
    exact ⟨p, hp, hs, rfl⟩

theorem uriPiece_of_notMem (h : s ∉ placeholders params) : uriPiece params s = .text s := by
  rw [uriPiece]
  cases hf : params.find? (fun p => placeholder p.name == s) with
  | none => rfl
  | some p => exact absurd (mem_placeholders.mpr ⟨p, find?_placeholder hf⟩) h

theorem uriPiece_eq_text {x : String} (h : uriPiece params s = .text x) :
    x = s ∧ s ∉ placeholders params := by
  by_cases hs : s ∈ placeholders params
  · obtain ⟨p, _, _, he⟩ := uriPiece_of_mem hs
    rw [he] at h
    cases h
  · rw [uriPiece_of_notMem hs] at h
    exact ⟨(Piece.text.inj h).symm, hs⟩

/-- The place of the first segment that is not a placeholder. -/
def firstText (params : List Parameter) (ss : List String) : Nat :=
  ss.findIdx fun s => decide (s ∉ placeholders params)

theorem firstText_of_notMem (h : s ∉ placeholders params) : firstText params (s :: ss) = 0 := by
  simp [firstText, List.findIdx_cons, h]

theorem firstText_of_mem (h : s ∈ placeholders params) :
    firstText params (s :: ss) = firstText params ss + 1 := by
  simp [firstText, List.findIdx_cons, h]

/-- **Segments behind a text make up substitutions**: a placeholder stands at every second
place and takes the segment after it. -/
theorem exists_paired_tail (h : Alternating (placeholders params) ss) :
    ∃ spans, Paired (ss.tail.map (uriPiece params)) spans := by
  induction h with
  | single s => exact ⟨[], .nil⟩
  | @step s d ss hd hss ih =>
    obtain ⟨spans, hp⟩ := ih
    obtain ⟨p, _, _, he⟩ := uriPiece_of_mem hd
    obtain ⟨t, ts, rfl⟩ := List.exists_cons_of_ne_nil hss.ne_nil
    rw [List.tail_cons] at hp
    rw [List.tail_cons, List.map_cons, List.map_cons, he]
    cases uriPiece params t with
    | text x => exact ⟨_, .text _ x hp⟩
    | expr f => exact ⟨_, .expr _ f hp⟩

/-- **Segments make up substitutions only if all of them are placeholders.** The first
text among them is misplaced, since it begins a pair. -/
theorem spansFrom_pieces (h : Alternating (placeholders params) ss) (index : Nat) :
    (∀ s ∈ ss, s ∈ placeholders params) ∧
        (∃ spans, spansFrom index (ss.map (uriPiece params)) = .ok spans) ∨
      (∃ s ∈ ss, s ∉ placeholders params) ∧
        spansFrom index (ss.map (uriPiece params)) =
          .error (.misplacedText (index + firstText params ss)) := by
  -- the induction takes two segments at a time, as the pairs do
  induction h generalizing index with
  | single s =>
    by_cases hs : s ∈ placeholders params
    · obtain ⟨p, _, _, he⟩ := uriPiece_of_mem hs
      rw [List.map_singleton, he]
      exact Or.inl ⟨by simpa using hs, _, rfl⟩
    · rw [List.map_singleton, uriPiece_of_notMem hs, firstText_of_notMem hs]
      exact Or.inr ⟨by simpa using hs, rfl⟩
  | @step s d ss hd hss ih =>
    obtain ⟨q, _, _, hed⟩ := uriPiece_of_mem hd
    rw [List.map_cons, List.map_cons, hed]
    by_cases hs : s ∈ placeholders params
    · obtain ⟨p, _, _, he⟩ := uriPiece_of_mem hs
      rw [he, spansFrom, firstText_of_mem hs, firstText_of_mem hd]
      rcases ih (index + 2) with ⟨hall, spans, hok⟩ | ⟨⟨t, ht, hn⟩, herr⟩
      · rw [hok]
        exact Or.inl ⟨by simpa [hs, hd] using hall, _, rfl⟩
      · rw [herr, show index + (firstText params ss + 1 + 1) = index + 2 + firstText params ss
          by omega]
        exact Or.inr ⟨⟨t, by simp [ht], hn⟩, rfl⟩
    · rw [uriPiece_of_notMem hs, firstText_of_notMem hs]
      exact Or.inr ⟨⟨s, by simp, hs⟩, rfl⟩

end Pieces

/-! ## The template of an address -/

section Whole

variable {params : List Parameter} {uri : String}

theorem segmentation_placeholders (uri : String) (params : List Parameter) :
    Segmentation uri (placeholders params) (placeholders params)
      (splitAll uri (placeholders params)) :=
  segmentation_splitAll uri ne_empty_of_mem_placeholders

theorem uriTemplate_eq (uri : String) (params : List Parameter) :
    uriTemplate uri params =
      templateOf ((splitAll uri (placeholders params)).map (uriPiece params)) := rfl

/-- Segments that begin with a placeholder although one of them is a text. -/
def Misaligned (params : List Parameter) (ss : List String) : Prop :=
  (∃ s ∈ ss.head?, s ∈ placeholders params) ∧ ∃ s ∈ ss, s ∉ placeholders params

/-- **An address has a template unless its segments are misaligned**, and then the first
text among them is the fault. -/
theorem uriTemplate_cases (uri : String) (params : List Parameter) :
    ¬ Misaligned params (splitAll uri (placeholders params)) ∧
        (∃ t, uriTemplate uri params = .ok t) ∨
      Misaligned params (splitAll uri (placeholders params)) ∧
        uriTemplate uri params =
          .error (.misplacedText (firstText params (splitAll uri (placeholders params)))) := by
  rw [uriTemplate_eq]
  have halt := (segmentation_placeholders uri params).alternating
  generalize splitAll uri (placeholders params) = ss at halt ⊢
  obtain ⟨s, ts, rfl⟩ := List.exists_cons_of_ne_nil halt.ne_nil
  by_cases hs : s ∈ placeholders params
  · -- the first substitution is a segment that should have been a text
    have hrun := spansFrom_pieces halt 0
    obtain ⟨p, _, _, he⟩ := uriPiece_of_mem hs
    rw [List.map_cons, he] at hrun ⊢
    rw [templateOf_expr_cons]
    rcases hrun with ⟨hall, spans, hok⟩ | ⟨hlit, herr⟩
    · rw [hok]
      refine Or.inl ⟨fun hm => ?_, _, rfl⟩
      obtain ⟨t, ht, hn⟩ := hm.2
      exact hn (hall t ht)
    · rw [herr, Nat.zero_add]
      exact Or.inr ⟨⟨⟨s, rfl, hs⟩, hlit⟩, rfl⟩
  · -- the first text is the head, and the pairs begin with a placeholder behind it
    obtain ⟨spans, hp⟩ := exists_paired_tail halt
    rw [List.tail_cons] at hp
    rw [List.map_cons, uriPiece_of_notMem hs, templateOf_text_cons, hp.spansFrom_eq]
    refine Or.inl ⟨fun hm => ?_, _, rfl⟩
    obtain ⟨⟨t, ht, hmem⟩, _⟩ := hm
    obtain rfl := Option.some.inj ht
    exact hs hmem

theorem undefinedParameter?_eq_none :
    undefinedParameter? uri params = none ↔
      ∀ p ∈ params, Occurs (placeholder p.name) uri := by
  simp only [undefinedParameter?, List.find?_eq_none, Bool.not_eq_true', Bool.not_eq_false,
    occursIn_toList_iff]

theorem undefinedParameter?_eq_some {p : Parameter}
    (h : undefinedParameter? uri params = some p) :
    p ∈ params ∧ ¬ Occurs (placeholder p.name) uri := by
  have hp := List.find?_some h
  refine ⟨List.mem_of_find?_eq_some h, ?_⟩
  rwa [Bool.not_eq_true', ← Bool.not_eq_true, occursIn_toList_iff] at hp

end Whole

/-! ## The address of an operation -/

namespace Operation

/-- The segments of the address of an operation. -/
def segments (op : Operation) : List String :=
  splitAll op.uri (placeholders (op.parametersIn .path))

/-- Every path parameter has a placeholder in the address. -/
def PlaceholdersOccur (op : Operation) : Prop :=
  ∀ p ∈ op.parametersIn .path, Occurs (placeholder p.name) op.uri

/-- The segments of the address begin with a placeholder although one of them is a
text. -/
def Misaligned (op : Operation) : Prop :=
  TypedClient.Misaligned (op.parametersIn .path) op.segments

/-- The place of the first segment of the address that is a text. -/
def firstText (op : Operation) : Nat :=
  TypedClient.firstText (op.parametersIn .path) op.segments

end Operation

section Url

variable {op : Operation}

theorem url_of_placeholdersOccur (h : op.PlaceholdersOccur) :
    op.url = uriTemplate op.uri (op.parametersIn .path) >>= fun t =>
      pure (.plus (.member .this "baseUrl") (.template t)) := by
  rw [Operation.url, undefinedParameter?_eq_none.mpr h]

theorem url_of_not_placeholdersOccur (h : ¬ op.PlaceholdersOccur) :
    ∃ p ∈ op.parametersIn .path, ¬ Occurs (placeholder p.name) op.uri ∧
      op.url = .error (.undefinedParameter p.name op.uri) := by
  cases hf : undefinedParameter? op.uri (op.parametersIn .path) with
  | none => exact absurd (undefinedParameter?_eq_none.mp hf) h
  | some p =>
    obtain ⟨hp, hocc⟩ := undefinedParameter?_eq_some hf
    refine ⟨p, hp, hocc, ?_⟩
    rw [Operation.url, hf]
    rfl

/-- The address of an operation holds the template of its address. -/
theorem exists_uriTemplate_of_url {e : Expr} (h : op.url = .ok e) :
    ∃ t, uriTemplate op.uri (op.parametersIn .path) = .ok t ∧
      e = .plus (.member .this "baseUrl") (.template t) := by
  by_cases hocc : op.PlaceholdersOccur
  · rw [url_of_placeholdersOccur hocc] at h
    obtain ⟨t, ht, h⟩ := bind_eq_ok.mp h
    exact ⟨t, ht, (pure_eq_ok.mp h).symm⟩
  · obtain ⟨p, _, _, hurl⟩ := url_of_not_placeholdersOccur hocc
    rw [hurl] at h
    cases h

/-- What becomes of the address of an operation: a path parameter has no placeholder, the
segments are misaligned, or there is a template. -/
theorem url_cases (op : Operation) :
    (¬ op.PlaceholdersOccur ∧ ∃ p ∈ op.parametersIn .path,
        op.url = .error (.undefinedParameter p.name op.uri)) ∨
      (op.PlaceholdersOccur ∧ op.Misaligned ∧
        op.url = .error (.misplacedText op.firstText)) ∨
      op.PlaceholdersOccur ∧ ¬ op.Misaligned ∧ ∃ e, op.url = .ok e := by
  by_cases h : op.PlaceholdersOccur
  · right
    rw [url_of_placeholdersOccur h]
    rcases uriTemplate_cases op.uri (op.parametersIn .path) with ⟨hm, t, ht⟩ | ⟨hm, ht⟩
    · rw [ht]
      exact Or.inr ⟨h, hm, _, rfl⟩
    · rw [ht]
      exact Or.inl ⟨h, hm, rfl⟩
  · obtain ⟨p, hp, _, hurl⟩ := url_of_not_placeholdersOccur h
    exact Or.inl ⟨h, p, hp, hurl⟩

theorem url_eq_ok_iff :
    (∃ e, op.url = .ok e) ↔ op.PlaceholdersOccur ∧ ¬ op.Misaligned := by
  rcases url_cases op with ⟨h, p, _, hurl⟩ | ⟨h, hm, hurl⟩ | ⟨h, hm, e, hurl⟩
  · simp [hurl, h]
  · simp [hurl, hm]
  · simp [hurl, h, hm]

theorem url_eq_misplacedText_iff {i : Nat} :
    op.url = .error (.misplacedText i) ↔
      op.PlaceholdersOccur ∧ op.Misaligned ∧ i = op.firstText := by
  rcases url_cases op with ⟨h, p, _, hurl⟩ | ⟨h, hm, hurl⟩ | ⟨h, hm, e, hurl⟩
  · simp [hurl, h]
  · simp [hurl, h, hm, eq_comm]
  · simp [hurl, hm]

theorem head?_segments (op : Operation) :
    op.segments.head? = some (leading (placeholders (op.parametersIn .path))
      (placeholders (op.parametersIn .path)) op.uri) :=
  head?_splitAll ..

theorem Operation.Misaligned.startsOutOfOrder (h : op.Misaligned) :
    StartsOutOfOrder (placeholders (op.parametersIn .path)) op.uri := by
  obtain ⟨⟨s, hs, hmem⟩, t, ht, hn⟩ := h
  rw [head?_segments] at hs
  obtain rfl := Option.some.inj hs
  by_cases hu : op.uri ∈ placeholders (op.parametersIn .path)
  · -- an address that is just a placeholder is its only segment
    rw [Operation.segments, splitAll_of_mem hu] at ht
    exact absurd (List.mem_singleton.mp ht ▸ hu) hn
  · exact startsOutOfOrder_of_leading (List.nil_append _).symm ne_empty_of_mem_placeholders
      List.prefix_rfl hu (fun _ hd => nomatch hd) hmem

/-- With names free of braces, the beginning of the address decides whether the first
segment is a placeholder. -/
theorem misaligned_iff_of_braceFree (h : ∀ p ∈ op.parametersIn .path, BraceFree p.name) :
    op.Misaligned ↔ StartsOutOfOrder (placeholders (op.parametersIn .path)) op.uri ∧
      ∃ s ∈ op.segments, s ∉ placeholders (op.parametersIn .path) := by
  constructor
  · intro hm
    exact ⟨hm.startsOutOfOrder, hm.2⟩
  · rintro ⟨hout, hlit⟩
    exact ⟨⟨_, head?_segments op, (leading_mem_iff h op.uri).mpr (Or.inr hout)⟩, hlit⟩

/-- **When an operation has an address.** Besides the placeholders, the segments of the
address decide: if they begin with a placeholder, all of them have to be placeholders, or
the first text is misplaced. This happens only in an address that starts with two
placeholders, the second of which is declared before the first, and with names free of
braces in every such address that has a text among its segments. The body and the method
fail as the address does. -/
theorem url_outcome (op : Operation) (options : MethodOptions) :
    ((∃ e, op.url = .ok e) ↔ op.PlaceholdersOccur ∧ ¬ op.Misaligned) ∧
      (∀ i, op.url = .error (.misplacedText i) ↔
        op.PlaceholdersOccur ∧ op.Misaligned ∧ i = op.firstText) ∧
      (∀ f, op.body = .error f ↔ op.url = .error f) ∧
      (∀ f, op.toMethod options = .error f ↔ op.url = .error f) ∧
      (op.Misaligned → StartsOutOfOrder (placeholders (op.parametersIn .path)) op.uri) ∧
      ((∀ p ∈ op.parametersIn .path, BraceFree p.name) →
        (op.Misaligned ↔ StartsOutOfOrder (placeholders (op.parametersIn .path)) op.uri ∧
          ∃ s ∈ op.segments, s ∉ placeholders (op.parametersIn .path))) :=
  ⟨url_eq_ok_iff, fun _ => url_eq_misplacedText_iff, fun _ => body_eq_error,
    fun _ => toMethod_eq_error.trans body_eq_error, fun h => h.startsOutOfOrder,
    misaligned_iff_of_braceFree⟩

/-- An operation whose address is made of two placeholders, the second of which is
declared before the first. -/
def Operation.reversedPair : Operation where
  id := "file"
  httpMethod := .get
  uri := "\x7bb\x7d\x7ba\x7d"
  parameters := [{ name := "a", location := .path }, { name := "b", location := .path }]

/-- **Placeholders for all path parameters are not enough** for an address. -/
theorem reversedPair_has_no_url :
    ¬ (Operation.reversedPair.PlaceholdersOccur →
        (∃ e, Operation.reversedPair.url = .ok e)) ∧
      Operation.reversedPair.url = .error (.misplacedText 2) ∧
      Operation.reversedPair.body = .error (.misplacedText 2) ∧
      Operation.reversedPair.toMethod {} = .error (.misplacedText 2) := by
  have hurl : Operation.reversedPair.url = .error (.misplacedText 2) := rfl
  have hocc : Operation.reversedPair.PlaceholdersOccur := by
    unfold Operation.PlaceholdersOccur
    decide
  refine ⟨fun h => ?_, hurl, rfl, rfl⟩
  obtain ⟨e, he⟩ := h hocc
  rw [hurl] at he
  cases he

end Url

/-! ## What an address says -/

/-- The key of the outermost access of an expression. -/
def TypeScript.Expr.lastKey : Expr → String
  | .member _ name => name
  | .element _ key => key
  | _ => ""

@[simp]
theorem lastKey_parameterReference (name : String) :
    (parameterReference name).lastKey = name := by
  rw [parameterReference, access]
  split <;> rfl

section Spelling

variable {params : List Parameter} {ss : List String} {t : Template Expr}

/-- A segment reads the same as the piece it becomes, with the parameter's placeholder for
its value. -/
theorem written_uriPiece (s : String) :
    (uriPiece params s).written (fun e => placeholder e.lastKey) = s := by
  by_cases hs : s ∈ placeholders params
  · obtain ⟨p, _, hp, he⟩ := uriPiece_of_mem hs
    rw [he, Piece.written, lastKey_parameterReference, hp]
  · rw [uriPiece_of_notMem hs, Piece.written]

theorem expr_mem_pieces {e : Expr} (h : Piece.expr e ∈ ss.map (uriPiece params)) :
    ∃ p ∈ params, e = parameterReference p.name := by
  obtain ⟨s, _, he⟩ := List.mem_map.mp h
  by_cases hs : s ∈ placeholders params
  · obtain ⟨p, hp, _, hx⟩ := uriPiece_of_mem hs
    rw [hx] at he
    exact ⟨p, hp, (Piece.expr.inj he).symm⟩
  · rw [uriPiece_of_notMem hs] at he
    cases he

theorem uriTemplate_written {uri : String} (h : uriTemplate uri params = .ok t) :
    t.written (fun e => placeholder e.lastKey) = uri := by
  rw [uriTemplate_eq] at h
  rw [templateOf_written h, List.map_map]
  have hid : (Piece.written fun e => placeholder e.lastKey) ∘ uriPiece params = id :=
    funext written_uriPiece
  rw [hid, List.map_id, (segmentation_placeholders uri params).join_eq]

theorem uriTemplate_texts {uri : String} (h : uriTemplate uri params = .ok t) :
    ∀ x ∈ t.texts, ∀ p ∈ params, ¬ Occurs (placeholder p.name) x := by
  rw [uriTemplate_eq] at h
  intro x hx p hp hocc
  have hmem : placeholder p.name ∈ placeholders params := mem_placeholders.mpr ⟨p, hp, rfl⟩
  rcases text_mem_of_templateOf h x hx with rfl | hpiece
  · simp [Occurs] at hocc
  · obtain ⟨s, hs, heq⟩ := List.mem_map.mp hpiece
    obtain ⟨rfl, hn⟩ := uriPiece_eq_text heq
    exact (segmentation_placeholders uri params).clean x hs hn _ hmem hocc

/-- The names and texts of the substitutions of an address. -/
theorem uriTemplate_spans {uri : String} (h : uriTemplate uri params = .ok t) :
    ∀ s ∈ t.spans, ∃ p ∈ params, s.expr = parameterReference p.name := by
  rw [uriTemplate_eq] at h
  exact fun s hs => expr_mem_pieces (expr_mem_of_templateOf h s hs)

/-- The substitutions of an address, by the names of the parameters. -/
theorem exists_substitutions {uri : String} (h : uriTemplate uri params = .ok t) :
    ∃ ss : List (String × String),
      t.spans = ss.map (fun s => ⟨parameterReference s.1, s.2⟩) ∧
      (∀ s ∈ ss, ∃ p ∈ params, p.name = s.1) ∧
      t.head ++ String.join (ss.map fun s => placeholder s.1 ++ s.2) = uri ∧
      ∀ x ∈ t.head :: ss.map Prod.snd, ∀ p ∈ params, ¬ Occurs (placeholder p.name) x := by
  -- the name of each substitution can be read off its expression
  refine ⟨t.spans.map fun s => (s.expr.lastKey, s.text), ?_, fun s hs => ?_, ?_, ?_⟩
  · rw [List.map_map]
    refine ((List.map_congr_left fun s hs => ?_).trans (List.map_id t.spans)).symm
    obtain ⟨p, _, hp⟩ := uriTemplate_spans h s hs
    rw [Function.comp_apply, hp, lastKey_parameterReference, ← hp]
    rfl
  · obtain ⟨x, hx, rfl⟩ := List.mem_map.mp hs
    obtain ⟨p, hp, hxe⟩ := uriTemplate_spans h x hx
    exact ⟨p, hp, by rw [hxe, lastKey_parameterReference]⟩
  · rw [List.map_map]
    exact uriTemplate_written h
  · rw [List.map_map]
    exact uriTemplate_texts h

/-- **An address says what the operation's address says**: it substitutes path parameters
only, reads as the operation's address when each substitution is written as the
placeholder of its name, and leaves no placeholder of a path parameter in a text. -/
theorem url_spells_uri {op : Operation} {e : Expr} (h : op.url = .ok e) :
    ∃ (head : String) (spans : List (String × String)),
      e = .plus (.member .this "baseUrl")
        (.template ⟨head, spans.map fun s => ⟨parameterReference s.1, s.2⟩⟩) ∧
      (∀ s ∈ spans, ∃ p ∈ op.parametersIn .path, p.name = s.1) ∧
      head ++ String.join (spans.map fun s => placeholder s.1 ++ s.2) = op.uri ∧
      ∀ x ∈ head :: spans.map Prod.snd, ∀ p ∈ op.parametersIn .path,
        ¬ Occurs (placeholder p.name) x := by
  obtain ⟨t, ht, rfl⟩ := exists_uriTemplate_of_url h
  obtain ⟨ss, hspans, hnames, hspelling, htexts⟩ := exists_substitutions ht
  refine ⟨t.head, ss, ?_, hnames, hspelling, htexts⟩
  rw [← hspans]

/-- An operation with a name that holds braces, and with a placeholder that occurs more
than once. -/
def Operation.overlappingNames : Operation where
  id := "file"
  httpMethod := .get
  uri := "/\x7ba\x7d\x7bb\x7d/\x7ba\x7d/\x7bc\x7d"
  parameters := [{ name := "a", location := .path },
    { name := "a\x7d\x7bb", location := .path }]

theorem overlappingNames_spells_uri :
    ∃ e, Operation.overlappingNames.url = .ok e ∧
      ∃ (head : String) (spans : List (String × String)),
        e = .plus (.member .this "baseUrl")
          (.template ⟨head, spans.map fun s => ⟨parameterReference s.1, s.2⟩⟩) ∧
        (∀ s ∈ spans, ∃ p ∈ Operation.overlappingNames.parametersIn .path, p.name = s.1) ∧
        head ++ String.join (spans.map fun s => placeholder s.1 ++ s.2) =
          Operation.overlappingNames.uri ∧
        ∀ x ∈ head :: spans.map Prod.snd,
          ∀ p ∈ Operation.overlappingNames.parametersIn .path,
            ¬ Occurs (placeholder p.name) x :=
  ⟨_, rfl, url_spells_uri rfl⟩

end Spelling

end TypedClient
