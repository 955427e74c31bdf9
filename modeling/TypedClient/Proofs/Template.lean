import TypedClient.Proofs.Outcome
import TypedClient.Template

/-!
# Laws of templates

A template says the same as the pieces it was made of, whatever its expressions stand
for: texts and expressions come in the order of the pieces, and only empty texts are
added.

## Main definitions

* `Piece.written`, `Template.written`: the text of a piece and of a template, with every
  expression written in a given way
* `Template.texts`: the literal texts of a template
* `Paired`: the substitutions that belong to a list of pieces

## Main results

* `spansFrom_eq_ok`: the substitutions found are those that belong to the pieces
* `templateOf_written`: a template is written as its pieces are
-/

namespace TypedClient

open TypeScript

/-- The text of a piece, with expressions written by `write`. -/
def Piece.written (write : Expr → String) : Piece → String
  | .text t => t
  | .expr e => write e

/-- The text of a substitution and of what follows it, with expressions written by
`write`. -/
def TypeScript.Span.written (write : Expr → String) (s : Span Expr) : String :=
  write s.expr ++ s.text

/-- The text of a template, with expressions written by `write`. -/
def TypeScript.Template.written (write : Expr → String) (t : Template Expr) : String :=
  t.head ++ String.join (t.spans.map (Span.written write))

/-- The literal texts of a template, in their order. -/
def TypeScript.Template.texts (t : Template Expr) : List String :=
  t.head :: t.spans.map (·.text)

/-- The substitutions that belong to pieces taken in pairs. A pair of two expressions
makes two substitutions with nothing between them. -/
inductive Paired : List Piece → List (Span Expr) → Prop
  | nil : Paired [] []
  | last (e : Expr) : Paired [.expr e] [⟨e, ""⟩]
  | text (e : Expr) (t : String) {ps : List Piece} {ss : List (Span Expr)}
      (h : Paired ps ss) : Paired (.expr e :: .text t :: ps) (⟨e, t⟩ :: ss)
  | expr (e f : Expr) {ps : List Piece} {ss : List (Span Expr)}
      (h : Paired ps ss) : Paired (.expr e :: .expr f :: ps) (⟨e, ""⟩ :: ⟨f, ""⟩ :: ss)

theorem Paired.of_spansFrom {index : Nat} {ps : List Piece} {ss : List (Span Expr)}
    (h : spansFrom index ps = .ok ss) : Paired ps ss := by
  fun_induction spansFrom index ps generalizing ss with
  | case1 => cases h; exact .nil
  | case2 => cases h
  | case3 index e => cases h; exact .last e
  | case4 index e t ps ih =>
    obtain ⟨ss', hs, h⟩ := bind_eq_ok.mp h
    obtain rfl := pure_eq_ok.mp h
    exact .text e t (ih hs)
  | case5 index e f ps ih =>
    obtain ⟨ss', hs, h⟩ := bind_eq_ok.mp h
    obtain rfl := pure_eq_ok.mp h
    exact .expr e f (ih hs)

theorem Paired.spansFrom_eq {ps : List Piece} {ss : List (Span Expr)} (h : Paired ps ss)
    (index : Nat) : spansFrom index ps = .ok ss := by
  induction h generalizing index with
  | nil => rfl
  | last e => rfl
  | text e t _ ih => rw [spansFrom, ih]; rfl
  | expr e f _ ih => rw [spansFrom, ih]; rfl

/-- **The substitutions found are those that belong to the pieces**, at whatever place
the pieces begin. -/
theorem spansFrom_eq_ok {index : Nat} {ps : List Piece} {ss : List (Span Expr)} :
    spansFrom index ps = .ok ss ↔ Paired ps ss :=
  ⟨.of_spansFrom, fun h => h.spansFrom_eq index⟩

namespace Paired

variable {ps : List Piece} {ss : List (Span Expr)}

theorem written (h : Paired ps ss) (write : Expr → String) :
    String.join (ss.map (Span.written write)) = String.join (ps.map (Piece.written write)) := by
  induction h with
  | nil => rfl
  | last e => simp [Span.written, Piece.written]
  | text e t _ ih => simp [Span.written, Piece.written, ih, String.append_assoc]
  | expr e f _ ih => simp [Span.written, Piece.written, ih]

theorem expr_mem (h : Paired ps ss) : ∀ s ∈ ss, Piece.expr s.expr ∈ ps := by
  induction h with
  | nil => simp
  | last e => simp
  | text e t _ ih => simpa using fun s hs => Or.inr (ih s hs)
  | expr e f _ ih => simpa using fun s hs => Or.inr (Or.inr (ih s hs))

theorem exists_span (h : Paired ps ss) {x : Expr} (hx : Piece.expr x ∈ ps) :
    ∃ s ∈ ss, s.expr = x := by
  induction h with
  | nil => cases hx
  | last e => simpa [eq_comm] using hx
  | text e t _ ih =>
    simp only [List.mem_cons, Piece.expr.injEq, reduceCtorEq, false_or] at hx
    rw [List.exists_mem_cons_iff]
    exact hx.imp Eq.symm ih
  | expr e f _ ih =>
    simp only [List.mem_cons, Piece.expr.injEq] at hx
    rw [List.exists_mem_cons_iff, List.exists_mem_cons_iff]
    exact hx.imp Eq.symm (.imp Eq.symm ih)

theorem text_mem (h : Paired ps ss) : ∀ s ∈ ss, s.text = "" ∨ Piece.text s.text ∈ ps := by
  induction h with
  | nil => simp
  | last e => simp
  | text e t _ ih =>
    intro s hs
    rcases List.mem_cons.mp hs with rfl | hs
    · exact Or.inr (by simp)
    · exact (ih s hs).imp_right fun hm => by simp [hm]
  | expr e f _ ih =>
    intro s hs
    rw [List.mem_cons, List.mem_cons] at hs
    rcases hs with rfl | rfl | hs
    · exact Or.inl rfl
    · exact Or.inl rfl
    · exact (ih s hs).imp_right fun hm => by simp [hm]

end Paired

/-! ## Whole templates -/

section Whole

variable {ps : List Piece} {t : Template Expr}

theorem templateOf_text_cons (x : String) (ps : List Piece) :
    templateOf (.text x :: ps) = spansFrom 1 ps >>= fun ss => pure ⟨x, ss⟩ := rfl

theorem templateOf_expr_cons (e : Expr) (ps : List Piece) :
    templateOf (.expr e :: ps) = spansFrom 0 (.expr e :: ps) >>= fun ss => pure ⟨"", ss⟩ := rfl

/-- A template has a text at the beginning for its head, or an empty head. -/
theorem paired_of_templateOf (h : templateOf ps = .ok t) :
    (∃ qs, ps = .text t.head :: qs ∧ Paired qs t.spans) ∨ t.head = "" ∧ Paired ps t.spans := by
  unfold templateOf at h
  split at h
  · next head qs =>
    obtain ⟨ss, hs, h⟩ := bind_eq_ok.mp h
    obtain rfl := pure_eq_ok.mp h
    exact Or.inl ⟨qs, rfl, spansFrom_eq_ok.mp hs⟩
  · obtain ⟨ss, hs, h⟩ := bind_eq_ok.mp h
    obtain rfl := pure_eq_ok.mp h
    exact Or.inr ⟨rfl, spansFrom_eq_ok.mp hs⟩

/-- **A template is written as its pieces are**, one after another. -/
theorem templateOf_written (h : templateOf ps = .ok t) (write : Expr → String) :
    t.written write = String.join (ps.map (Piece.written write)) := by
  rw [Template.written]
  rcases paired_of_templateOf h with ⟨qs, rfl, hp⟩ | ⟨hh, hp⟩
  · rw [hp.written, List.map_cons, String.join_cons, Piece.written]
  · rw [hp.written, hh, String.empty_append]

theorem expr_mem_of_templateOf (h : templateOf ps = .ok t) :
    ∀ s ∈ t.spans, Piece.expr s.expr ∈ ps := by
  rcases paired_of_templateOf h with ⟨qs, rfl, hp⟩ | ⟨_, hp⟩
  · exact fun s hs => List.mem_cons_of_mem _ (hp.expr_mem s hs)
  · exact hp.expr_mem

/-- Every expression among the pieces is substituted. -/
theorem exists_span_of_templateOf (h : templateOf ps = .ok t) {x : Expr}
    (hx : Piece.expr x ∈ ps) : ∃ s ∈ t.spans, s.expr = x := by
  rcases paired_of_templateOf h with ⟨qs, rfl, hp⟩ | ⟨_, hp⟩
  · exact hp.exists_span (List.mem_of_ne_of_mem (by simp) hx)
  · exact hp.exists_span hx

/-- A literal text of a template is one of the pieces, or nothing. -/
theorem text_mem_of_templateOf (h : templateOf ps = .ok t) :
    ∀ x ∈ t.texts, x = "" ∨ Piece.text x ∈ ps := by
  have hspans : ∀ qs, Paired qs t.spans → ∀ x ∈ t.spans.map (·.text),
      x = "" ∨ Piece.text x ∈ qs := by
    intro qs hp x hx
    obtain ⟨s, hs, rfl⟩ := List.mem_map.mp hx
    exact hp.text_mem s hs
  intro x hx
  rcases paired_of_templateOf h with ⟨qs, rfl, hp⟩ | ⟨hh, hp⟩ <;>
    rcases List.mem_cons.mp hx with rfl | hx
  · exact Or.inr (List.mem_cons_self ..)
  · exact (hspans qs hp x hx).imp_right (List.mem_cons_of_mem _)
  · exact Or.inl hh
  · exact hspans ps hp x hx

end Whole

end TypedClient
