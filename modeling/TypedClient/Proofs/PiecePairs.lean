import TypedClient.Proofs.Template

/-!
# Pieces in pairs

A template takes the pieces behind its head in pairs. Which lists of pieces make up a template is
said here without the function that makes it: texts may stand at the beginning and at the second
place of a pair, and the last pair may lack its second place. In any other list a text begins a
pair, and the first such text is the fault.

## Main definitions

* `InPairs`: pieces in complete pairs
* `MakesTemplate`, `TextBeginsPair`: the lists of pieces that make up a template, and those with
  a text at the beginning of a pair
* `Template.pieces`: the pieces of a template, empty texts included

## Main results

* `spansFrom_inPairs`: complete pairs have their substitutions, whatever comes after them
* `makesTemplate_or_textBeginsPair`: a list of pieces is of one or the other form
* `templateOf_outcome`: when pieces make up a template, what it holds, and which fault they have
-/

namespace TypedClient

open TypeScript

/-! ## Forms of lists of pieces -/

/-- Pieces in complete pairs: an expression, and a text or an expression after it. -/
inductive InPairs : List Piece → Prop
  | nil : InPairs []
  | cons (e : Expr) (p : Piece) {ps : List Piece} (h : InPairs ps) :
      InPairs (.expr e :: p :: ps)

/-- At most one piece, which is a text. -/
def IsHead (ps : List Piece) : Prop :=
  ps = [] ∨ ∃ t, ps = [.text t]

/-- At most one piece, which is an expression. -/
def IsLast (ps : List Piece) : Prop :=
  ps = [] ∨ ∃ e, ps = [.expr e]

/-- A text that may be missing, complete pairs, and an expression that may be missing. -/
def MakesTemplate (ps : List Piece) : Prop :=
  ∃ head pairs last, ps = head ++ pairs ++ last ∧ IsHead head ∧ InPairs pairs ∧ IsLast last

/-- At a place of a list stands a text that begins a pair: a text that may be missing and complete
pairs come before it, and it is not the head itself. -/
def TextBeginsPair (ps : List Piece) (index : Nat) : Prop :=
  ∃ head pairs x rest, ps = head ++ pairs ++ .text x :: rest ∧ IsHead head ∧ InPairs pairs ∧
    head ++ pairs ≠ [] ∧ index = (head ++ pairs).length

section Forms

variable {ps pairs rest : List Piece}

theorem isHead_nil : IsHead [] := .inl rfl

theorem isHead_text (t : String) : IsHead [.text t] := .inr ⟨t, rfl⟩

/-- **A list falls into pairs up to a last expression or up to a text.** -/
theorem inPairs_cases (ps : List Piece) :
    (∃ pairs last, ps = pairs ++ last ∧ InPairs pairs ∧ IsLast last) ∨
      ∃ pairs x rest, ps = pairs ++ .text x :: rest ∧ InPairs pairs := by
  match ps with
  | [] => exact .inl ⟨[], [], rfl, .nil, .inl rfl⟩
  | [.expr e] => exact .inl ⟨[], [.expr e], rfl, .nil, .inr ⟨e, rfl⟩⟩
  | .text x :: rest => exact .inr ⟨[], x, rest, rfl, .nil⟩
  | .expr e :: p :: ps =>
    rcases inPairs_cases ps with ⟨pairs, last, rfl, hpairs, hlast⟩ | ⟨pairs, x, rest, rfl, hpairs⟩
    · exact .inl ⟨.expr e :: p :: pairs, last, rfl, .cons e p hpairs, hlast⟩
    · exact .inr ⟨.expr e :: p :: pairs, x, rest, rfl, .cons e p hpairs⟩

/-- A list of pieces makes up a template, or a text begins a pair in it. -/
theorem makesTemplate_or_textBeginsPair (ps : List Piece) :
    MakesTemplate ps ∨ ∃ i, TextBeginsPair ps i := by
  match ps with
  | .text t :: ps =>
    rcases inPairs_cases ps with ⟨pairs, last, rfl, hpairs, hlast⟩ | ⟨pairs, x, rest, rfl, hpairs⟩
    · exact .inl ⟨[.text t], pairs, last, rfl, isHead_text t, hpairs, hlast⟩
    · exact .inr ⟨_, [.text t], pairs, x, rest, rfl, isHead_text t, hpairs, by simp, rfl⟩
  | [] => exact .inl ⟨[], [], [], rfl, isHead_nil, .nil, .inl rfl⟩
  | .expr e :: ps =>
    rcases inPairs_cases (.expr e :: ps) with
      ⟨pairs, last, h, hpairs, hlast⟩ | ⟨pairs, x, rest, h, hpairs⟩
    · exact .inl ⟨[], pairs, last, h, isHead_nil, hpairs, hlast⟩
    · -- the list begins with an expression, so that the text has pairs before it
      refine .inr ⟨_, [], pairs, x, rest, h, isHead_nil, hpairs, ?_, rfl⟩
      rintro rfl
      cases h

end Forms

/-! ## Substitutions of pairs -/

/-- **Complete pairs have their substitutions**, whatever comes after them, and what comes after
them is taken in pairs from its own place on. -/
theorem spansFrom_inPairs {pairs : List Piece} (h : InPairs pairs) (index : Nat) :
    ∃ ss, ∀ rest, spansFrom index (pairs ++ rest) =
      (ss ++ ·) <$> spansFrom (index + pairs.length) rest := by
  induction h generalizing index with
  | nil => exact ⟨[], fun rest => (id_map _).symm⟩
  | @cons e p pairs h ih =>
    obtain ⟨ss, hss⟩ := ih (index + 2)
    have hlength : index + (Piece.expr e :: p :: pairs).length = index + 2 + pairs.length := by
      rw [List.length_cons, List.length_cons]
      omega
    cases p with
    | text t =>
      refine ⟨⟨e, t⟩ :: ss, fun rest => ?_⟩
      rw [List.cons_append, List.cons_append, spansFrom, hss rest, hlength, map_eq_pure_bind,
        map_eq_pure_bind, bind_assoc]
      simp only [pure_bind, List.cons_append]
    | expr f =>
      refine ⟨⟨e, ""⟩ :: ⟨f, ""⟩ :: ss, fun rest => ?_⟩
      rw [List.cons_append, List.cons_append, spansFrom, hss rest, hlength, map_eq_pure_bind,
        map_eq_pure_bind, bind_assoc]
      simp only [pure_bind, List.cons_append]

theorem exists_spansFrom_of_isLast {last : List Piece} (h : IsLast last) (index : Nat) :
    ∃ ss, spansFrom index last = .ok ss := by
  rcases h with rfl | ⟨e, rfl⟩
  · exact ⟨[], rfl⟩
  · exact ⟨[⟨e, ""⟩], rfl⟩

/-! ## Templates of pieces -/

/-- The text of a piece is missing. -/
def Piece.isEmpty : Piece → Bool
  | .text t => t.isEmpty
  | .expr _ => false

/-- The expression of a piece. -/
def Piece.expr? : Piece → Option Expr
  | .text _ => none
  | .expr e => some e

/-- A substitution and the text after it. -/
def TypeScript.Span.pieces (s : Span Expr) : List Piece :=
  [.expr s.expr, .text s.text]

/-- The head, and each substitution with the text after it. -/
def TypeScript.Template.pieces (t : Template Expr) : List Piece :=
  .text t.head :: t.spans.flatMap Span.pieces

/-- Pieces without the empty texts. -/
def withoutEmpty (ps : List Piece) : List Piece :=
  ps.filter fun p => !p.isEmpty

section Pieces

variable {ps qs : List Piece} {ss : List (Span Expr)} {t : Template Expr}

theorem withoutEmpty_append (ps qs : List Piece) :
    withoutEmpty (ps ++ qs) = withoutEmpty ps ++ withoutEmpty qs :=
  List.filter_append ..

@[simp]
theorem withoutEmpty_expr_cons (e : Expr) (ps : List Piece) :
    withoutEmpty (.expr e :: ps) = .expr e :: withoutEmpty ps := rfl

@[simp]
theorem withoutEmpty_emptyText_cons (ps : List Piece) :
    withoutEmpty (.text "" :: ps) = withoutEmpty ps := rfl

theorem withoutEmpty_cons_congr (p : Piece) (h : withoutEmpty ps = withoutEmpty qs) :
    withoutEmpty (p :: ps) = withoutEmpty (p :: qs) := by
  rw [← List.singleton_append, ← List.singleton_append (l := qs), withoutEmpty_append,
    withoutEmpty_append, h]

theorem Paired.map_expr (h : Paired ps ss) : ss.map (·.expr) = ps.filterMap Piece.expr? := by
  induction h with
  | nil => rfl
  | last e => rfl
  | text e t _ ih => simp [List.filterMap_cons, Piece.expr?, ih]
  | expr e f _ ih => simp [Piece.expr?, ih]

theorem Paired.withoutEmpty_pieces (h : Paired ps ss) :
    withoutEmpty (ss.flatMap Span.pieces) = withoutEmpty ps := by
  induction h with
  | nil => rfl
  | last e => rfl
  | text e t _ ih => simpa [Span.pieces] using withoutEmpty_cons_congr (.text t) ih
  | expr e f _ ih => simp [Span.pieces, ih]

/-- **The substitutions of a template are the expressions among its pieces.** -/
theorem map_expr_of_templateOf (h : templateOf ps = .ok t) :
    t.spans.map (·.expr) = ps.filterMap Piece.expr? := by
  rcases paired_of_templateOf h with ⟨qs, rfl, hp⟩ | ⟨_, hp⟩
  · exact hp.map_expr
  · exact hp.map_expr

/-- **A template consists of its pieces**, except for empty texts. -/
theorem withoutEmpty_of_templateOf (h : templateOf ps = .ok t) :
    withoutEmpty t.pieces = withoutEmpty ps := by
  rcases paired_of_templateOf h with ⟨qs, rfl, hp⟩ | ⟨hhead, hp⟩
  · exact withoutEmpty_cons_congr _ hp.withoutEmpty_pieces
  · rw [Template.pieces, hhead, withoutEmpty_emptyText_cons, hp.withoutEmpty_pieces]

end Pieces

section Outcome

variable {ps head pairs rest : List Piece}

/-- What comes after a head is taken in pairs from its own place on. A list without a head begins
with an expression. -/
theorem templateOf_append (hhead : IsHead head)
    (hrest : head = [] → ∀ t, rest.head? ≠ some (.text t)) :
    ∃ t, templateOf (head ++ rest) = (⟨t, ·⟩) <$> spansFrom head.length rest := by
  rcases hhead with rfl | ⟨t, rfl⟩
  · refine ⟨"", ?_⟩
    cases rest with
    | nil => rfl
    | cons p rest =>
      cases p with
      | text t => exact absurd rfl (hrest rfl t)
      | expr e => exact templateOf_expr_cons e rest
  · exact ⟨t, templateOf_text_cons t rest⟩

theorem head?_inPairs_append (h : InPairs pairs)
    (hne : pairs ≠ [] ∨ ∀ t, rest.head? ≠ some (.text t)) (t : String) :
    (pairs ++ rest).head? ≠ some (.text t) := by
  cases h with
  | nil => exact hne.resolve_left (absurd rfl) t
  | cons e p h => simp

/-- What becomes of a head and complete pairs is decided by what comes after them. -/
theorem templateOf_inPairs (rest : List Piece) (hhead : IsHead head) (hpairs : InPairs pairs)
    (hrest : head ++ pairs ≠ [] ∨ ∀ t, rest.head? ≠ some (.text t)) :
    ∃ toTemplate : List (Span Expr) → Template Expr,
      templateOf (head ++ pairs ++ rest) =
        toTemplate <$> spansFrom (head ++ pairs).length rest := by
  have hbegin : head = [] → ∀ t, (pairs ++ rest).head? ≠ some (.text t) := by
    rintro rfl
    exact head?_inPairs_append hpairs hrest
  obtain ⟨t, ht⟩ := templateOf_append hhead hbegin
  obtain ⟨ss, hss⟩ := spansFrom_inPairs hpairs head.length
  refine ⟨fun rs => ⟨t, ss ++ rs⟩, ?_⟩
  rw [List.append_assoc, ht, hss rest, List.length_append, Functor.map_map]

theorem exists_templateOf_of_makesTemplate (h : MakesTemplate ps) : ∃ t, templateOf ps = .ok t := by
  obtain ⟨head, pairs, last, rfl, hhead, hpairs, hlast⟩ := h
  have hbegin : ∀ t, last.head? ≠ some (.text t) := by
    rcases hlast with rfl | ⟨e, rfl⟩ <;> simp
  obtain ⟨toTemplate, ht⟩ := templateOf_inPairs last hhead hpairs (.inr hbegin)
  obtain ⟨ss, hss⟩ := exists_spansFrom_of_isLast hlast (head ++ pairs).length
  exact ⟨toTemplate ss, by rw [ht, hss]; rfl⟩

theorem templateOf_of_textBeginsPair {i : Nat} (h : TextBeginsPair ps i) :
    templateOf ps = .error (.misplacedText i) := by
  obtain ⟨head, pairs, x, rest, rfl, hhead, hpairs, hne, rfl⟩ := h
  obtain ⟨toTemplate, ht⟩ := templateOf_inPairs (.text x :: rest) hhead hpairs (.inl hne)
  rw [ht]
  rfl

/-- **When pieces make up a template.** They do so just when they are a text that may be missing,
complete pairs, and an expression that may be missing. The template then substitutes the
expressions in their order and consists of the pieces, except for empty texts. Otherwise a text
begins a pair behind complete ones, and its place in the whole list is the fault, which is one of
the generator. -/
theorem templateOf_outcome (ps : List Piece) :
    ((∃ t, templateOf ps = .ok t) ↔ MakesTemplate ps) ∧
      (∀ t, templateOf ps = .ok t →
        t.spans.map (·.expr) = ps.filterMap Piece.expr? ∧
          withoutEmpty t.pieces = withoutEmpty ps) ∧
      ∀ f, templateOf ps = .error f ↔
        ∃ i, TextBeginsPair ps i ∧ f = .misplacedText i ∧ f.isInternal := by
  refine ⟨⟨?_, exists_templateOf_of_makesTemplate⟩, fun t ht => ?_, fun f => ⟨?_, ?_⟩⟩
  · rintro ⟨t, ht⟩
    refine (makesTemplate_or_textBeginsPair ps).resolve_right fun ⟨i, hi⟩ => ?_
    rw [templateOf_of_textBeginsPair hi] at ht
    cases ht
  · exact ⟨map_expr_of_templateOf ht, withoutEmpty_of_templateOf ht⟩
  · intro hf
    rcases makesTemplate_or_textBeginsPair ps with h | ⟨i, hi⟩
    · obtain ⟨t, ht⟩ := exists_templateOf_of_makesTemplate h
      rw [ht] at hf
      cases hf
    · rw [templateOf_of_textBeginsPair hi] at hf
      obtain rfl := Except.error.inj hf
      exact ⟨i, hi, rfl, rfl⟩
  · rintro ⟨i, hi, rfl, _⟩
    exact templateOf_of_textBeginsPair hi

end Outcome

end TypedClient
