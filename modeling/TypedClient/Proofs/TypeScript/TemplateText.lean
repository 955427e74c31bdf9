import Mathlib.Data.List.Basic
import TypedClient.Proofs.Identifier
import TypedClient.Proofs.Text.Quoted
import TypedClient.Reference
import TypedClient.TypeScript.Printer.Expr

/-!
# Reading templates

A template of parameters is printed as literal text with references to the parameters
between. The text is read from the opening backtick on: a backslash gives the character after
it, a dollar sign and an opening brace begin a reference, and a backtick is the end. Neither a
text nor the name of a parameter can pretend to be one of these marks.

## Main definitions

* `parameterTemplate`: the template that puts parameters between texts
* `readSubstitution`: the name of the parameter in a substitution
* `readTemplate`: the template of a text

## Main results

* `readSubstitution_print`: a reference to a parameter is read back up to the closing brace
* `readTemplate_print`: a template of parameters is read back, whatever follows it
* `parameterTemplate_determined`: the text of a template of parameters determines it
-/

namespace TypedClient

open TypeScript Text

/-! ## Access paths -/

/-- How a key is written after an expression whose part it is: after a period if it is a
name, and otherwise quoted between brackets. -/
def accessText (key : String) : List Char :=
  if Identifier.isValid key then '.' :: key.toList
  else '[' :: '"' :: (escapeQuoted key.toList ++ ['"', ']'])

theorem printAt_access (level : Nat) (receiver : Expr) (key : String) :
    ((access receiver key).printAt level).toList =
      (receiver.printAt level).toList ++ accessText key := by
  rw [access, accessText]
  split
  · simp [Expr.printAt]
  · simp [Expr.printAt, quoted]

/-- The key written after an expression, and what comes after it. -/
def readAccess : List Char → Option (List Char × List Char)
  | '.' :: s => Identifier.readName s
  | '[' :: '"' :: s =>
    match readQuoted s with
    | some (key, ']' :: s) => some (key, s)
    | _ => none
  | _ => none

/-- **A key is read back** if no character of a name follows it. -/
theorem readAccess_accessText (key : String) {rest : List Char}
    (hrest : ∀ c ∈ rest.head?, Identifier.isPart c = false) :
    readAccess (accessText key ++ rest) = some (key.toList, rest) := by
  rw [accessText]
  split
  · next hvalid => exact Identifier.readName_append hvalid hrest
  · rw [List.cons_append, List.cons_append, List.append_assoc, readAccess]
    simp [readQuoted_escapeQuoted]

theorem length_readAccess {s : List Char} {r : List Char × List Char} (h : readAccess s = some r) :
    r.2.length < s.length := by
  unfold readAccess at h
  split at h
  · have := Identifier.length_readName h
    simp only [List.length_cons]
    omega
  · split at h
    · next hq =>
      obtain rfl := Option.some.inj h
      have := length_readQuoted hq
      simp only [List.length_cons] at this ⊢
      omega
    · cases h
  · cases h

/-! ## Substitutions -/

/-- The name of the parameter in a substitution and what comes after the closing brace, from
the text after the opening one. -/
def readSubstitution (s : List Char) : Option (List Char × List Char) :=
  (s.dropPrefix? "params.parameter".toList).bind fun s =>
    match readAccess s with
    | some (name, '\x7d' :: s) => some (name, s)
    | _ => none

/-- **A reference to a parameter is read back** up to the closing brace. -/
theorem readSubstitution_print (level : Nat) (name : String) (rest : List Char) :
    readSubstitution (((parameterReference name).printAt level).toList ++ '\x7d' :: rest) =
      some (name.toList, rest) := by
  have hparams : ((Expr.member (.ident "params") "parameter").printAt level).toList =
      "params.parameter".toList := rfl
  have hname : readAccess (accessText name ++ '\x7d' :: rest) =
      some (name.toList, '\x7d' :: rest) := by
    apply readAccess_accessText
    intro c hc
    obtain rfl := Option.some.inj hc
    rfl
  rw [parameterReference, printAt_access, hparams, List.append_assoc, readSubstitution,
    List.dropPrefix?_append_of_beq _ (beq_self_eq_true _), Option.bind_some, hname]
  rfl

theorem length_readSubstitution {s : List Char} {r : List Char × List Char}
    (h : readSubstitution s = some r) : r.2.length ≤ s.length := by
  obtain ⟨t, ht, hr⟩ := Option.bind_eq_some_iff.mp h
  obtain ⟨p, rfl, -⟩ := List.dropPrefix?_eq_some_iff.mp ht
  split at hr
  · next ha =>
    obtain rfl := Option.some.inj hr
    have := length_readAccess ha
    simp only [List.length_cons, List.length_append] at this ⊢
    omega
  · cases hr

/-! ## Templates -/

/-- A substitution with the literal text after it, from the text after the opening brace. -/
def readSpan (s : List Char) : Option (Span String × List Char) :=
  (readSubstitution s).bind fun r =>
    (readTemplateText r.2).map (Prod.map (⟨String.ofList r.1, String.ofList ·⟩) id)

/-- A substitution and the literal text after it are read back up to the next mark. -/
theorem readSpan_print (name text : String) {rest : List Char} (h : EndsTemplateText rest) :
    readSpan (((parameterReference name).printAt 0).toList ++
      '\x7d' :: (escapeTemplate text.toList ++ rest)) = some (⟨name, text⟩, rest) := by
  rw [readSpan, readSubstitution_print, Option.bind_some, readTemplateText_escapeTemplate _ h,
    String.ofList_toList]
  simp

theorem length_readSpan {s : List Char} {r : Span String × List Char} (h : readSpan s = some r) :
    r.2.length ≤ s.length := by
  obtain ⟨q, hq, h⟩ := Option.bind_eq_some_iff.mp h
  obtain ⟨t, ht, rfl⟩ := Option.map_eq_some_iff.mp h
  exact Nat.le_trans (length_readTemplateText ht) (length_readSubstitution hq)

/-- The substitutions of a template up to its closing backtick, and what comes after it. -/
def readSpans : List Char → Option (List (Span String) × List Char)
  | '\x60' :: s => some ([], s)
  | '$' :: '\x7b' :: s =>
    match h : readSpan s with
    | none => none
    | some (span, r) =>
      have : r.length ≤ s.length := length_readSpan h
      (readSpans r).map (Prod.map (span :: ·) id)
  | _ => none
termination_by s => s.length

/-- A template and what comes after it, from a text that begins with a backtick. -/
def readTemplate : List Char → Option (Template String × List Char)
  | '\x60' :: s =>
    (readTemplateText s).bind fun r =>
      (readSpans r.2).map (Prod.map (⟨String.ofList r.1, ·⟩) id)
  | _ => none

/-- The template that puts the values of parameters between texts. -/
def parameterTemplate (t : Template String) : Template Expr :=
  ⟨t.head, t.spans.map fun s => ⟨parameterReference s.expr, s.text⟩⟩

theorem readSpans_close (rest : List Char) : readSpans ('\x60' :: rest) = some ([], rest) := by
  rw [readSpans]

theorem readSpans_substitution {s r : List Char} {span : Span String}
    (h : readSpan s = some (span, r)) :
    readSpans ('$' :: '\x7b' :: s) = (readSpans r).map (Prod.map (span :: ·) id) := by
  rw [readSpans]
  split
  · next hn =>
    rw [h] at hn
    cases hn
  · next hs =>
    rw [h] at hs
    obtain ⟨rfl, rfl⟩ := Prod.mk.inj (Option.some.inj hs)
    rfl

theorem printSpans_cons (e : Expr) (text : String) (ss : List (Span Expr)) :
    (Expr.printSpans (⟨e, text⟩ :: ss)).toList =
      '$' :: '\x7b' :: ((e.printAt 0).toList ++ '\x7d' ::
        (escapeTemplate text.toList ++ (Expr.printSpans ss).toList)) := by
  simp [Expr.printSpans, Expr.printSpan, templateText]

/-- The text of substitutions begins where literal text ends. -/
theorem endsTemplateText_printSpans (ss : List (Span Expr)) (rest : List Char) :
    EndsTemplateText ((Expr.printSpans ss).toList ++ '\x60' :: rest) := by
  match ss with
  | [] => exact .close rest
  | ⟨e, text⟩ :: ss =>
    rw [printSpans_cons]
    exact .substitution _

/-- **The substitutions of a template are read back**, each with the text after it. -/
theorem readSpans_print (spans : List (Span String)) (rest : List Char) :
    readSpans ((Expr.printSpans (spans.map fun s => ⟨parameterReference s.expr, s.text⟩)).toList
      ++ '\x60' :: rest) = some (spans, rest) := by
  induction spans with
  | nil => exact readSpans_close rest
  | cons s ss ih =>
    obtain ⟨name, text⟩ := s
    have hspan := readSpan_print name text
      (endsTemplateText_printSpans (ss.map fun s => ⟨parameterReference s.expr, s.text⟩) rest)
    rw [List.map_cons, printSpans_cons]
    simp only [List.cons_append, List.append_assoc]
    rw [readSpans_substitution hspan, ih]
    rfl

/-- A template of parameters is read back: its head, the names of the parameters and the texts
between them, in their order. -/
theorem readTemplate_print (t : Template String) (level : Nat) (rest : List Char) :
    readTemplate (((Expr.template (parameterTemplate t)).printAt level).toList ++ rest) =
      some (t, rest) := by
  obtain ⟨head, spans⟩ := t
  have hhead := readTemplateText_escapeTemplate head.toList
    (endsTemplateText_printSpans (spans.map fun s => ⟨parameterReference s.expr, s.text⟩) rest)
  have htext : ((Expr.template (parameterTemplate ⟨head, spans⟩)).printAt level).toList ++ rest =
      '\x60' :: (escapeTemplate head.toList ++
        ((Expr.printSpans (spans.map fun s => ⟨parameterReference s.expr, s.text⟩)).toList
          ++ '\x60' :: rest)) := by
    simp [Expr.printAt, Expr.printTemplate, parameterTemplate, templateText]
  rw [htext, readTemplate, hhead, Option.bind_some, readSpans_print, String.ofList_toList]
  rfl

/-- **The text of a template determines it.** The reader goes through the whole text of a
template of parameters, and no further, and finds the template; so no two templates of
parameters have the same text. -/
theorem parameterTemplate_determined (t : Template String) (level : Nat) :
    (∀ rest, readTemplate (((Expr.template (parameterTemplate t)).printAt level).toList ++ rest) =
      some (t, rest)) ∧
    ∀ u, (Expr.template (parameterTemplate u)).printAt level =
      (Expr.template (parameterTemplate t)).printAt level ↔ u = t := by
  refine ⟨readTemplate_print t level, fun u => ⟨fun h => ?_, fun h => h ▸ rfl⟩⟩
  have hu := readTemplate_print u level []
  rw [h, readTemplate_print t level []] at hu
  exact (Prod.mk.inj (Option.some.inj hu)).1.symm

end TypedClient
