import TypedClient.Proofs.Text.Quoted

/-!
# Escapes as replacements

The inside of a quoted string and the inside of a template can be made by replacements, each of
which goes through the whole text that the ones before it have left. The backslash comes first, so
that the backslashes that the other replacements put in are not replaced again.

## Main definitions

* `Text.replaceEach`: characters replaced by texts, one character after another
* `Text.replaceText`: a text replaced by another one wherever it occurs

## Main results

* `Text.escapeQuoted_eq_replaceEach`: four replacements make the inside of a quoted string
* `Text.replaceText_append`, `Text.replaceText_cons`: what a replacement does to a text that begins
  with an occurrence, and to one that does not
* `Text.escapeTemplate_eq_replaceText`: three replacements make the inside of a template
-/

namespace TypedClient.Text

/-! ## Replacing characters one after another -/

/-- Characters replaced by texts. Each replacement goes through the whole text that the ones before
it have left, the characters they have put in included. -/
def replaceEach (replacements : List (Char × List Char)) (s : List Char) : List Char :=
  replacements.foldl (fun s r => s.flatMap fun c => if c = r.1 then r.2 else [c]) s

/-- What is replaced in a text that is put between double quotes. -/
def quotedReplacements : List (Char × List Char) :=
  [('\\', ['\\', '\\']), ('"', ['\\', '"']), ('\n', ['\\', 'n']), ('\r', ['\\', 'r'])]

theorem replaceEach_append (replacements : List (Char × List Char)) (s t : List Char) :
    replaceEach replacements (s ++ t) =
      replaceEach replacements s ++ replaceEach replacements t := by
  induction replacements generalizing s t with
  | nil => rfl
  | cons r replacements ih =>
    rw [replaceEach, List.foldl_cons, List.flatMap_append]
    exact ih _ _

theorem replaceEach_cons (replacements : List (Char × List Char)) (c : Char) (s : List Char) :
    replaceEach replacements (c :: s) =
      replaceEach replacements [c] ++ replaceEach replacements s :=
  replaceEach_append replacements [c] s

/-- The four replacements do to a single character what is to be written for it. -/
theorem replaceEach_singleton (c : Char) :
    replaceEach quotedReplacements [c] = escapeQuotedChar c := by
  unfold escapeQuotedChar
  split
  -- what is put in for one of the four is left alone by the replacements after it
  · decide
  · decide
  · decide
  · decide
  · next hb hq hn hr =>
    simp only [replaceEach, quotedReplacements, List.foldl_cons, List.foldl_nil,
      List.flatMap_singleton, if_neg hb, if_neg hq, if_neg hn, if_neg hr]

/-- **Four replacements one after another make the inside of a quoted string.** -/
theorem escapeQuoted_eq_replaceEach (s : List Char) :
    escapeQuoted s = replaceEach quotedReplacements s := by
  induction s with
  | nil => rfl
  | cons c s ih => rw [escapeQuoted_cons, ih, ← replaceEach_singleton, ← replaceEach_cons]

/-! ## Replacing a text -/

/-- A text in which another one, which is not empty, is replaced from left to right wherever it
occurs. The number is that of the characters that still belong to an occurrence and are left out. -/
def replaceTextAfter (old new : List Char) : Nat → List Char → List Char
  | _, [] => []
  | skip + 1, _ :: s => replaceTextAfter old new skip s
  | 0, c :: s =>
    if old <+: c :: s then new ++ replaceTextAfter old new (old.length - 1) s
    else c :: replaceTextAfter old new 0 s

/-- A text in which another one, which is not empty, is replaced from left to right wherever it
occurs. -/
def replaceText (old new : List Char) (s : List Char) : List Char :=
  replaceTextAfter old new 0 s

section ReplaceText

variable {old new s : List Char} {c : Char}

theorem replaceTextAfter_length_append (skipped : List Char) :
    replaceTextAfter old new skipped.length (skipped ++ s) = replaceText old new s := by
  induction skipped with
  | nil => rfl
  | cons c skipped ih => exact ih

/-- An occurrence at the beginning is replaced, and the search goes on after it. -/
theorem replaceText_append (new s : List Char) (hold : old ≠ []) :
    replaceText old new (old ++ s) = new ++ replaceText old new s := by
  obtain ⟨c, rest, rfl⟩ := List.exists_cons_of_ne_nil hold
  rw [replaceText, List.cons_append, replaceTextAfter, if_pos ⟨s, List.cons_append⟩]
  exact congrArg (new ++ ·) (replaceTextAfter_length_append rest)

/-- A character at which no occurrence begins is kept. -/
theorem replaceText_cons (h : ¬ old <+: c :: s) :
    replaceText old new (c :: s) = c :: replaceText old new s := by
  rw [replaceText, replaceTextAfter, if_neg h, replaceText]

end ReplaceText

/-! ## The inside of a template -/

/-- The characters that are replaced in literal text of a template. -/
def templateReplacements : List (Char × List Char) :=
  [('\\', ['\\', '\\']), ('\x60', ['\\', '\x60'])]

section Template

variable {s : List Char} {c : Char}

theorem replaceEach_template_of_ne (hb : c ≠ '\\') (ht : c ≠ '\x60') :
    replaceEach templateReplacements (c :: s) = c :: replaceEach templateReplacements s := by
  rw [replaceEach_cons]
  simp only [replaceEach, templateReplacements, List.foldl_cons, List.foldl_nil,
    List.flatMap_singleton, if_neg hb, if_neg ht, List.singleton_append]

/-- An opening brace is never put in. -/
theorem head?_replaceEach_template (hs : s.head? ≠ some '\x7b') :
    (replaceEach templateReplacements s).head? ≠ some '\x7b' := by
  cases s with
  | nil => exact nofun
  | cons c s =>
    by_cases hb : c = '\\'
    · subst hb
      rw [replaceEach_cons]
      exact (by decide : (some '\\' : Option Char) ≠ some '\x7b')
    by_cases ht : c = '\x60'
    · subst ht
      rw [replaceEach_cons]
      exact (by decide : (some '\\' : Option Char) ≠ some '\x7b')
    · rw [replaceEach_template_of_ne hb ht]
      exact hs

/-- Where no substitution begins, a character is kept. -/
theorem replaceText_substitution (h : c = '$' → s.head? ≠ some '\x7b') :
    replaceText ['$', '\x7b'] ['\\', '$', '\x7b'] (c :: s) =
      c :: replaceText ['$', '\x7b'] ['\\', '$', '\x7b'] s := by
  refine replaceText_cons fun hprefix => ?_
  rw [List.cons_prefix_cons] at hprefix
  obtain ⟨rfl, rest, rfl⟩ := hprefix
  exact h rfl rfl

/-- A backslash and a character that begins no substitution are kept. -/
theorem replaceText_substitution_backslash (hc : c ≠ '$') :
    replaceText ['$', '\x7b'] ['\\', '$', '\x7b'] ('\\' :: c :: s) =
      '\\' :: c :: replaceText ['$', '\x7b'] ['\\', '$', '\x7b'] s := by
  rw [replaceText_substitution (absurd · (by decide)), replaceText_substitution (absurd · hc)]

/-- **Three replacements one after another make the inside of a template**: of the backslash, of the
backtick, and of a dollar sign with an opening brace. -/
theorem escapeTemplate_eq_replaceText (s : List Char) :
    escapeTemplate s =
      replaceText ['$', '\x7b'] ['\\', '$', '\x7b'] (replaceEach templateReplacements s) := by
  fun_induction escapeTemplate s with
  | case1 => rfl
  | case2 s ih =>
    rw [replaceEach_template_of_ne (by decide) (by decide),
      replaceEach_template_of_ne (by decide) (by decide), ih]
    exact (replaceText_append ['\\', '$', '\x7b'] _ (List.cons_ne_nil '$' ['\x7b'])).symm
  | case3 s ih =>
    rw [replaceEach_cons, ih]
    exact (replaceText_substitution_backslash (by decide)).symm
  | case4 s ih =>
    rw [replaceEach_cons, ih]
    exact (replaceText_substitution_backslash (by decide)).symm
  | case5 c s hd hb ht ih =>
    rw [replaceEach_template_of_ne hb ht, ih, replaceText_substitution]
    -- a brace after a dollar sign was there before
    rintro rfl
    refine head?_replaceEach_template fun hs => ?_
    obtain ⟨r, rfl⟩ := List.head?_eq_some_iff.mp hs
    exact hd r rfl rfl

end Template

end TypedClient.Text
