import TypedClient.Text.Quoted

/-!
# Laws of quoted text

Each of the two written forms of a string has a reader that goes from left to right, takes
backslashes with the character after them, and stops at the first closing mark that has no
backslash. The readers are inverse to the writers, whatever follows the closing mark.

## Main definitions

* `Text.QuotedBody`: what stands between double quotes, and the text meant by it
* `Text.readQuoted`: a double-quoted string, read after the opening quote
* `Text.readTemplateText`: literal text inside a template, read up to the next substitution
  or to the end of the template

## Main results

* `Text.QuotedBody.readQuoted_eq`: the reader stops at the closing quote
* `Text.readQuoted_escapeQuoted`, `Text.readTemplateText_escapeTemplate`: what is written is
  read back
* `Text.lineBreak_notMem_escapeQuoted`: no line break stands in a quoted string
-/

namespace TypedClient.Text

/-- The characters that end a line. -/
def isLineBreak (c : Char) : Bool :=
  c == '\n' || c == '\r'

theorem isLineBreak_eq_false {c : Char} (hn : c ≠ '\n') (hr : c ≠ '\r') :
    isLineBreak c = false := by
  simp [isLineBreak, hn, hr]

/-- No character of a class is a line break if neither of the two is in the class. -/
theorem isLineBreak_of_class {p : Char → Bool} {c : Char} (hn : p '\n' = false)
    (hr : p '\r' = false) (h : p c) : isLineBreak c = false := by
  refine isLineBreak_eq_false ?_ ?_
  · rintro rfl
    rw [hn] at h
    cases h
  · rintro rfl
    rw [hr] at h
    cases h

/-! ## Double-quoted strings -/

/-- The character meant by a character after a backslash: a line break by the letters `n` and
`r`, and by any other character itself. -/
def unescape : Char → Char
  | 'n' => '\n'
  | 'r' => '\r'
  | c => c

/-- What is inside a double-quoted string and what comes after it, from the text after the
opening quote. A line break inside is refused. -/
def readQuoted : List Char → Option (List Char × List Char)
  | [] => none
  | '"' :: s => some ([], s)
  | '\\' :: c :: s => (readQuoted s).map (Prod.map (unescape c :: ·) id)
  | c :: s => if isLineBreak c then none else (readQuoted s).map (Prod.map (c :: ·) id)

theorem readQuoted_backslash (c : Char) (s : List Char) :
    readQuoted ('\\' :: c :: s) = (readQuoted s).map (Prod.map (unescape c :: ·) id) := by
  rw [readQuoted]

theorem readQuoted_cons {c : Char} (s : List Char) (hq : c ≠ '"') (hb : c ≠ '\\')
    (hl : isLineBreak c = false) :
    readQuoted (c :: s) = (readQuoted s).map (Prod.map (c :: ·) id) := by
  rw [readQuoted]
  · simp [hl]
  · exact hq
  · exact fun d r he => absurd he hb

/-- What stands between double quotes, and the text meant by it. A backslash makes a pair with the
character behind it; every other character stands for itself and is no quote. None of them is a
line break. -/
inductive QuotedBody : List Char → List Char → Prop
  | nil : QuotedBody [] []
  | char {c : Char} {body s : List Char} (hq : c ≠ '"') (hb : c ≠ '\\')
      (hl : isLineBreak c = false) (h : QuotedBody body s) : QuotedBody (c :: body) (c :: s)
  | pair {c : Char} {body s : List Char} (hl : isLineBreak c = false) (h : QuotedBody body s) :
      QuotedBody ('\\' :: c :: body) (unescape c :: s)

namespace QuotedBody

variable {body s : List Char}

/-- **The reader stops at the closing quote**, whatever comes after it. -/
theorem readQuoted_eq (h : QuotedBody body s) (rest : List Char) :
    readQuoted (body ++ '"' :: rest) = some (s, rest) := by
  induction h with
  | nil => rfl
  | char hq hb hl _ ih =>
    rw [List.cons_append, readQuoted_cons _ hq hb hl, ih]
    rfl
  | pair _ _ ih =>
    rw [List.cons_append, List.cons_append, readQuoted_backslash, ih]
    rfl

theorem lineBreak_notMem (h : QuotedBody body s) : ∀ c ∈ body, isLineBreak c = false := by
  induction h with
  | nil => exact nofun
  | char _ _ hl _ ih => exact List.forall_mem_cons.mpr ⟨hl, ih⟩
  | pair hl _ ih => exact List.forall_mem_cons.mpr ⟨rfl, List.forall_mem_cons.mpr ⟨hl, ih⟩⟩

theorem length_le (h : QuotedBody body s) : s.length ≤ body.length := by
  induction h with
  | nil => exact Nat.le_refl 0
  | char _ _ _ _ ih => exact Nat.succ_le_succ ih
  | pair _ _ ih => exact Nat.succ_le_succ (Nat.le_succ_of_le ih)

end QuotedBody

/-- What is written between the quotes for a text means this text. -/
theorem quotedBody_escapeQuoted (s : List Char) : QuotedBody (escapeQuoted s) s := by
  induction s with
  | nil => exact .nil
  | cons c s ih =>
    rw [escapeQuoted_cons]
    unfold escapeQuotedChar
    split
    · exact .pair (c := '\\') rfl ih
    · exact .pair (c := '"') rfl ih
    · exact .pair (c := 'n') rfl ih
    · exact .pair (c := 'r') rfl ih
    · next hb hq hn hr => exact .char hq hb (isLineBreak_eq_false hn hr) ih

/-- **A quoted string is read back**, and the reader stops at the closing quote. -/
theorem readQuoted_escapeQuoted (s rest : List Char) :
    readQuoted (escapeQuoted s ++ '"' :: rest) = some (s, rest) :=
  (quotedBody_escapeQuoted s).readQuoted_eq rest

/-- **No line break stands in a quoted string.** -/
theorem lineBreak_notMem_escapeQuoted (s : List Char) :
    ∀ d ∈ escapeQuoted s, isLineBreak d = false :=
  (quotedBody_escapeQuoted s).lineBreak_notMem

theorem length_readQuoted {s : List Char} {r : List Char × List Char}
    (h : readQuoted s = some r) : r.2.length < s.length := by
  fun_induction readQuoted s generalizing r with
  | case1 => cases h
  | case2 s =>
    obtain rfl := Option.some.inj h
    simp
  | case3 c s ih =>
    obtain ⟨q, hq, rfl⟩ := Option.map_eq_some_iff.mp h
    have := ih hq
    simp only [Prod.map_snd, id_eq, List.length_cons]
    omega
  | case4 c s hc _ _ => cases h
  | case5 c s _ _ hc ih =>
    obtain ⟨q, hq, rfl⟩ := Option.map_eq_some_iff.mp h
    have := ih hq
    simp only [Prod.map_snd, id_eq, List.length_cons]
    omega

/-! ## Literal text inside a template -/

/-- Literal text inside a template and what comes after it: the closing backtick, or a dollar
sign and an opening brace. A character after a backslash is itself. -/
def readTemplateText : List Char → Option (List Char × List Char)
  | [] => none
  | '\x60' :: s => some ([], '\x60' :: s)
  | '$' :: '\x7b' :: s => some ([], '$' :: '\x7b' :: s)
  | '\\' :: c :: s => (readTemplateText s).map (Prod.map (c :: ·) id)
  | c :: s => (readTemplateText s).map (Prod.map (c :: ·) id)

/-- A text at the beginning of which literal text ends. -/
inductive EndsTemplateText : List Char → Prop
  | close (s : List Char) : EndsTemplateText ('\x60' :: s)
  | substitution (s : List Char) : EndsTemplateText ('$' :: '\x7b' :: s)

theorem EndsTemplateText.readTemplateText_eq {s : List Char} (h : EndsTemplateText s) :
    readTemplateText s = some ([], s) := by
  cases h with
  | close s => rw [readTemplateText]
  | substitution s => rw [readTemplateText]

theorem readTemplateText_backslash (c : Char) (s : List Char) :
    readTemplateText ('\\' :: c :: s) = (readTemplateText s).map (Prod.map (c :: ·) id) := by
  rw [readTemplateText]

theorem readTemplateText_cons {c : Char} {s : List Char} (hb : c ≠ '\\') (ht : c ≠ '\x60')
    (hd : c = '$' → s.head? ≠ some '\x7b') :
    readTemplateText (c :: s) = (readTemplateText s).map (Prod.map (c :: ·) id) := by
  rw [readTemplateText]
  · exact ht
  · rintro r rfl rfl
    exact hd rfl rfl
  · exact fun d r he => absurd he hb

/-- A character that is never escaped comes first in written text only if it comes first in the
text. -/
theorem head?_escapeTemplate_ne {c : Char} {s rest : List Char} (hc : c ∉ ['\\', '\x60', '$'])
    (hs : s.head? ≠ some c) (h : EndsTemplateText rest) :
    (escapeTemplate s ++ rest).head? ≠ some c := by
  simp only [List.mem_cons, List.not_mem_nil, or_false, not_or] at hc
  obtain ⟨hb, ht, hd⟩ := hc
  unfold escapeTemplate
  split
  · cases h
    · simpa using Ne.symm ht
    · simpa using Ne.symm hd
  · simpa using Ne.symm hb
  · simpa using Ne.symm hb
  · simpa using Ne.symm hb
  · simpa using hs

/-- An opening brace comes first in written text only if it comes first in the text: a dollar
sign before it cannot become the beginning of a substitution. -/
theorem head?_escapeTemplate {s rest : List Char} (hs : s.head? ≠ some '\x7b')
    (h : EndsTemplateText rest) : (escapeTemplate s ++ rest).head? ≠ some '\x7b' :=
  head?_escapeTemplate_ne (by decide) hs h

/-- **Literal text is read back**, and the reader stops where the text ends. -/
theorem readTemplateText_escapeTemplate (s : List Char) {rest : List Char}
    (h : EndsTemplateText rest) :
    readTemplateText (escapeTemplate s ++ rest) = some (s, rest) := by
  fun_induction escapeTemplate s with
  | case1 => exact h.readTemplateText_eq
  | case2 s ih =>
    -- the escaped dollar sign is read with its backslash, and the brace after it by itself
    rw [List.cons_append, List.cons_append, List.cons_append, readTemplateText_backslash,
      readTemplateText_cons (by decide) (by decide) (by simp), ih]
    rfl
  | case3 s ih =>
    rw [List.cons_append, List.cons_append, readTemplateText_backslash, ih]
    rfl
  | case4 s ih =>
    rw [List.cons_append, List.cons_append, readTemplateText_backslash, ih]
    rfl
  | case5 c s hd hb ht ih =>
    have hhead : c = '$' → (escapeTemplate s ++ rest).head? ≠ some '\x7b' := by
      rintro rfl
      refine head?_escapeTemplate (fun hs => ?_) h
      obtain ⟨r, rfl⟩ := List.head?_eq_some_iff.mp hs
      exact hd r rfl rfl
    rw [List.cons_append, readTemplateText_cons hb ht hhead, ih]
    rfl

theorem length_readTemplateText {s : List Char} {r : List Char × List Char}
    (h : readTemplateText s = some r) : r.2.length ≤ s.length := by
  fun_induction readTemplateText s generalizing r with
  | case1 => cases h
  | case2 s =>
    obtain rfl := Option.some.inj h
    simp
  | case3 s =>
    obtain rfl := Option.some.inj h
    simp
  | case4 c s ih =>
    obtain ⟨q, hq, rfl⟩ := Option.map_eq_some_iff.mp h
    have := ih hq
    simp only [Prod.map_snd, id_eq, List.length_cons]
    omega
  | case5 c s _ _ _ ih =>
    obtain ⟨q, hq, rfl⟩ := Option.map_eq_some_iff.mp h
    have := ih hq
    simp only [Prod.map_snd, id_eq, List.length_cons]
    omega

end TypedClient.Text
