import TypedClient.Number.Digits
import TypedClient.Proofs.Text.Quoted
import TypedClient.TypeScript.Printer.Expr

/-!
# Values of string literals

A string can be written between double quotes and as a template without substitutions. What either
literal denotes is a matter of the language: a value is a list of UTF-16 code units, a backslash
begins an escape, and the end of a line is refused between quotes and is a line feed in a template,
however it is written.

The rules are those of module code, which has no octal escapes. They are read off the literal from
left to right and do not know how it was written.

## Main definitions

* `codeUnits`, `valueOf`: the code units of a code point and of a text
* `readEscape`: what an escape denotes
* `Quotation`, `literalValue?`: the two kinds of literals, and what a literal denotes
* `foldReturns`: a text with a line feed for every end of a line

## Main results

* `readLiteral_escapeQuoted`: a quoted string denotes the text it was written for
* `readLiteral_escapeTemplate`: a template denotes that text with its ends of lines folded
* `literal_values_agree_iff`: the two literals of a text denote it just when no carriage return is
  in it
-/

namespace TypedClient.TypeScript

open Text

/-! ## Code units -/

/-- The code units of a code point: itself, or a surrogate pair. -/
def codeUnits (n : Nat) : List Nat :=
  if n < 0x10000 then [n]
  else [0xD800 + (n - 0x10000) / 0x400, 0xDC00 + (n - 0x10000) % 0x400]

/-- The value that says a text. -/
def valueOf (s : List Char) : List Nat :=
  s.flatMap fun c => codeUnits c.toNat

/-! ## Escapes -/

/-- The characters that end a line of a program. -/
def isLineTerminator (c : Char) : Bool :=
  isLineBreak c || c == '\u2028' || c == '\u2029'

/-- What comes after a carriage return and the line feed that belongs to it. -/
def dropLineFeed : List Char → List Char
  | '\n' :: s => s
  | s => s

/-- The character meant by one after a backslash that is not the beginning of a longer escape. -/
def escapedChar : Char → Char
  | 'b' => '\x08'
  | 't' => '\t'
  | 'n' => '\n'
  | 'v' => '\x0b'
  | 'f' => '\x0c'
  | 'r' => '\r'
  | c => c

/-- The code unit with a fixed number of hexadecimal digits, and what comes after it. -/
def readCodeUnit (digits : Nat) (s : List Char) : Option (List Nat × List Char) :=
  if s.length < digits then none
  else (Digits.value? 16 (s.take digits)).map fun n => ([n], s.drop digits)

/-- The code point between braces, and what comes after it, from the text after the opening
brace. -/
def readCodePoint (s : List Char) : Option (List Nat × List Char) :=
  match s.takeWhile (· != '\x7d'), s.dropWhile (· != '\x7d') with
  | d :: ds, _ :: rest =>
    (Digits.value? 16 (d :: ds)).bind fun n =>
      if n ≤ 0x10FFFF then some (codeUnits n, rest) else none
  | _, _ => none

/-- What an escape denotes and what comes after it, from the text after the backslash. The end of
a line denotes nothing there, and a digit is refused unless it is a zero without another digit
after it. -/
def readEscape : List Char → Option (List Nat × List Char)
  | [] => none
  | 'x' :: s => readCodeUnit 2 s
  | 'u' :: '\x7b' :: s => readCodePoint s
  | 'u' :: s => readCodeUnit 4 s
  | '\r' :: s => some ([], dropLineFeed s)
  | c :: s =>
    if isLineTerminator c then some ([], s)
    else if c.isDigit then
      if c = '0' ∧ ¬ s.head?.any Char.isDigit then some ([0], s) else none
    else some (codeUnits (escapedChar c).toNat, s)

theorem length_dropLineFeed (s : List Char) : (dropLineFeed s).length ≤ s.length := by
  unfold dropLineFeed
  split
  · exact Nat.le_succ _
  · exact Nat.le_refl _

theorem length_readCodeUnit {digits : Nat} {s : List Char} {r : List Nat × List Char}
    (h : readCodeUnit digits s = some r) : r.2.length ≤ s.length := by
  unfold readCodeUnit at h
  split at h
  · cases h
  · obtain ⟨n, _, rfl⟩ := Option.map_eq_some_iff.mp h
    simp

theorem length_readCodePoint {s : List Char} {r : List Nat × List Char}
    (h : readCodePoint s = some r) : r.2.length ≤ s.length := by
  unfold readCodePoint at h
  split at h
  · next c rest _ hrest =>
    obtain ⟨n, _, h⟩ := Option.bind_eq_some_iff.mp h
    split at h
    · obtain rfl := Option.some.inj h
      have hsuffix : c :: rest <:+ s := hrest ▸ List.dropWhile_suffix _
      exact Nat.le_of_succ_le hsuffix.length_le
    · cases h
  · cases h

theorem length_readEscape {s : List Char} {r : List Nat × List Char}
    (h : readEscape s = some r) : r.2.length < s.length := by
  unfold readEscape at h
  split at h
  · cases h
  · exact Nat.lt_succ_of_le (length_readCodeUnit h)
  · have := length_readCodePoint h
    simp only [List.length_cons]
    omega
  · exact Nat.lt_succ_of_le (length_readCodeUnit h)
  · obtain rfl := Option.some.inj h
    exact Nat.lt_succ_of_le (length_dropLineFeed _)
  · split at h
    · obtain rfl := Option.some.inj h
      exact Nat.lt_succ_self _
    · split at h
      · split at h
        · obtain rfl := Option.some.inj h
          exact Nat.lt_succ_self _
        · cases h
      · obtain rfl := Option.some.inj h
        exact Nat.lt_succ_self _

/-! ## Literals -/

/-- The literals that denote a string by themselves. -/
inductive Quotation
  /-- A string between double quotes. -/
  | string
  /-- A template without substitutions. -/
  | template
  deriving DecidableEq, Repr

namespace Quotation

/-- The mark at both ends of a literal. -/
def mark : Quotation → Char
  | string => '"'
  | template => '\x60'

/-- What a character without a backslash denotes and what comes after it. A quoted string refuses
line breaks. In a template they denote a line feed, and a substitution is refused. -/
def readSource : Quotation → Char → List Char → Option (List Nat × List Char)
  | string, c, s => if isLineBreak c then none else some (codeUnits c.toNat, s)
  | template, '\r', s => some (codeUnits '\n'.toNat, dropLineFeed s)
  | template, '$', '\x7b' :: _ => none
  | template, c, s => some (codeUnits c.toNat, s)

/-- What the next character or escape of a literal denotes, and what comes after it. -/
def readNext (q : Quotation) : List Char → Option (List Nat × List Char)
  | [] => none
  | '\\' :: s => readEscape s
  | c :: s => q.readSource c s

variable {q : Quotation}

theorem length_readSource {c : Char} {s : List Char} {r : List Nat × List Char}
    (h : q.readSource c s = some r) : r.2.length ≤ s.length := by
  unfold readSource at h
  split at h
  · split at h
    · cases h
    · obtain rfl := Option.some.inj h
      exact Nat.le_refl _
  · obtain rfl := Option.some.inj h
    exact length_dropLineFeed _
  · cases h
  · obtain rfl := Option.some.inj h
    exact Nat.le_refl _

theorem length_readNext {s : List Char} {r : List Nat × List Char}
    (h : q.readNext s = some r) : r.2.length < s.length := by
  unfold readNext at h
  split at h
  · cases h
  · exact Nat.lt_succ_of_lt (length_readEscape h)
  · exact Nat.lt_succ_of_le (length_readSource h)

/-- What a literal denotes and what comes after it, from the text after its first mark. -/
def readLiteral (q : Quotation) (s : List Char) : Option (List Nat × List Char) :=
  if s.head? = some q.mark then some ([], s.tail)
  else
    match h : q.readNext s with
    | none => none
    | some (units, rest) =>
      have : rest.length < s.length := length_readNext h
      (q.readLiteral rest).map (Prod.map (units ++ ·) id)
termination_by s.length

/-- What a text denotes that is a literal as a whole. -/
def literalValue? (q : Quotation) (text : String) : Option (List Nat) :=
  if text.toList.head? = some q.mark then
    (q.readLiteral text.toList.tail).bind fun r => if r.2 = [] then some r.1 else none
  else none

theorem readLiteral_mark (s : List Char) : q.readLiteral (q.mark :: s) = some ([], s) := by
  rw [readLiteral, List.head?_cons, if_pos rfl, List.tail_cons]

theorem readLiteral_next {c : Char} {s rest : List Char} {units : List Nat} (hc : c ≠ q.mark)
    (h : q.readNext (c :: s) = some (units, rest)) :
    q.readLiteral (c :: s) = (q.readLiteral rest).map (Prod.map (units ++ ·) id) := by
  have hmark : (c :: s).head? ≠ some q.mark := fun he => hc (Option.some.inj he)
  rw [readLiteral, if_neg hmark]
  split
  · next hn =>
    rw [h] at hn
    cases hn
  · next hs =>
    rw [h] at hs
    obtain ⟨rfl, rfl⟩ := Prod.mk.inj (Option.some.inj hs)
    rfl

end Quotation

/-! ## Quoted strings -/

/-- One character is denoted by the way it is written. -/
theorem readLiteral_escapeQuotedChar (c : Char) (s : List Char) :
    Quotation.string.readLiteral (escapeQuotedChar c ++ s) =
      (Quotation.string.readLiteral s).map (Prod.map (codeUnits c.toNat ++ ·) id) := by
  unfold escapeQuotedChar
  split
  · exact Quotation.readLiteral_next (by decide) rfl
  · exact Quotation.readLiteral_next (by decide) rfl
  · exact Quotation.readLiteral_next (by decide) rfl
  · exact Quotation.readLiteral_next (by decide) rfl
  · next hb hq hn hr =>
    have hsource : Quotation.string.readNext (c :: s) = some (codeUnits c.toNat, s) := by
      rw [Quotation.readNext]
      · rw [Quotation.readSource, isLineBreak_eq_false hn hr]
        rfl
      · exact hb
    exact Quotation.readLiteral_next hq hsource

/-- **A quoted string denotes the text it was written for.** -/
theorem readLiteral_escapeQuoted (s rest : List Char) :
    Quotation.string.readLiteral (escapeQuoted s ++ '"' :: rest) = some (valueOf s, rest) := by
  induction s with
  | nil => exact Quotation.readLiteral_mark rest
  | cons c s ih =>
    rw [escapeQuoted_cons, List.append_assoc, readLiteral_escapeQuotedChar, ih]
    rfl

/-! ## Templates -/

/-- A text with a line feed for every carriage return, together with a line feed after it. -/
def foldReturns : List Char → List Char
  | [] => []
  | '\r' :: '\n' :: s => '\n' :: foldReturns s
  | '\r' :: s => '\n' :: foldReturns s
  | c :: s => c :: foldReturns s

section Fold

variable {c : Char} {s : List Char}

/-- A carriage return before a line feed says nothing of its own. -/
theorem foldReturns_of_lineFeed (h : s.head? = some '\n') :
    foldReturns ('\r' :: s) = foldReturns s := by
  obtain ⟨t, rfl⟩ := List.head?_eq_some_iff.mp h
  rw [foldReturns, foldReturns]
  · exact nofun
  · exact nofun

theorem foldReturns_return (h : s.head? ≠ some '\n') :
    foldReturns ('\r' :: s) = '\n' :: foldReturns s := by
  rw [foldReturns]
  rintro t rfl
  exact h rfl

theorem foldReturns_cons (h : c ≠ '\r') : foldReturns (c :: s) = c :: foldReturns s := by
  rw [foldReturns]
  · exact fun t hc => absurd hc h
  · exact h

theorem return_notMem_foldReturns (s : List Char) : '\r' ∉ foldReturns s := by
  fun_induction foldReturns s with
  | case1 => exact List.not_mem_nil
  | case2 s ih => simpa using ih
  | case3 s _ ih => simpa using ih
  | case4 c s _ hc ih => simpa using ⟨Ne.symm hc, ih⟩

theorem foldReturns_of_notMem (h : '\r' ∉ s) : foldReturns s = s := by
  induction s with
  | nil => rfl
  | cons c s ih =>
    rw [List.mem_cons, not_or] at h
    rw [foldReturns_cons (Ne.symm h.1), ih h.2]

end Fold

/-- A code unit of a character up to the surrogates is the character itself. -/
theorem mem_codeUnits {n m : Nat} (hm : m < 0xD800) : m ∈ codeUnits n ↔ m = n := by
  unfold codeUnits
  split
  · exact List.mem_singleton
  · simp only [List.mem_cons, List.not_mem_nil, or_false]
    omega

theorem return_mem_valueOf {s : List Char} : '\r'.toNat ∈ valueOf s ↔ '\r' ∈ s := by
  have hchar : ∀ c : Char, '\r'.toNat = c.toNat ↔ '\r' = c := fun c =>
    ⟨Char.toNat_inj.mp, congrArg Char.toNat⟩
  simp only [valueOf, List.mem_flatMap, mem_codeUnits (by decide : '\r'.toNat < 0xD800), hchar,
    exists_eq_right']

/-- **Folding keeps the value of a text only if no carriage return is in it.** -/
theorem valueOf_foldReturns_eq_iff {s : List Char} :
    valueOf (foldReturns s) = valueOf s ↔ '\r' ∉ s := by
  constructor
  · intro h hs
    rw [← return_mem_valueOf, ← h, return_mem_valueOf] at hs
    exact return_notMem_foldReturns s hs
  · exact fun h => congrArg valueOf (foldReturns_of_notMem h)

section Read

variable {c : Char} {s rest : List Char}

theorem readNext_template (hb : c ≠ '\\') (hr : c ≠ '\r')
    (hd : c = '$' → s.head? ≠ some '\x7b') :
    Quotation.template.readNext (c :: s) = some (codeUnits c.toNat, s) := by
  rw [Quotation.readNext]
  · rw [Quotation.readSource]
    · exact hr
    · rintro t rfl rfl
      exact hd rfl rfl
  · exact hb

/-- A character other than a mark of the template denotes itself. -/
theorem readLiteral_template (ht : c ≠ '\x60') (hb : c ≠ '\\') (hr : c ≠ '\r')
    (hd : c = '$' → s.head? ≠ some '\x7b') :
    Quotation.template.readLiteral (c :: s) =
      (Quotation.template.readLiteral s).map (Prod.map (codeUnits c.toNat ++ ·) id) :=
  Quotation.readLiteral_next ht (readNext_template hb hr hd)

theorem readLiteral_lineFeed (s : List Char) :
    Quotation.template.readLiteral ('\n' :: s) =
      (Quotation.template.readLiteral s).map (Prod.map (codeUnits '\n'.toNat ++ ·) id) :=
  readLiteral_template (by decide) (by decide) (by decide) nofun

/-- A carriage return denotes a line feed, together with a line feed after it. -/
theorem readLiteral_return (s : List Char) :
    Quotation.template.readLiteral ('\r' :: s) =
      (Quotation.template.readLiteral (dropLineFeed s)).map
        (Prod.map (codeUnits '\n'.toNat ++ ·) id) :=
  Quotation.readLiteral_next (by decide) rfl

theorem readLiteral_return_of_lineFeed (h : s.head? = some '\n') :
    Quotation.template.readLiteral ('\r' :: s) = Quotation.template.readLiteral s := by
  obtain ⟨t, rfl⟩ := List.head?_eq_some_iff.mp h
  rw [readLiteral_return, readLiteral_lineFeed, dropLineFeed]

theorem readLiteral_return_of_ne (h : s.head? ≠ some '\n') :
    Quotation.template.readLiteral ('\r' :: s) =
      (Quotation.template.readLiteral s).map (Prod.map (codeUnits '\n'.toNat ++ ·) id) := by
  rw [readLiteral_return, dropLineFeed]
  rintro t rfl
  exact h rfl

/-- A line feed comes first in written text just when it comes first in the text. -/
theorem lineFeed_head?_escapeTemplate (h : EndsTemplateText rest) :
    (escapeTemplate s ++ rest).head? = some '\n' ↔ s.head? = some '\n' := by
  constructor
  · exact fun hw => Decidable.byContradiction fun hs =>
      head?_escapeTemplate_ne (by decide) hs h hw
  · intro hs
    obtain ⟨t, rfl⟩ := List.head?_eq_some_iff.mp hs
    rw [escapeTemplate]
    · rfl
    all_goals exact nofun

/-- **A template denotes the text it was written for** with its ends of lines folded. -/
theorem readLiteral_escapeTemplate (s rest : List Char) :
    Quotation.template.readLiteral (escapeTemplate s ++ '\x60' :: rest) =
      some (valueOf (foldReturns s), rest) := by
  have hends : EndsTemplateText ('\x60' :: rest) := .close rest
  fun_induction escapeTemplate s with
  | case1 => exact Quotation.readLiteral_mark rest
  | case2 s ih =>
    -- the escape denotes the dollar sign, and the brace after it denotes itself
    rw [foldReturns_cons (by decide), foldReturns_cons (by decide)]
    rw [List.cons_append, List.cons_append, List.cons_append,
      Quotation.readLiteral_next (by decide) rfl,
      readLiteral_template (c := '\x7b') (by decide) (by decide) (by decide)
        (absurd · (by decide)), ih]
    rfl
  | case3 s ih =>
    rw [foldReturns_cons (by decide), List.cons_append, List.cons_append,
      Quotation.readLiteral_next (by decide) rfl, ih]
    rfl
  | case4 s ih =>
    rw [foldReturns_cons (by decide), List.cons_append, List.cons_append,
      Quotation.readLiteral_next (by decide) rfl, ih]
    rfl
  | case5 c s hd hb ht ih =>
    rw [List.cons_append]
    by_cases hr : c = '\r'
    · subst hr
      by_cases hs : s.head? = some '\n'
      · rw [readLiteral_return_of_lineFeed ((lineFeed_head?_escapeTemplate hends).mpr hs), ih,
          foldReturns_of_lineFeed hs]
      · rw [readLiteral_return_of_ne (mt (lineFeed_head?_escapeTemplate hends).mp hs), ih,
          foldReturns_return hs]
        rfl
    · have hhead : c = '$' → (escapeTemplate s ++ '\x60' :: rest).head? ≠ some '\x7b' := by
        rintro rfl
        refine head?_escapeTemplate (fun hs => ?_) hends
        obtain ⟨t, rfl⟩ := List.head?_eq_some_iff.mp hs
        exact hd t rfl rfl
      rw [readLiteral_template ht hb hr hhead, ih, foldReturns_cons hr]
      rfl

end Read

/-! ## The two literals of a text -/

theorem literalValue?_eq {q : Quotation} {text : String} {s : List Char} {units : List Nat}
    (htext : text.toList = q.mark :: s) (h : q.readLiteral s = some (units, [])) :
    q.literalValue? text = some units := by
  rw [Quotation.literalValue?, htext, List.head?_cons, if_pos rfl, List.tail_cons, h]
  rfl

theorem literalValue?_text (s : String) (level : Nat) :
    Quotation.string.literalValue? ((Expr.text s).printAt level) = some (valueOf s.toList) := by
  refine literalValue?_eq ?_ (readLiteral_escapeQuoted s.toList [])
  simp [Expr.text, Expr.printAt, printLiteral, quoted, Quotation.mark]

theorem literalValue?_template (s : String) (level : Nat) :
    Quotation.template.literalValue? ((Expr.template ⟨s, []⟩).printAt level) =
      some (valueOf (foldReturns s.toList)) := by
  refine literalValue?_eq ?_ (readLiteral_escapeTemplate s.toList [])
  simp [Expr.printAt, Expr.printTemplate, Expr.printSpans, templateText, Quotation.mark]

/-- **The two literals of a text.** A quoted string denotes its text, whatever characters are in
it. A template without substitutions denotes the text with a line feed for every carriage return,
together with a line feed after it; so it denotes the text just when no carriage return is in it,
and the two literals denote the same just then. -/
theorem literal_values_agree_iff (s : String) (level : Nat) :
    Quotation.string.literalValue? ((Expr.text s).printAt level) = some (valueOf s.toList) ∧
      Quotation.template.literalValue? ((Expr.template ⟨s, []⟩).printAt level) =
        some (valueOf (foldReturns s.toList)) ∧
      (Quotation.template.literalValue? ((Expr.template ⟨s, []⟩).printAt level) =
        some (valueOf s.toList) ↔ '\r' ∉ s.toList) ∧
      (Quotation.template.literalValue? ((Expr.template ⟨s, []⟩).printAt level) =
        Quotation.string.literalValue? ((Expr.text s).printAt level) ↔ '\r' ∉ s.toList) := by
  have hagree : some (valueOf (foldReturns s.toList)) = some (valueOf s.toList) ↔
      '\r' ∉ s.toList := Option.some_inj.trans valueOf_foldReturns_eq_iff
  rw [literalValue?_text, literalValue?_template]
  exact ⟨rfl, rfl, hagree, hagree⟩

/-- A carriage return between quotes is kept, and one in a template becomes a line feed. -/
theorem carriageReturn_lost_in_template :
    Quotation.string.literalValue? ((Expr.text "a\rb").printAt 0) = some (valueOf "a\rb".toList) ∧
      Quotation.template.literalValue? ((Expr.template ⟨"a\rb", []⟩).printAt 0) =
        some (valueOf "a\nb".toList) ∧
      Quotation.template.literalValue? ((Expr.template ⟨"a\rb", []⟩).printAt 0) ≠
        some (valueOf "a\rb".toList) := by
  rw [literalValue?_text, literalValue?_template]
  exact ⟨rfl, rfl, by decide⟩

end TypedClient.TypeScript
