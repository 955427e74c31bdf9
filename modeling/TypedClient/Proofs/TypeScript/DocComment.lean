import Mathlib.Data.List.Forall2
import TypedClient.Proofs.Body
import TypedClient.Proofs.Text.Split
import TypedClient.TypeScript.Printer.Module

/-!
# Comments before methods

The comment before a method is a block of lines between an opening and a closing mark. Whatever its
text is, the closing mark stands only at the end of the block: it is parted inside a line, and no
line completes it with what the block puts before and after it.

## Main definitions

* `ShownAs`: how a line is shown in a comment
* `IsWritten`: how a line of a comment is written in the block
* `IsBlock`: the block of a comment
* `readComment`: a block comment, read up to its first closing mark
* `ClosesAtEnd`: a text that no closing mark ends early

## Main results

* `cut_escapeComment`, `closing_notInfix_escapeComment`: a shown line differs from the line only in
  its closing marks, and has none
* `closesAtEnd_endedLines`: lines without closing marks do not end a block early
* `isBlock_docComment`: a comment with something to say is a block
* `docComment_outcome`: when it has, and what it is before every method
-/

namespace TypedClient.Text

/-! ## Lines inside a comment -/

section Comment

variable {c : Char} {s inside rest : List Char}

theorem closing_prefix_cons : ['*', '/'] <+: c :: s ↔ c = '*' ∧ s.head? = some '/' := by
  cases s <;> simp [List.cons_prefix_cons, eq_comm]

theorem closing_infix_cons :
    ['*', '/'] <:+: c :: s ↔ (c = '*' ∧ s.head? = some '/') ∨ ['*', '/'] <:+: s := by
  rw [List.infix_cons_iff, closing_prefix_cons]

/-- The characters that are shown as themselves begin no closing mark. -/
theorem not_closing_of_forall (h : ∀ t, c = '*' → s = '/' :: t → False) :
    ¬ (c = '*' ∧ s.head? = some '/') := by
  rintro ⟨hc, hs⟩
  obtain ⟨t, ht⟩ := List.head?_eq_some_iff.mp hs
  exact h t hc ht

theorem head?_escapeComment (s : List Char) : (escapeComment s).head? = s.head? := by
  fun_cases escapeComment s <;> rfl

theorem escapeComment_eq_nil_iff : escapeComment s = [] ↔ s = [] := by
  rw [← List.head?_eq_none_iff, head?_escapeComment, List.head?_eq_none_iff]

/-- **A line is shown** with a backslash in every closing mark, and unchanged otherwise. -/
theorem cut_escapeComment (s : List Char) :
    ∃ parts, Cut ['*', '/'] s parts ∧ escapeComment s = ['*', '\\', '/'].intercalate parts := by
  fun_induction escapeComment s with
  | case1 => exact ⟨[[]], .whole (by simp), rfl⟩
  | case2 s ih =>
    -- the part before the mark is empty, for it is what a later step puts characters in front of
    obtain ⟨parts, hcut, hshown⟩ := ih
    have hnil : ¬ ['*', '/'] <:+: [] := by simp
    refine ⟨[] :: parts, .next hnil hcut, ?_⟩
    rw [List.intercalate_cons_of_ne_nil hcut.ne_nil, hshown]
    rfl
  | case3 c s hc ih =>
    obtain ⟨parts, hcut, hshown⟩ := ih
    refine ⟨consHead c parts, hcut.consHead (mt closing_prefix_cons.mp ?_), ?_⟩
    · exact not_closing_of_forall hc
    · rw [hshown]
      match parts, hcut.ne_nil with
      | [t], _ => rfl
      | t :: u :: ts, _ => rfl

/-- **No closing mark** is in a line that is shown. -/
theorem closing_notInfix_escapeComment (s : List Char) : ¬ ['*', '/'] <:+: escapeComment s := by
  fun_induction escapeComment s with
  | case1 => simp
  | case2 s ih => simpa [closing_infix_cons] using ih
  | case3 c s hc ih =>
    rw [closing_infix_cons, head?_escapeComment, not_or]
    exact ⟨not_closing_of_forall hc, ih⟩

theorem mem_escapeComment (h : c ∈ escapeComment s) : c ∈ s ∨ c = '\\' := by
  fun_induction escapeComment s with
  | case1 => cases h
  | case2 s ih =>
    simp only [List.mem_cons] at h ⊢
    tauto
  | case3 d s _ ih =>
    simp only [List.mem_cons] at h ⊢
    tauto

/-! ## Closing marks -/

/-- No closing mark is in a text but before its last line feed. -/
def ClosesAtEnd (s : List Char) : Prop :=
  ∀ before after, s = before ++ '*' :: '/' :: after → after = ['\n']

theorem ClosesAtEnd.cons (h : ClosesAtEnd s) (hc : ¬ (c = '*' ∧ s.head? = some '/')) :
    ClosesAtEnd (c :: s) := by
  intro before after heq
  cases before with
  | nil =>
    obtain ⟨rfl, rfl⟩ := List.cons.inj heq
    exact absurd ⟨rfl, rfl⟩ hc
  | cons d before => exact h before after (List.cons.inj heq).2

/-- A line without a closing mark does not make one with what follows it. -/
theorem ClosesAtEnd.line (h : ClosesAtEnd s) {line : List Char} (hline : ¬ ['*', '/'] <:+: line) :
    ClosesAtEnd (line ++ '\n' :: s) := by
  induction line with
  | nil => exact h.cons (by simp)
  | cons c line ih =>
    rw [closing_infix_cons, not_or] at hline
    refine (ih hline.2).cons ?_
    -- a star at the end of the line is followed by the line feed
    cases line with
    | nil => simp
    | cons d line => exact hline.1

theorem ClosesAtEnd.blanks (h : ClosesAtEnd s) (n : Nat) :
    ClosesAtEnd (List.replicate n ' ' ++ s) := by
  induction n with
  | zero => exact h
  | succ n ih => exact ih.cons (by simp)

theorem closesAtEnd_closing : ClosesAtEnd ['*', '/', '\n'] := by
  intro before after heq
  match before with
  | [] => exact (List.cons.inj (List.cons.inj heq).2).2.symm
  | [_] => simp at heq
  | _ :: _ :: before =>
    have hlength := congrArg List.length heq
    simp only [List.length_cons, List.length_nil, List.length_append] at hlength
    omega

/-! ## Reading comments -/

/-- What a comment says and what comes after it, from the text after its opening mark. -/
def readToClosing : List Char → Option (List Char × List Char)
  | [] => none
  | '*' :: '/' :: s => some ([], s)
  | c :: s => (readToClosing s).map (Prod.map (c :: ·) id)

/-- What a block comment at the beginning of a text says, up to the first closing mark, and what
comes after it. -/
def readComment : List Char → Option (List Char × List Char)
  | '/' :: '*' :: s => readToClosing s
  | _ => none

theorem readToClosing_cons (h : ¬ (c = '*' ∧ s.head? = some '/')) :
    readToClosing (c :: s) = (readToClosing s).map (Prod.map (c :: ·) id) := by
  rw [readToClosing]
  rintro t rfl rfl
  exact h ⟨rfl, rfl⟩

/-- **A comment is read** up to a closing mark if none is in it. -/
theorem readToClosing_append (h : ¬ ['*', '/'] <:+: inside) (rest : List Char) :
    readToClosing (inside ++ '*' :: '/' :: rest) = some (inside, rest) := by
  induction inside with
  | nil => rw [List.nil_append, readToClosing]
  | cons c s ih =>
    rw [closing_infix_cons, not_or] at h
    -- the star of the closing mark is no slash, so a star before it begins no other mark
    have hc : ¬ (c = '*' ∧ (s ++ '*' :: '/' :: rest).head? = some '/') := by
      cases s with
      | nil => simp
      | cons d s => exact h.1
    rw [List.cons_append, readToClosing_cons hc, ih h.2]
    rfl

end Comment

end TypedClient.Text

namespace TypedClient.TypeScript

open Text

/-! ## The block -/

/-- How a line is shown in a comment: with a backslash in every closing mark. -/
def ShownAs (line shown : String) : Prop :=
  ∃ parts, Cut ['*', '/'] line.toList parts ∧
    shown.toList = ['*', '\\', '/'].intercalate parts

/-- How a line of a comment is written in the block: behind a star, and a blank if it is not
empty. -/
def IsWritten (level : Nat) (line written : String) : Prop :=
  ∃ shown, ShownAs line shown ∧
    written = indentation level ++ if line = "" then " *" else " * " ++ shown

/-- Lines with a line feed after each. -/
def endedLines (lines : List String) : String :=
  String.join (lines.map (· ++ "\n"))

/-- The line of a block that marks a deprecated method. -/
def deprecatedLine (level : Nat) (isDeprecated : Bool) : List String :=
  if isDeprecated then [indentation level ++ " * @deprecated"] else []

/-- The lines of a block but the last one: the opening mark, the lines that are written for a
comment, and the mark of a deprecated method. -/
def blockLines (level : Nat) (written : List String) (isDeprecated : Bool) : List String :=
  [indentation level ++ "/**"] ++ written ++ deprecatedLine level isDeprecated

/-- The block of a comment with given lines. -/
structure IsBlock (level : Nat) (lines : List String) (isDeprecated : Bool) (block : String) :
    Prop where
  /-- Each line of the comment is one line of the block, between the marks. -/
  lines : ∃ written, List.Forall₂ (IsWritten level) lines written ∧
    (∀ line ∈ written, '\n' ∉ line.toList) ∧
    block = endedLines (blockLines level written isDeprecated ++ [indentation level ++ " */"])
  /-- The closing mark stands just once, at the end of the block. -/
  closing : ∃ inside, block = inside ++ "*/\n" ∧
    ∀ before after, block = before ++ "*/" ++ after → before = inside ∧ after = "\n"
  /-- After its indentation and up to its line feed, the block is read as one comment. -/
  comment : ∃ inside, block = indentation level ++ "/*" ++ inside ++ "*/\n" ∧
    ∀ rest, readComment (("/*" ++ inside ++ "*/").toList ++ rest) = some (inside.toList, rest)

section Block

variable {level : Nat} {line : String} {lines : List String}

theorem toList_endedLines (lines : List String) :
    (endedLines lines).toList = lines.flatMap fun line => line.toList ++ ['\n'] := by
  rw [endedLines, String.toList_join, List.flatMap_map]
  simp

theorem endedLines_append (lines more : List String) :
    endedLines (lines ++ more) = endedLines lines ++ endedLines more := by
  rw [endedLines, List.map_append, String.join_append]
  rfl

@[simp]
theorem endedLines_singleton (line : String) : endedLines [line] = line ++ "\n" := by
  simp [endedLines, String.join_cons]

/-! ## Lines of a block -/

/-- The line that is written for a line of a comment. -/
def writtenLine (level : Nat) (line : String) : String :=
  indentation level ++
    if line = "" then " *" else " * " ++ String.ofList (escapeComment line.toList)

theorem isWritten_writtenLine (level : Nat) (line : String) :
    IsWritten level line (writtenLine level line) := by
  obtain ⟨parts, hcut, hshown⟩ := cut_escapeComment line.toList
  exact ⟨_, ⟨parts, hcut, by rw [String.toList_ofList, hshown]⟩, rfl⟩

theorem commentLine_escapeComment (level : Nat) (line : String) :
    commentLine level (String.ofList (escapeComment line.toList)) =
      writtenLine level line ++ "\n" := by
  have hempty : String.ofList (escapeComment line.toList) = "" ↔ line = "" := by
    rw [String.ofList_eq_empty_iff, escapeComment_eq_nil_iff, String.toList_eq_nil_iff]
  simp only [commentLine, writtenLine, String.isEmpty_iff, hempty]
  split
  · rw [String.append_assoc]
    rfl
  · simp only [String.append_assoc]

theorem mem_indentation {c : Char} (h : c ∈ (indentation level).toList) : c = ' ' := by
  rw [indentation, String.toList_ofList] at h
  exact List.eq_of_mem_replicate h

theorem lineFeed_notMem_indented {text : String} (h : '\n' ∉ text.toList) :
    '\n' ∉ (indentation level ++ text).toList := by
  rw [String.toList_append, List.mem_append, not_or]
  exact ⟨fun hblank => absurd (mem_indentation hblank) (by decide), h⟩

/-- Blanks before a text complete no closing mark. -/
theorem closing_infix_blanks {s : List Char} (n : Nat) :
    ['*', '/'] <:+: List.replicate n ' ' ++ s ↔ ['*', '/'] <:+: s := by
  induction n with
  | zero => rfl
  | succ n ih =>
    rw [List.replicate_succ, List.cons_append, closing_infix_cons, ih]
    simp

theorem closing_infix_indented {text : String} :
    ['*', '/'] <:+: (indentation level ++ text).toList ↔ ['*', '/'] <:+: text.toList := by
  rw [String.toList_append, indentation, String.toList_ofList, closing_infix_blanks]

theorem lineFeed_notMem_writtenLine (h : '\n' ∉ line.toList) :
    '\n' ∉ (writtenLine level line).toList := by
  refine lineFeed_notMem_indented ?_
  split
  · decide
  · simp only [String.toList_append, String.toList_ofList, List.mem_append, not_or]
    exact ⟨by decide, fun hshown => (mem_escapeComment hshown).elim h (by decide)⟩

theorem closing_notInfix_writtenLine (level : Nat) (line : String) :
    ¬ ['*', '/'] <:+: (writtenLine level line).toList := by
  rw [writtenLine, closing_infix_indented]
  split
  · simp [closing_infix_cons]
  · simpa [closing_infix_cons] using closing_notInfix_escapeComment line.toList

/-! ## Where a block is closed -/

/-- A text that ends with its only closing mark and a line feed has no closing mark before. -/
theorem closing_notInfix_of_closesAtEnd {before inside : String}
    (h : ClosesAtEnd (before ++ inside ++ "*/\n").toList) : ¬ ['*', '/'] <:+: inside.toList := by
  rintro ⟨u, v, huv⟩
  have htext : (before ++ inside ++ "*/\n").toList =
      (before.toList ++ u) ++ '*' :: '/' :: (v ++ ['*', '/', '\n']) := by
    rw [String.toList_append, String.toList_append, ← huv]
    simp
  have hlength := congrArg List.length (h _ _ htext)
  simp only [List.length_append, List.length_cons, List.length_nil] at hlength
  omega

/-- Lines without closing marks, and after them a line with one at its end. -/
theorem closesAtEnd_endedLines (h : ∀ line ∈ lines, ¬ ['*', '/'] <:+: line.toList) (level : Nat) :
    ClosesAtEnd (endedLines (lines ++ [indentation level ++ " */"])).toList := by
  rw [toList_endedLines]
  induction lines with
  | nil =>
    simp only [List.nil_append, List.flatMap_singleton, indentation, String.toList_append,
      String.toList_ofList, List.append_assoc]
    exact (closesAtEnd_closing.cons (by decide)).blanks (2 * level)
  | cons line lines ih =>
    obtain ⟨hline, hlines⟩ := List.forall_mem_cons.mp h
    rw [List.cons_append, List.flatMap_cons, List.append_assoc]
    exact (ih hlines).line hline

theorem closing_notInfix_blockLines {written : List String}
    (h : ∀ line ∈ written, ¬ ['*', '/'] <:+: line.toList) (isDeprecated : Bool) :
    ∀ line ∈ blockLines level written isDeprecated, ¬ ['*', '/'] <:+: line.toList := by
  have hopening : ¬ ['*', '/'] <:+: (indentation level ++ "/**").toList := by
    rw [closing_infix_indented]
    simp [closing_infix_cons]
  have hdeprecated : ¬ ['*', '/'] <:+: (indentation level ++ " * @deprecated").toList := by
    rw [closing_infix_indented]
    simp [closing_infix_cons]
  refine List.forall_mem_append.mpr ⟨List.forall_mem_cons.mpr ⟨hopening, h⟩, ?_⟩
  cases isDeprecated with
  | false => exact nofun
  | true => exact List.forall_mem_singleton.mpr hdeprecated

theorem endedLines_closing (lines : List String) (level : Nat) :
    endedLines (lines ++ [indentation level ++ " */"]) =
      endedLines lines ++ indentation level ++ " " ++ "*/\n" := by
  rw [endedLines_append, endedLines_singleton]
  simp only [String.append_assoc]
  rfl

theorem endedLines_blockLines (level : Nat) (written : List String) (isDeprecated : Bool) :
    endedLines (blockLines level written isDeprecated) = indentation level ++ "/*" ++ "*\n"
      ++ endedLines (written ++ deprecatedLine level isDeprecated) := by
  rw [blockLines, List.append_assoc, endedLines_append, endedLines_singleton]
  simp only [String.append_assoc]
  rfl

/-- **Lines without closing marks make up a block.** -/
theorem isBlock_endedLines {written : List String}
    (hwritten : List.Forall₂ (IsWritten level) lines written)
    (hfeed : ∀ line ∈ written, '\n' ∉ line.toList)
    (hclosing : ∀ line ∈ written, ¬ ['*', '/'] <:+: line.toList) (isDeprecated : Bool) :
    IsBlock level lines isDeprecated
      (endedLines (blockLines level written isDeprecated ++ [indentation level ++ " */"])) := by
  have hends : ClosesAtEnd (endedLines
      (blockLines level written isDeprecated ++ [indentation level ++ " */"])).toList :=
    closesAtEnd_endedLines (closing_notInfix_blockLines hclosing isDeprecated) level
  refine ⟨⟨written, hwritten, hfeed, rfl⟩, ?closing, ?comment⟩
  case closing =>
    refine ⟨_, endedLines_closing _ level, fun before after hblock => ?_⟩
    -- only a line feed comes after a closing mark, so it is the one at the end
    obtain rfl : after = "\n" := by
      refine String.toList_inj.mp (hends before.toList after.toList ?_)
      simp [hblock]
    have hmark : before ++ "*/" ++ "\n" = before ++ "*/\n" := String.append_assoc
    rw [endedLines_closing, hmark] at hblock
    exact ⟨((String.append_left_inj _).mp hblock).symm, rfl⟩
  case comment =>
    have hblock : endedLines (blockLines level written isDeprecated
        ++ [indentation level ++ " */"]) = indentation level ++ "/*" ++ ("*\n"
          ++ endedLines (written ++ deprecatedLine level isDeprecated) ++ indentation level ++ " ")
          ++ "*/\n" := by
      rw [endedLines_closing, endedLines_blockLines]
      simp only [String.append_assoc]
    rw [hblock] at hends
    refine ⟨_, hblock, fun rest => ?_⟩
    have hread := readToClosing_append (closing_notInfix_of_closesAtEnd hends) rest
    simpa [readComment] using hread

/-! ## The comment before a method -/

section DocComment

variable {comment : Option String} {isDeprecated : Bool}

theorem linesOf_textLines (text : String) :
    LinesOf text.toList ((textLines text).map String.toList) := by
  rw [linesOf_iff, textLines, List.map_map]
  simp

theorem textLines_eq_nil_iff {text : String} : textLines text = [] ↔ text = "" := by
  rw [textLines, List.map_eq_nil_iff, lines_eq_nil_iff, String.toList_eq_nil_iff]

theorem commentLines_eq_nil_iff : commentLines comment isDeprecated = [] ↔
    (comment.map textLines).getD [] = [] ∧ isDeprecated = false := by
  rw [commentLines, List.append_eq_nil_iff, List.map_eq_nil_iff]
  cases isDeprecated <;> simp

theorem join_commentLine :
    String.join ((commentLines comment isDeprecated).map (commentLine level)) =
      endedLines (((comment.map textLines).getD []).map (writtenLine level)
        ++ deprecatedLine level isDeprecated) := by
  have hline : (commentLine level ∘ fun line => String.ofList (escapeComment line.toList)) =
      (· ++ "\n") ∘ writtenLine level := by
    funext line
    simp only [Function.comp_apply, commentLine_escapeComment]
  have hdeprecated :
      String.join ((if isDeprecated then ["@deprecated"] else []).map (commentLine level)) =
        endedLines (deprecatedLine level isDeprecated) := by
    cases isDeprecated with
    | false => rfl
    | true =>
      have hmark : indentation level ++ " * " ++ "@deprecated" =
        indentation level ++ " * @deprecated" := String.append_assoc
      simp [commentLine, deprecatedLine, hmark]
  rw [commentLines, List.map_append, String.join_append, hdeprecated, endedLines_append,
    List.map_map, hline, ← List.map_map]
  rfl

theorem docComment_eq_endedLines (h : commentLines comment isDeprecated ≠ []) (level : Nat) :
    docComment comment isDeprecated level = endedLines (blockLines level
      (((comment.map textLines).getD []).map (writtenLine level)) isDeprecated
        ++ [indentation level ++ " */"]) := by
  have hsome : (commentLines comment isDeprecated).isEmpty = false :=
    List.isEmpty_eq_false_iff.mpr h
  rw [endedLines_closing, endedLines_blockLines, docComment, hsome, join_commentLine]
  simp only [String.append_assoc]
  rfl

/-- **A comment with something to say is a block.** -/
theorem isBlock_docComment (h : commentLines comment isDeprecated ≠ []) (level : Nat) :
    IsBlock level ((comment.map textLines).getD []) isDeprecated
      (docComment comment isDeprecated level) := by
  have hfeed : ∀ line ∈ (comment.map textLines).getD [], '\n' ∉ line.toList := by
    cases comment with
    | none => exact nofun
    | some text =>
      intro line hline
      exact (linesOf_textLines text).lineFeed_notMem _ (List.mem_map_of_mem hline)
  rw [docComment_eq_endedLines h]
  refine isBlock_endedLines ?_ ?_ ?_ isDeprecated
  · exact List.forall₂_map_right_iff.mpr
      (List.forall₂_same.mpr fun line _ => isWritten_writtenLine level line)
  · exact List.forall_mem_map.mpr fun line hline => lineFeed_notMem_writtenLine (hfeed line hline)
  · exact List.forall_mem_map.mpr fun line _ => closing_notInfix_writtenLine level line

theorem docComment_eq_empty_iff : docComment comment isDeprecated level = "" ↔
    (comment.map textLines).getD [] = [] ∧ isDeprecated = false := by
  rw [← commentLines_eq_nil_iff]
  refine ⟨fun hempty => ?_, fun hnil => ?_⟩
  · by_contra hne
    obtain ⟨inside, hblock, _⟩ := (isBlock_docComment hne level).closing
    rw [hempty] at hblock
    exact absurd hblock (by simp)
  · rw [docComment, hnil]
    rfl

theorem lines_eq_nil_iff_forall : (comment.map textLines).getD [] = [] ↔
    ∀ text ∈ comment, text = "" := by
  cases comment with
  | none => simp
  | some text => simpa using textLines_eq_nil_iff

end DocComment

/-- The comment before a method is all that its text and its mark of a deprecated method change. -/
theorem printAt_eq_docComment_append (m : Method) (level : Nat) :
    m.printAt level = docComment m.comment m.isDeprecated level ++
      ({ m with comment := none, isDeprecated := false } : Method).printAt level := by
  have hnone : docComment none false level = "" := rfl
  simp only [Method.printAt, hnone, String.append_assoc, String.empty_append]

theorem intercalate_ne_empty {separator : String} {texts : List String} (hne : texts ≠ [])
    (h : ∀ text ∈ texts, text ≠ "") : separator.intercalate texts ≠ "" := by
  obtain ⟨text, texts, rfl⟩ := List.exists_cons_of_ne_nil hne
  have htext : text ≠ "" := h text (List.mem_cons_self ..)
  cases texts with
  | nil => simpa using htext
  | cons next texts => simp [String.intercalate_cons_cons, htext]

/-- An extended comment has the identifier of the operation and its address, so it is not empty. -/
theorem methodComment_extended {op : Operation} {options : MethodOptions}
    (h : options.extendedComment = true) :
    ∃ text ∈ op.methodComment options, text ≠ "" := by
  simp only [Operation.methodComment, h, if_true]
  refine ⟨_, rfl, intercalate_ne_empty ?_ ?_⟩
  · refine List.ne_nil_of_mem (a := "operationId: " ++ op.id) (List.mem_filter.mpr ⟨?_, ?_⟩)
    · simp
    · simp
  · intro text htext
    simpa using (List.mem_filter.mp htext).2

/-- **The comment before a method.** There is none exactly if its text has no lines and the method
is not deprecated. Otherwise it is a block of the lines of the text, and the closing mark stands
only at its end, whatever the text is. Of an operation it is the comment for the choices of the
caller, and an extended one is never missing. -/
theorem docComment_outcome (m : Method) (level : Nat) :
    let block := docComment m.comment m.isDeprecated level
    let lines := (m.comment.map textLines).getD []
    m.printAt level =
      block ++ ({ m with comment := none, isDeprecated := false } : Method).printAt level ∧
    (∀ text ∈ m.comment, LinesOf text.toList (lines.map String.toList)) ∧
    (lines = [] ↔ ∀ text ∈ m.comment, text = "") ∧
    (block = "" ↔ lines = [] ∧ m.isDeprecated = false) ∧
    (block ≠ "" → IsBlock level lines m.isDeprecated block) ∧
    ∀ (op : Operation) (options : MethodOptions), op.toMethod options = .ok m →
      m.comment = op.methodComment options ∧ m.isDeprecated = op.isDeprecated ∧
      (options.extendedComment = true → block ≠ "") := by
  refine ⟨printAt_eq_docComment_append m level, ?_, lines_eq_nil_iff_forall,
    docComment_eq_empty_iff, ?_, ?_⟩
  · intro text htext
    rw [Option.mem_def.mp htext]
    exact linesOf_textLines text
  · exact fun hne => isBlock_docComment
      (fun hnil => hne (docComment_eq_empty_iff.mpr (commentLines_eq_nil_iff.mp hnil))) level
  · intro op options hm
    obtain ⟨stmts, _, rfl⟩ := toMethod_eq_ok.mp hm
    refine ⟨rfl, rfl, fun hextended hempty => ?_⟩
    obtain ⟨text, htext, hne⟩ := methodComment_extended hextended
    exact hne (lines_eq_nil_iff_forall.mp (docComment_eq_empty_iff.mp hempty).1 text htext)

/-- A closing mark in an address is parted. -/
example : docComment (some "Request URI: /files/*/*/") true 1 =
    "  /**\n   * Request URI: /files/*\\/*\\/\n   * @deprecated\n   */\n" := by
  decide

end Block

end TypedClient.TypeScript
