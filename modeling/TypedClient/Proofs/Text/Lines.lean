import TypedClient.Proofs.Text.Quoted
import TypedClient.Text.Split

/-!
# Laws of lines with their ends

A text is cut into lines that keep their ends. The lines make up the text again, all of them but
the last one are ended, and lines that are ended are the lines of the text they make up.

## Main definitions

* `Text.IsFullLine`: a line with one end
* `Text.Lines`: full lines, and at the end perhaps one that is not ended
* `Text.ended`: a line with a line feed added if it is not ended

## Main results

* `Text.flatten_fullLines`: the lines of a text make it up again
* `Text.lines_fullLines`: which lines they are
* `Text.fullLines_flatten`: full lines are the lines of the text they make up
-/

namespace TypedClient.Text

/-- The ends a line may have. -/
inductive IsLineEnd : List Char → Prop
  | lineFeed : IsLineEnd ['\n']
  | carriageReturn : IsLineEnd ['\r']
  | both : IsLineEnd ['\r', '\n']

/-- A line with its end, and no other end of a line in it. -/
def IsFullLine (line : List Char) : Prop :=
  ∃ inner ending, line = inner ++ ending ∧ (∀ c ∈ inner, isLineBreak c = false) ∧
    IsLineEnd ending

/-- Full lines, and at the end perhaps a line that is not ended. -/
inductive Lines : List (List Char) → Prop
  | nil : Lines []
  | last {line : List Char} (hne : line ≠ []) (h : ∀ c ∈ line, isLineBreak c = false) : Lines [line]
  | cons {line : List Char} {ls : List (List Char)} (h : IsFullLine line) (hls : Lines ls) :
      Lines (line :: ls)

section Lines

variable {c : Char} {s line rest : List Char} {ls : List (List Char)}

/-! ## The lines of a text -/

theorem fullLines_lineFeed (s : List Char) : fullLines ('\n' :: s) = ['\n'] :: fullLines s := by
  rw [fullLines]

theorem fullLines_both (s : List Char) :
    fullLines ('\r' :: '\n' :: s) = ['\r', '\n'] :: fullLines s := by
  rw [fullLines]

theorem fullLines_return (h : s.head? ≠ some '\n') :
    fullLines ('\r' :: s) = ['\r'] :: fullLines s := by
  rw [fullLines]
  rintro t rfl
  exact h rfl

theorem fullLines_cons (h : isLineBreak c = false) :
    fullLines (c :: s) = consHead c (fullLines s) := by
  rw [fullLines]
  · rintro rfl
    cases h
  · rintro t rfl
    cases h
  · rintro rfl
    cases h

theorem flatten_consHead (c : Char) (ls : List (List Char)) :
    (consHead c ls).flatten = c :: ls.flatten := by
  cases ls <;> simp

/-- **The lines of a text make it up again.** -/
theorem flatten_fullLines (s : List Char) : (fullLines s).flatten = s := by
  fun_induction fullLines s with
  | case1 => rfl
  | case2 s ih => rw [List.flatten_cons, ih]; rfl
  | case3 s ih => rw [List.flatten_cons, ih]; rfl
  | case4 s _ ih => rw [List.flatten_cons, ih]; rfl
  | case5 c s _ _ _ ih => rw [flatten_consHead, ih]

theorem IsFullLine.cons (h : IsFullLine line) (hc : isLineBreak c = false) :
    IsFullLine (c :: line) := by
  obtain ⟨inner, ending, rfl, hinner, hending⟩ := h
  exact ⟨c :: inner, ending, rfl, List.forall_mem_cons.mpr ⟨hc, hinner⟩, hending⟩

theorem IsLineEnd.isFullLine (h : IsLineEnd line) : IsFullLine line :=
  ⟨[], line, rfl, nofun, h⟩

theorem Lines.consHead (h : Lines ls) (hc : isLineBreak c = false) : Lines (consHead c ls) := by
  cases h with
  | nil => exact .last (List.cons_ne_nil _ _) (List.forall_mem_cons.mpr ⟨hc, nofun⟩)
  | last hne h => exact .last (List.cons_ne_nil _ _) (List.forall_mem_cons.mpr ⟨hc, h⟩)
  | cons h hls => exact .cons (h.cons hc) hls

/-- **All lines of a text are full lines,** except that the last one may lack its end. -/
theorem lines_fullLines (s : List Char) : Lines (fullLines s) := by
  fun_induction fullLines s with
  | case1 => exact .nil
  | case2 s ih => exact .cons IsLineEnd.lineFeed.isFullLine ih
  | case3 s ih => exact .cons IsLineEnd.both.isFullLine ih
  | case4 s _ ih => exact .cons IsLineEnd.carriageReturn.isFullLine ih
  | case5 c s hn _ hr ih => exact ih.consHead (isLineBreak_eq_false hn hr)

/-! ## Full lines -/

theorem IsFullLine.ne_nil (h : IsFullLine line) : line ≠ [] := by
  obtain ⟨inner, ending, rfl, -, hending⟩ := h
  cases hending <;> simp

/-- A full line is the first line of every text that begins with it. The text after it must not
begin with a line feed, which could belong to the end of the line. -/
theorem fullLines_append (h : IsFullLine line) (hrest : rest.head? ≠ some '\n') :
    fullLines (line ++ rest) = line :: fullLines rest := by
  obtain ⟨inner, ending, rfl, hinner, hending⟩ := h
  induction inner with
  | nil =>
    cases hending with
    | lineFeed => exact fullLines_lineFeed rest
    | carriageReturn => exact fullLines_return hrest
    | both => exact fullLines_both rest
  | cons c inner ih =>
    obtain ⟨hc, hinner⟩ := List.forall_mem_cons.mp hinner
    rw [List.cons_append, List.cons_append, fullLines_cons hc, ih hinner, consHead_cons]

/-- **Full lines are the lines of the text they make up,** if none of them begins with a line
feed. -/
theorem fullLines_flatten (h : ∀ l ∈ ls, IsFullLine l) (hhead : ∀ l ∈ ls, l.head? ≠ some '\n') :
    fullLines ls.flatten = ls := by
  induction ls with
  | nil => rfl
  | cons l ls ih =>
    obtain ⟨hl, hls⟩ := List.forall_mem_cons.mp h
    obtain ⟨_, hheads⟩ := List.forall_mem_cons.mp hhead
    have hrest : ls.flatten.head? ≠ some '\n' := by
      cases ls with
      | nil => exact nofun
      | cons m ls =>
        obtain ⟨d, m, rfl⟩ := List.exists_cons_of_ne_nil (hls m (List.mem_cons_self ..)).ne_nil
        exact hheads (d :: m) (List.mem_cons_self ..)
    rw [List.flatten_cons, fullLines_append hl hrest, ih hls hheads]

/-! ## Ends of lines -/

/-- Whether a line has an end. -/
def hasEnd (line : List Char) : Bool :=
  line.getLast?.any isLineBreak

/-- A line with its end. A line without one gets a line feed. -/
def ended (line : List Char) : List Char :=
  if hasEnd line then line else line ++ ['\n']

theorem IsFullLine.hasEnd (h : IsFullLine line) : hasEnd line = true := by
  obtain ⟨inner, ending, rfl, -, hending⟩ := h
  cases hending <;> simp [Text.hasEnd, isLineBreak]

theorem IsFullLine.ended_eq (h : IsFullLine line) : ended line = line :=
  if_pos h.hasEnd

theorem hasEnd_eq_false (h : ∀ c ∈ line, isLineBreak c = false) : hasEnd line = false := by
  rw [hasEnd]
  cases hlast : line.getLast? with
  | none => rfl
  | some c => exact h c (List.mem_of_getLast? hlast)

theorem Lines.isFullLine_ended (h : Lines ls) : ∀ l ∈ ls, IsFullLine (ended l) := by
  induction h with
  | nil => exact nofun
  | @last line hne h =>
    intro l hl
    obtain rfl := List.mem_singleton.mp hl
    rw [ended, hasEnd_eq_false h]
    exact ⟨l, ['\n'], rfl, h, .lineFeed⟩
  | cons h _ ih =>
    refine List.forall_mem_cons.mpr ⟨?_, ih⟩
    rw [h.ended_eq]
    exact h

/-- Every line but the last one has its end. -/
theorem Lines.ended_eq_of_mem_dropLast (h : Lines ls) : ∀ l ∈ ls.dropLast, ended l = l := by
  induction h with
  | nil => exact nofun
  | last _ _ => exact nofun
  | @cons line ls h hls ih =>
    cases ls with
    | nil => exact nofun
    | cons m ls => exact List.forall_mem_cons.mpr ⟨h.ended_eq, ih⟩

end Lines

end TypedClient.Text
