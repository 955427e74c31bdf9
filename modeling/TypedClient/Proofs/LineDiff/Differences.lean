import TypedClient.Proofs.LineDiff.Hunks
import TypedClient.Proofs.Text.Lines

/-!
# Differences of texts

The differences of two texts are a text themselves. Read line by line, it says how the one text
becomes the other: a line has a sign in front that says what becomes of it, and a separator stands
where common lines are left out.

What is proved does not depend on how the script of the two texts is found. It holds of every
script that has the two texts for its lists and no empty blocks.

## Main definitions

* `ShownLine.text`: a line with its sign in front
* `IsDiff`: lines that say how one list of lines becomes another

## Main results

* `fullLines_separatedLines`: the lines of the differences are the signed lines of the hunks, with
  separators between the hunks
* `isDiff_fullLines`: the hunks of any script of two lists say how the one becomes the other
* `unified?_outcome`: when there are differences, and what they say
-/

namespace TypedClient.LineDiff

open Text

/-! ## The text of hunks -/

/-- The sign in front of a line. -/
def ShownLine.sign (x : ShownLine) : Char :=
  match x.change with
  | none => ' '
  | some .deleted => '-'
  | some .inserted => '+'

/-- A line behind its sign. A line without an end gets a line feed. -/
def ShownLine.text (x : ShownLine) : List Char :=
  x.sign :: ended x.line

/-- The lines of the hunks of a script. -/
def groupsOf (blocks : List (Block Line)) : List (List ShownLine) :=
  (hunks (runsOf blocks)).map shownLines

/-- The lines of several hunks, with a separator between each two hunks. -/
def separatedLines (groups : List (List ShownLine)) : List Line :=
  [separator].intercalate (groups.map (·.map ShownLine.text))

section Text

variable {groups : List (List ShownLine)}

theorem Run.text_eq (r : Run) : r.text = (r.shown.map ShownLine.text).flatten := by
  have hsigned : ∀ (change : Option Side) (lines : List Line),
      lines.flatMap (signed (ShownLine.sign ⟨change, []⟩)) =
        ((lines.map (⟨change, ·⟩)).map ShownLine.text).flatten := by
    intro change lines
    rw [List.map_map]
    rfl
  cases r with
  | common lines => exact hsigned none lines
  | change deleted inserted =>
    rw [Run.shown, List.map_append, List.flatten_append, ← hsigned, ← hsigned]
    rfl

theorem text_shownLines (hunk : List Run) :
    hunk.flatMap Run.text = ((shownLines hunk).map ShownLine.text).flatten := by
  induction hunk with
  | nil => rfl
  | cons r rs ih =>
    rw [List.flatMap_cons, ih, Run.text_eq, shownLines_cons, List.map_append, List.flatten_append]

theorem flatten_intercalate {α : Type} (separator : List α) (groups : List (List (List α))) :
    ([separator].intercalate groups).flatten = separator.intercalate (groups.map List.flatten) := by
  match groups with
  | [] => rfl
  | [g] => simp [List.intercalate]
  | g :: h :: groups =>
    have ih := flatten_intercalate separator (h :: groups)
    simp only [List.intercalate, List.map_cons, List.intersperse_cons_cons, List.flatten_cons,
      List.flatten_append] at ih ⊢
    rw [ih]
    simp

theorem hunksText_eq (current new : List Line) :
    hunksText current new =
      (separatedLines (groupsOf (slide (script current new)))).flatten := by
  rw [separatedLines, flatten_intercalate, hunksText, groupsOf]
  simp only [List.map_map, Function.comp_def, text_shownLines]

theorem forall_mem_intercalate {α : Type} {p : α → Prop} {x : α} {groups : List (List α)}
    (hx : p x) (h : ∀ g ∈ groups, ∀ a ∈ g, p a) : ∀ a ∈ [x].intercalate groups, p a := by
  match groups with
  | [] => exact nofun
  | [g] => simpa [List.intercalate] using h
  | g :: k :: groups =>
    obtain ⟨hg, hgroups⟩ := List.forall_mem_cons.mp h
    have ih := forall_mem_intercalate hx hgroups
    rw [List.intercalate, List.intersperse_cons_cons, List.flatten_cons, List.flatten_cons]
    exact List.forall_mem_append.mpr ⟨hg, List.forall_mem_cons.mpr ⟨hx, ih⟩⟩

theorem isFullLine_separator : IsFullLine separator :=
  ⟨['.', '.', '.'], ['\n'], rfl, by simp [isLineBreak], .lineFeed⟩

theorem isLineBreak_sign (x : ShownLine) : isLineBreak x.sign = false := by
  unfold ShownLine.sign
  split <;> rfl

/-- **The lines of the differences** are the signed lines of the hunks, with separators between
the hunks. -/
theorem fullLines_separatedLines (h : ∀ g ∈ groups, ∀ x ∈ g, IsFullLine (ended x.line)) :
    fullLines (separatedLines groups).flatten = separatedLines groups := by
  have hlines : ∀ l ∈ separatedLines groups, IsFullLine l ∧ l.head? ≠ some '\n' := by
    refine forall_mem_intercalate ⟨isFullLine_separator, by decide⟩ fun g hg l hl => ?_
    obtain ⟨xs, hxs, rfl⟩ := List.mem_map.mp hg
    obtain ⟨x, hx, rfl⟩ := List.mem_map.mp hl
    refine ⟨(h xs hxs x hx).cons (isLineBreak_sign x), fun he => ?_⟩
    have hsign := isLineBreak_sign x
    rw [Option.some.inj he] at hsign
    cases hsign
  exact fullLines_flatten (fun l hl => (hlines l hl).1) fun l hl => (hlines l hl).2

end Text

/-! ## What the differences say -/

/-- Lines of hunks with separators between them that say how one list of lines becomes another:
the same lines, put in front of the first hunk and behind every hunk, make up the one list with
the lines that have a blank or a minus sign, and the other list with those that have a blank or a
plus sign. Every hunk changes something and shows few unchanged lines in a row. -/
def IsDiff (lines current new : List Line) : Prop :=
  ∃ (first : List Line) (shown : List (List ShownLine × List Line)),
    shown ≠ [] ∧ lines = separatedLines (shown.map Prod.fst) ∧
      restored .deleted first shown = current ∧ restored .inserted first shown = new ∧
      ∀ g ∈ shown, IsGroup g.1

section Script

variable {blocks : List (Block Line)}

theorem ShownLine.exists_isOn (x : ShownLine) : ∃ side, x.isOn side := by
  obtain ⟨change, line⟩ := x
  cases change with
  | none => exact ⟨.deleted, rfl⟩
  | some side => exact ⟨side, by cases side <;> rfl⟩

theorem mem_restored {side : Side} {first : List Line} {shown : List (List ShownLine × List Line)}
    {g : List ShownLine × List Line} {x : ShownLine} (hg : g ∈ shown) (hx : x ∈ g.1)
    (hside : x.isOn side) : x.line ∈ restored side first shown := by
  refine List.mem_append_right _ (List.mem_flatMap.mpr ⟨g, hg, List.mem_append_left _ ?_⟩)
  exact List.mem_map_of_mem (List.mem_filter.mpr ⟨hx, hside⟩)

/-- Every line that is shown is a line of one of the two lists. -/
theorem exists_mem_listOf {g : List ShownLine} {x : ShownLine} (hg : g ∈ groupsOf blocks)
    (hx : x ∈ g) : ∃ side, x.line ∈ listOf side blocks := by
  obtain ⟨first, shown, hshown, hrestored⟩ := exists_restored_hunks (runsOf blocks)
  rw [groupsOf, ← hshown] at hg
  obtain ⟨h, hh, rfl⟩ := List.mem_map.mp hg
  obtain ⟨side, hside⟩ := x.exists_isOn
  refine ⟨side, ?_⟩
  rw [← runLines_runsOf, ← hrestored]
  exact mem_restored hh hx hside

/-- **The hunks of a script say how its one list becomes the other.** -/
theorem isDiff_groupsOf (h : Solid blocks)
    (hne : listOf .deleted blocks ≠ listOf .inserted blocks) :
    IsDiff (separatedLines (groupsOf blocks)) (listOf .deleted blocks)
      (listOf .inserted blocks) := by
  obtain ⟨first, shown, hshown, hrestored⟩ := exists_restored_hunks (runsOf blocks)
  refine ⟨first, shown, ?_, by rw [hshown, groupsOf], ?_, ?_, fun g hg => ?_⟩
  · rintro rfl
    exact hunks_ne_nil _ (List.map_eq_nil_iff.mp hshown.symm)
  · rw [hrestored, runLines_runsOf]
  · rw [hrestored, runLines_runsOf]
  · have hmem : g.1 ∈ (hunks (runsOf blocks)).map shownLines := hshown ▸ List.mem_map_of_mem hg
    obtain ⟨hunk, hhunk, he⟩ := List.mem_map.mp hmem
    exact he ▸ isGroup_of_mem_hunks (framed_runsOf h hne) hunk hhunk

/-- **The text of the hunks says it, too**, if the lists are the lines of texts. -/
theorem isDiff_fullLines (h : Solid blocks) (hlines : ∀ side, Lines (listOf side blocks))
    (hne : listOf .deleted blocks ≠ listOf .inserted blocks) :
    IsDiff (fullLines (separatedLines (groupsOf blocks)).flatten) (listOf .deleted blocks)
      (listOf .inserted blocks) := by
  rw [fullLines_separatedLines]
  · exact isDiff_groupsOf h hne
  · intro g hg x hx
    obtain ⟨side, hx⟩ := exists_mem_listOf hg hx
    exact (hlines side).isFullLine_ended _ hx

end Script

/-- **The differences of two different lists of lines** say how the one becomes the other. -/
theorem isDiff_hunksText {current new : List Line} (hcurrent : Lines current) (hnew : Lines new)
    (hne : current ≠ new) : IsDiff (fullLines (hunksText current new)) current new := by
  have hdeleted : listOf .deleted (slide (script current new)) = current := by
    rw [listOf_slide, deleted_script]
  have hinserted : listOf .inserted (slide (script current new)) = new := by
    rw [listOf_slide, inserted_script]
  have hlines : ∀ side, Lines (listOf side (slide (script current new))) := by
    intro side
    cases side with
    | deleted => rwa [hdeleted]
    | inserted => rwa [hinserted]
  have h := isDiff_fullLines (solid_slide (solid_script current new)) hlines
    (by rwa [hdeleted, hinserted])
  rwa [hdeleted, hinserted, ← hunksText_eq] at h

/-! ## Differences of texts -/

/-- The two lines that name the texts. -/
def header (name : String) : String :=
  "--- " ++ name ++ " (current)\n+++ " ++ name ++ " (generated)\n"

section Unified

variable {current new : String}

theorem fullLines_toList_inj :
    fullLines current.toList = fullLines new.toList ↔ current = new := by
  constructor
  · intro h
    have hflatten := congrArg List.flatten h
    rw [flatten_fullLines, flatten_fullLines] at hflatten
    exact String.toList_inj.mp hflatten
  · exact fun h => h ▸ rfl

theorem unified?_of_ne (name : String) (h : current ≠ new) :
    unified? name current new = some (header name ++
      String.ofList (hunksText (fullLines current.toList) (fullLines new.toList))) :=
  if_neg h

/-- **The differences of two texts.** Equal texts have none. Two different texts have differences,
which say behind a header how the lines of the one become those of the other. A line that is shown
gets a line feed if it has no end, which may be so for the last line of a text only. -/
theorem unified?_outcome (name current new : String) :
    (unified? name current new = none ↔ current = new) ∧
      (current ≠ new → ∃ differences, unified? name current new =
          some (header name ++ String.ofList differences) ∧
        IsDiff (fullLines differences) (fullLines current.toList) (fullLines new.toList)) ∧
      ∀ text ∈ [current, new], (fullLines text.toList).flatten = text.toList ∧
        ∀ l ∈ (fullLines text.toList).dropLast, ended l = l := by
  refine ⟨⟨fun h => ?_, fun h => if_pos h⟩, fun h => ?_, fun text _ => ?_⟩
  · exact Decidable.byContradiction fun hne => nomatch (unified?_of_ne name hne).symm.trans h
  · exact ⟨_, unified?_of_ne name h, isDiff_hunksText (lines_fullLines _) (lines_fullLines _)
      (mt fullLines_toList_inj.mp h)⟩
  · exact ⟨flatten_fullLines _, (lines_fullLines _).ended_eq_of_mem_dropLast⟩

end Unified

end TypedClient.LineDiff
