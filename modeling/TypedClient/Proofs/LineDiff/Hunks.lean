import TypedClient.Proofs.LineDiff.Runs

/-!
# Laws of hunks

Hunks show the changes of two lists of lines with a few common lines around them. What is left out
of them is common to both lists, so that either list comes back when it is put in its place: before
the first hunk, between each two hunks, and after the last one.

## Main definitions

* `ShownLine`, `Run.shown`: a line with what becomes of it, and the lines of a run
* `linesOn`, `restored`: the lines of a hunk in the list of a side, and the list that comes back
* `IsGroup`: lines with a change in them and not too many unchanged lines in a row

## Main results

* `exists_restored_hunks`: both lists come back by the same lines put between the hunks
* `isGroup_of_mem_hunks`: every hunk changes something and shows few unchanged lines
-/

namespace TypedClient.LineDiff

/-! ## Shown lines -/

/-- A line with the side it was changed on, if it was changed. -/
structure ShownLine where
  change : Option Side
  line : Line
  deriving DecidableEq, Repr

/-- Whether a line is in the list of a side. -/
def ShownLine.isOn (side : Side) (x : ShownLine) : Bool :=
  x.change == none || x.change == some side

/-- The lines of a run. Deleted lines come before the inserted ones. -/
def Run.shown : Run → List ShownLine
  | .common lines => lines.map (⟨none, ·⟩)
  | .change deleted inserted =>
    deleted.map (⟨some .deleted, ·⟩) ++ inserted.map (⟨some .inserted, ·⟩)

/-- The lines of a hunk. -/
def shownLines (hunk : List Run) : List ShownLine :=
  hunk.flatMap Run.shown

/-- The lines among shown ones that are in the list of a side. -/
def linesOn (side : Side) (xs : List ShownLine) : List Line :=
  (xs.filter (·.isOn side)).map (·.line)

/-- The list of a side that comes back when lines are put in front of the first hunk and behind
every hunk. -/
def restored (side : Side) (first : List Line) (hunks : List (List ShownLine × List Line)) :
    List Line :=
  first ++ hunks.flatMap fun h => linesOn side h.1 ++ h.2

section Restored

variable {side : Side} {runs hunk : List Run} {lines : List Line}

@[simp]
theorem shownLines_nil : shownLines [] = [] := rfl

@[simp]
theorem shownLines_cons (r : Run) (rs : List Run) :
    shownLines (r :: rs) = r.shown ++ shownLines rs := rfl

theorem linesOn_append (side : Side) (xs ys : List ShownLine) :
    linesOn side (xs ++ ys) = linesOn side xs ++ linesOn side ys := by
  simp [linesOn]

theorem linesOn_map (side : Side) (change : Option Side) (lines : List Line) :
    linesOn side (lines.map (⟨change, ·⟩)) =
      if change = none ∨ change = some side then lines else [] := by
  have hline : (ShownLine.line ∘ fun l => ⟨change, l⟩) = id := rfl
  by_cases h : change = none ∨ change = some side <;>
    simp [linesOn, List.filter_map, Function.comp_def, ShownLine.isOn, h]

theorem linesOn_shown (side : Side) (r : Run) : linesOn side r.shown = r.linesOf side := by
  cases r with
  | common lines => exact linesOn_map side none lines
  | change deleted inserted =>
    rw [Run.shown, linesOn_append, linesOn_map, linesOn_map]
    cases side <;> simp [Run.linesOf]

theorem linesOn_shownLines (side : Side) (rs : List Run) :
    linesOn side (shownLines rs) = runLines side rs := by
  induction rs with
  | nil => rfl
  | cons r rs ih => rw [shownLines_cons, linesOn_append, linesOn_shown, ih, runLines_cons]

theorem restored_cons (side : Side) (first gap : List Line) (xs : List ShownLine)
    (later : List (List ShownLine × List Line)) :
    restored side first ((xs, gap) :: later) =
      first ++ linesOn side xs ++ restored side gap later := by
  simp [restored]

/-! ## What is left out -/

theorem divide_common_cons (lines : List Line) (h : runs ≠ []) :
    divide (.common lines :: runs) =
      if 2 * context < lines.length then
        ([.common (lines.take context)],
          (.common (leading lines) :: (divide runs).1) :: (divide runs).2)
      else (.common lines :: (divide runs).1, (divide runs).2) := by
  cases runs with
  | nil => exact absurd rfl h
  | cons r runs => rfl

theorem divide_change_cons (deleted inserted : List Line) (runs : List Run) :
    divide (.change deleted inserted :: runs) =
      (.change deleted inserted :: (divide runs).1, (divide runs).2) := rfl

/-- The lines of a long run between those that are shown behind one change and before the next. -/
theorem exists_omitted (h : 2 * context < lines.length) :
    ∃ omitted, lines.take context ++ omitted ++ leading lines = lines := by
  refine ⟨(lines.drop context).take (lines.length - 2 * context), ?_⟩
  have hleading : leading lines =
      (lines.drop context).drop (lines.length - 2 * context) := by
    rw [leading, List.drop_drop]
    congr 1
    omega
  rw [List.append_assoc, hleading, List.take_append_drop, List.take_append_drop]

/-- Runs come back from what is shown with what is before them, lines put behind it, and the later
hunks with lines behind each of them. -/
theorem exists_restored_divide (runs : List Run) :
    ∃ (gap : List Line) (later : List (List ShownLine × List Line)),
      later.map Prod.fst = (divide runs).2.map shownLines ∧
        ∀ side, runLines side (divide runs).1 ++ restored side gap later = runLines side runs := by
  match runs with
  | [] => exact ⟨[], [], rfl, fun _ => rfl⟩
  | .change deleted inserted :: runs =>
    obtain ⟨gap, later, hlater, h⟩ := exists_restored_divide runs
    refine ⟨gap, later, hlater, fun side => ?_⟩
    rw [divide_change_cons, runLines_cons, runLines_cons, List.append_assoc, h]
  | [.common lines] =>
    refine ⟨lines.drop context, [], rfl, fun side => ?_⟩
    simp [divide, Run.linesOf, restored]
  | .common lines :: r :: runs =>
    obtain ⟨gap, later, hlater, h⟩ := exists_restored_divide (r :: runs)
    rw [divide_common_cons lines (List.cons_ne_nil r runs)]
    split
    · next hlong =>
      obtain ⟨omitted, homitted⟩ := exists_omitted hlong
      refine ⟨omitted,
        (shownLines (.common (leading lines) :: (divide (r :: runs)).1), gap) :: later, ?_, ?_⟩
      · rw [List.map_cons, List.map_cons, hlater]
      · intro side
        rw [restored_cons, linesOn_shownLines, runLines_cons side _ (r :: runs), ← h side]
        conv => rhs; rw [Run.linesOf, ← homitted]
        simp [Run.linesOf]
    · refine ⟨gap, later, hlater, fun side => ?_⟩
      rw [runLines_cons, runLines_cons, List.append_assoc, h]

/-- **Both lists come back** when the same lines are put in front of the first hunk and behind
every hunk. -/
theorem exists_restored_hunks (runs : List Run) :
    ∃ (first : List Line) (shown : List (List ShownLine × List Line)),
      shown.map Prod.fst = (hunks runs).map shownLines ∧
        ∀ side, restored side first shown = runLines side runs := by
  match runs with
  | .common lines :: runs =>
    obtain ⟨gap, later, hlater, h⟩ := exists_restored_divide runs
    refine ⟨lines.take (lines.length - context),
      (shownLines (.common (leading lines) :: (divide runs).1), gap) :: later, ?_, fun side => ?_⟩
    · rw [List.map_cons, hlater]
      rfl
    · rw [restored_cons, linesOn_shownLines, runLines_cons, runLines_cons, ← h side,
        Run.linesOf, Run.linesOf, leading, ← List.append_assoc, ← List.append_assoc,
        List.take_append_drop, List.append_assoc]
  | [] => exact ⟨[], [([], [])], rfl, fun _ => rfl⟩
  | .change deleted inserted :: runs =>
    obtain ⟨gap, later, hlater, h⟩ := exists_restored_divide (.change deleted inserted :: runs)
    refine ⟨[], (shownLines (divide (.change deleted inserted :: runs)).1, gap) :: later, ?_,
      fun side => ?_⟩
    · rw [List.map_cons, hlater]
      rfl
    · rw [restored_cons, linesOn_shownLines, List.nil_append, h]

end Restored

/-! ## The form of hunks -/

/-- The number of lines that are shown at either end of a hunk. -/
def isContext (n : Nat) : Prop :=
  n ≤ context

/-- The number of lines between two changes of a hunk. -/
def isBetween (n : Nat) : Prop :=
  n ≤ 2 * context

section Form

variable {runs : List Run}

theorem Changes.ne_nil {inner last : Nat → Prop} (h : Changes inner last runs) : runs ≠ [] := by
  obtain ⟨_, _, _, rfl, _⟩ := h.exists_cons
  exact List.cons_ne_nil _ _

theorem length_leading (lines : List Line) : (leading lines).length ≤ context := by
  rw [leading, List.length_drop]
  omega

/-- Changes are divided into changes with few common lines between and around them. -/
theorem Changes.divide (h : Changes unbounded unbounded runs) :
    Changes isBetween isContext (divide runs).1 ∧
      ∀ hunk ∈ (divide runs).2, Framed isContext isBetween isContext hunk := by
  induction h with
  | one h => exact ⟨.one h, nofun⟩
  | @ended deleted inserted lines h _ =>
    exact ⟨.ended h (List.length_take_le context lines), nofun⟩
  | @more deleted inserted lines rs h _ hrs ih =>
    obtain ⟨hfirst, hlater⟩ := ih
    rw [divide_change_cons, divide_common_cons lines hrs.ne_nil]
    split
    · refine ⟨.ended h (List.length_take_le context lines), List.forall_mem_cons.mpr ⟨?_, hlater⟩⟩
      exact .preceded (length_leading lines) hfirst
    · next hshort => exact ⟨.more h (Nat.le_of_not_lt hshort) hfirst, hlater⟩

/-- **Hunks are changes with few common lines between and around them.** -/
theorem framed_of_mem_hunks (h : Framed unbounded unbounded unbounded runs) :
    ∀ hunk ∈ hunks runs, Framed isContext isBetween isContext hunk := by
  cases h with
  | @preceded lines rs _ h =>
    exact List.forall_mem_cons.mpr ⟨.preceded (length_leading lines) h.divide.1, h.divide.2⟩
  | changes h =>
    have hhunks : hunks runs = (LineDiff.divide runs).1 :: (LineDiff.divide runs).2 := by
      obtain ⟨_, _, _, rfl, _⟩ := h.exists_cons
      rfl
    rw [hhunks]
    exact List.forall_mem_cons.mpr ⟨.changes h.divide.1, h.divide.2⟩

theorem hunks_ne_nil (runs : List Run) : hunks runs ≠ [] := by
  unfold hunks
  split <;> exact List.cons_ne_nil _ _

end Form

/-! ## Unchanged lines in a row -/

/-- Lines that were not changed. -/
def Unchanged (xs : List ShownLine) : Prop :=
  ∀ x ∈ xs, x.change = none

/-- No more than a number of unchanged lines come one after another. -/
def AtMostUnchanged (n : Nat) (xs : List ShownLine) : Prop :=
  ∀ ks, ks <:+: xs → Unchanged ks → ks.length ≤ n

/-- Lines with a change among them, at most three unchanged lines at either end, and at most six
of them between two changes. -/
structure IsGroup (xs : List ShownLine) : Prop where
  changed : ∃ x ∈ xs, x.change ≠ none
  before : ∀ ks, ks <+: xs → Unchanged ks → ks.length ≤ 3
  after : ∀ ks, ks <:+ xs → Unchanged ks → ks.length ≤ 3
  between : AtMostUnchanged 6 xs

section Unchanged

variable {n : Nat} {x : ShownLine} {ks xs ys : List ShownLine}

/-- Unchanged lines at the beginning end before the first changed line. -/
theorem Unchanged.prefix_of_append (h : Unchanged ks) (hx : x.change ≠ none)
    (hks : ks <+: xs ++ x :: ys) : ks <+: xs := by
  induction xs generalizing ks with
  | nil =>
    cases ks with
    | nil => exact List.prefix_rfl
    | cons k ks =>
      obtain ⟨rfl, _⟩ := List.cons_prefix_cons.mp hks
      exact absurd (h k (List.mem_cons_self ..)) hx
  | cons y xs ih =>
    cases ks with
    | nil => exact List.nil_prefix
    | cons k ks =>
      obtain ⟨rfl, hrest⟩ := List.cons_prefix_cons.mp hks
      exact List.cons_prefix_cons.mpr ⟨rfl, ih (List.forall_mem_cons.mp h).2 hrest⟩

/-- Unchanged lines at the end begin after the last changed line. -/
theorem Unchanged.suffix_of_append (h : Unchanged ks) (hx : x.change ≠ none)
    (hks : ks <:+ xs ++ x :: ys) : ks <:+ ys := by
  have hreverse : Unchanged ks.reverse := fun k hk => h k (List.mem_reverse.mp hk)
  rw [← List.reverse_prefix] at hks ⊢
  rw [List.reverse_append, List.reverse_cons, List.append_assoc, List.singleton_append] at hks
  exact hreverse.prefix_of_append hx hks

/-- Unchanged lines in a row are on one side of a changed line. -/
theorem Unchanged.infix_of_append (h : Unchanged ks) (hx : x.change ≠ none)
    (hks : ks <:+: xs ++ x :: ys) : ks <:+: xs ∨ ks <:+: ys := by
  induction xs with
  | nil =>
    rcases List.infix_cons_iff.mp hks with hks | hks
    · have hprefix : ks <+: [] := h.prefix_of_append hx hks
      exact .inl hprefix.isInfix
    · exact .inr hks
  | cons y xs ih =>
    rcases List.infix_cons_iff.mp hks with hks | hks
    · have hprefix : ks <+: y :: xs := h.prefix_of_append hx hks
      exact .inl hprefix.isInfix
    · exact (ih hks).imp_left fun hks => List.infix_cons hks

theorem atMostUnchanged_of_length (h : xs.length ≤ n) : AtMostUnchanged n xs :=
  fun _ hks _ => Nat.le_trans hks.length_le h

theorem AtMostUnchanged.of_cons (h : AtMostUnchanged n (x :: xs)) : AtMostUnchanged n xs :=
  fun ks hks => h ks (List.infix_cons hks)

theorem AtMostUnchanged.append_cons (hxs : AtMostUnchanged n xs) (hx : x.change ≠ none)
    (hys : AtMostUnchanged n ys) : AtMostUnchanged n (xs ++ x :: ys) :=
  fun ks hks h => (h.infix_of_append hx hks).elim (hxs ks · h) (hys ks · h)

/-- Changed lines in front of lines add no unchanged ones to a row. -/
theorem AtMostUnchanged.changed_append (hys : AtMostUnchanged n ys)
    (hxs : ∀ x ∈ xs, x.change ≠ none) : AtMostUnchanged n (xs ++ ys) := by
  induction xs with
  | nil => exact hys
  | cons x xs ih =>
    obtain ⟨hx, hxs⟩ := List.forall_mem_cons.mp hxs
    have hnil : AtMostUnchanged n [] := atMostUnchanged_of_length (Nat.zero_le n)
    exact hnil.append_cons hx (ih hxs)

end Unchanged

/-! ## The lines of a hunk -/

section Groups

variable {runs : List Run} {inner last : Nat → Prop}

theorem changed_of_mem_shown {deleted inserted : List Line} :
    ∀ x ∈ (Run.change deleted inserted).shown, x.change ≠ none := by
  intro x hx
  rcases List.mem_append.mp hx with hx | hx <;>
  · obtain ⟨_, _, rfl⟩ := List.mem_map.mp hx
    exact nofun

theorem shown_change_ne_nil {deleted inserted : List Line} (h : deleted ++ inserted ≠ []) :
    (Run.change deleted inserted).shown ≠ [] := by
  intro he
  obtain ⟨hd, hi⟩ := List.append_eq_nil_iff.mp he
  exact h (List.append_eq_nil_iff.mpr ⟨List.map_eq_nil_iff.mp hd, List.map_eq_nil_iff.mp hi⟩)

theorem length_shown_common (lines : List Line) : (Run.common lines).shown.length = lines.length :=
  List.length_map ..

/-- Changes begin with a changed line. -/
theorem Changes.exists_shown_cons (h : Changes inner last runs) :
    ∃ x xs, shownLines runs = x :: xs ∧ x.change ≠ none := by
  obtain ⟨deleted, inserted, rs, rfl, hne⟩ := h.exists_cons
  obtain ⟨x, xs, hxs⟩ := List.exists_cons_of_ne_nil (shown_change_ne_nil hne)
  have hx : x ∈ (Run.change deleted inserted).shown := hxs ▸ List.mem_cons_self ..
  refine ⟨x, xs ++ shownLines rs, ?_, changed_of_mem_shown x hx⟩
  rw [shownLines_cons, hxs, List.cons_append]

/-- Changes end with few unchanged lines. -/
theorem Changes.exists_shown_append (h : Changes inner isContext runs) :
    ∃ xs x ys, shownLines runs = xs ++ x :: ys ∧ x.change ≠ none ∧ ys.length ≤ context := by
  have hlast : ∀ {deleted inserted : List Line}, deleted ++ inserted ≠ [] →
      ∃ xs x, (Run.change deleted inserted).shown = xs ++ [x] ∧ x.change ≠ none := by
    intro deleted inserted hne
    have hshown := shown_change_ne_nil hne
    exact ⟨_, _, (List.dropLast_concat_getLast hshown).symm,
      changed_of_mem_shown _ (List.getLast_mem hshown)⟩
  induction h with
  | one hne =>
    obtain ⟨xs, x, hxs, hx⟩ := hlast hne
    exact ⟨xs, x, [], by simp [hxs], hx, Nat.zero_le _⟩
  | @ended _ _ lines hne hl =>
    obtain ⟨xs, x, hxs, hx⟩ := hlast hne
    exact ⟨xs, x, (Run.common lines).shown, by simp [hxs], hx, length_shown_common lines ▸ hl⟩
  | @more deleted inserted lines _ _ _ _ ih =>
    obtain ⟨xs, x, ys, hxs, hx, hys⟩ := ih
    refine ⟨(Run.change deleted inserted).shown ++ ((Run.common lines).shown ++ xs), x, ys, ?_, hx,
      hys⟩
    rw [shownLines_cons, shownLines_cons, hxs]
    simp only [List.append_assoc]

/-- Between changes stand few unchanged lines. -/
theorem Changes.atMostUnchanged (h : Changes isBetween isContext runs) :
    AtMostUnchanged (2 * context) (shownLines runs) := by
  induction h with
  | one _ => exact (atMostUnchanged_of_length (Nat.zero_le _)).changed_append changed_of_mem_shown
  | @ended _ _ lines _ hl =>
    have hlines : (shownLines [.common lines]).length ≤ 2 * context := by
      rw [shownLines_cons, shownLines_nil, List.append_nil, length_shown_common]
      exact Nat.le_trans hl (by decide)
    exact (atMostUnchanged_of_length hlines).changed_append changed_of_mem_shown
  | @more _ _ lines rs _ hl hrs ih =>
    obtain ⟨x, xs, hxs, hx⟩ := hrs.exists_shown_cons
    rw [hxs] at ih
    have hlines : AtMostUnchanged (2 * context) (Run.common lines).shown :=
      atMostUnchanged_of_length (length_shown_common lines ▸ hl)
    rw [shownLines_cons, shownLines_cons, hxs]
    exact (hlines.append_cons hx ih.of_cons).changed_append changed_of_mem_shown

/-- **A hunk changes something** and shows few unchanged lines in a row. -/
theorem Framed.isGroup (h : Framed isContext isBetween isContext runs) :
    IsGroup (shownLines runs) := by
  have hgroup : ∀ cs rs, cs.length ≤ context → Changes isBetween isContext rs →
      IsGroup (cs ++ shownLines rs) := by
    intro cs rs hcs hrs
    obtain ⟨x, xs, hxs, hx⟩ := hrs.exists_shown_cons
    refine ⟨⟨x, by simp [hxs], hx⟩, fun ks hks hunchanged => ?_, fun ks hks hunchanged => ?_, ?_⟩
    · rw [hxs] at hks
      exact Nat.le_trans (hunchanged.prefix_of_append hx hks).length_le hcs
    · obtain ⟨ys, y, zs, hys, hy, hzs⟩ := hrs.exists_shown_append
      rw [hys, ← List.append_assoc] at hks
      exact Nat.le_trans (hunchanged.suffix_of_append hy hks).length_le hzs
    · have hbetween := hrs.atMostUnchanged
      rw [hxs] at hbetween ⊢
      have hfirst : AtMostUnchanged (2 * context) cs :=
        atMostUnchanged_of_length (Nat.le_trans hcs (by decide))
      exact hfirst.append_cons hx hbetween.of_cons
  cases h with
  | changes h => exact hgroup [] runs (Nat.zero_le _) h
  | @preceded lines rs hl h =>
    exact hgroup (Run.common lines).shown rs (length_shown_common lines ▸ hl) h

/-- **Every hunk of runs with a change is a group.** -/
theorem isGroup_of_mem_hunks (h : Framed unbounded unbounded unbounded runs) :
    ∀ hunk ∈ hunks runs, IsGroup (shownLines hunk) :=
  fun hunk hhunk => (framed_of_mem_hunks h hunk hhunk).isGroup

end Groups

end TypedClient.LineDiff
