import TypedClient.LineDiff.Hunk

/-!
# Laws of scripts and runs

No block of a script is empty, wherever the lists are cut and however the blocks are moved. So the
runs of a script alternate, and the script changes something in every second one of them.

## Main definitions

* `Solid`: a script without empty blocks
* `Run.linesOf`, `runLines`: the lines of runs in the list of a side
* `Changes`, `Framed`: changes with common lines between them, and around them

## Main results

* `solid_script`, `solid_slide`: no block of a script is empty
* `runLines_runsOf`: the runs of a script have the lists of the script
* `framed_runsOf`: the runs of a script alternate, unless it changes nothing
-/

namespace TypedClient.LineDiff

/-! ## Scripts without empty blocks -/

section Blocks

variable {α : Type}

/-- The items of a block, whatever becomes of them. -/
def Block.items : Block α → List α
  | .keep items => items
  | .change _ items => items

/-- No block of a script is empty. -/
def Solid (blocks : List (Block α)) : Prop :=
  ∀ b ∈ blocks, b.items ≠ []

variable {b : Block α} {bs cs : List (Block α)} {items : List α} {side : Side}

theorem solid_nil : Solid ([] : List (Block α)) :=
  nofun

theorem solid_cons : Solid (b :: bs) ↔ b.items ≠ [] ∧ Solid bs :=
  List.forall_mem_cons

theorem solid_append : Solid (bs ++ cs) ↔ Solid bs ∧ Solid cs :=
  List.forall_mem_append

theorem Solid.reverse (h : Solid bs) : Solid bs.reverse :=
  fun b hb => h b (List.mem_reverse.mp hb)

theorem solid_kept (items : List α) : Solid (kept items) := by
  unfold kept
  split
  · exact solid_nil
  · next h => exact solid_cons.mpr ⟨fun he => h (List.isEmpty_iff.mpr he), solid_nil⟩

theorem solid_replaced (as bs : List α) : Solid (replaced as bs) := by
  have hchange : ∀ (side : Side) (items : List α),
      Solid (if items.isEmpty then [] else [.change side items]) := by
    intro side items
    split
    · exact solid_nil
    · next h => exact solid_cons.mpr ⟨fun he => h (List.isEmpty_iff.mpr he), solid_nil⟩
  exact solid_append.mpr ⟨hchange .deleted as, hchange .inserted bs⟩

/-- **No block of a script is empty,** wherever the lists are cut. -/
theorem solid_scriptOf [DecidableEq α] (cut : List α → List α → Option (Nat × Nat)) (steps : Nat)
    (as bs : List α) : Solid (scriptOf cut steps as bs) := by
  induction steps generalizing as bs with
  | zero => exact solid_replaced as bs
  | succ steps ih =>
    rw [scriptOf]
    refine solid_append.mpr ⟨solid_append.mpr ⟨solid_kept _, ?_⟩, solid_kept _⟩
    split
    · exact solid_replaced _ _
    · exact solid_append.mpr ⟨ih _ _, ih _ _⟩

theorem solid_script [DecidableEq α] (as bs : List α) : Solid (script as bs) :=
  solid_scriptOf meeting? _ as bs

/-! ### Moved blocks -/

namespace Focus

theorem solid_keepBefore (hitems : items ≠ []) (h : Solid bs) : Solid (keepBefore items bs) := by
  unfold keepBefore
  split
  · obtain ⟨_, hbs⟩ := solid_cons.mp h
    exact solid_cons.mpr ⟨List.append_ne_nil_of_left_ne_nil hitems _, hbs⟩
  · exact solid_cons.mpr ⟨hitems, h⟩

theorem solid_keepAfter (hitems : items ≠ []) (h : Solid bs) : Solid (keepAfter items bs) := by
  unfold keepAfter
  split
  · obtain ⟨_, hbs⟩ := solid_cons.mp h
    exact solid_cons.mpr ⟨List.append_ne_nil_of_right_ne_nil _ hitems, hbs⟩
  · exact solid_cons.mpr ⟨hitems, h⟩

theorem solid_keepRest (items : List α) (h : Solid bs) : Solid (keepRest items bs) := by
  unfold keepRest
  split
  · exact h
  · next hitems => exact solid_cons.mpr ⟨fun he => hitems (List.isEmpty_iff.mpr he), h⟩

theorem solid_blocks {f : Focus α} :
    Solid f.blocks ↔ Solid f.above ∧ f.items ≠ [] ∧ Solid f.below := by
  have habove : Solid f.above.reverse ↔ Solid f.above :=
    ⟨fun h => List.reverse_reverse f.above ▸ h.reverse, Solid.reverse⟩
  rw [blocks, solid_append, solid_cons, habove]
  rfl

variable [DecidableEq α] {f : Focus α}

/-- **A block that moves up stays solid,** and so do the blocks around it. -/
theorem solid_slideUp (steps : Nat) (h : Solid f.blocks) : Solid (f.slideUp steps).blocks := by
  induction steps generalizing f with
  | zero => exact h
  | succ steps ih =>
    obtain ⟨above, side, items, below⟩ := f
    obtain ⟨habove, hitems, hbelow⟩ := solid_blocks.mp h
    cases above with
    | nil => exact h
    | cons b above =>
      obtain ⟨hb, hrest⟩ := solid_cons.mp habove
      cases b with
      | keep kept =>
        simp only [slideUp]
        split
        · split
          · exact ih (solid_blocks.mpr ⟨hrest, hitems, hbelow⟩)
          · exact h
        · next hcommon =>
          -- the common items stand in the block and after it, so that neither is empty
          have hne : commonSuffix kept items ≠ [] := fun he => hcommon (List.isEmpty_iff.mpr he)
          exact ih (solid_blocks.mpr ⟨solid_keepRest _ hrest,
            List.append_ne_nil_of_left_ne_nil hne _, solid_keepBefore hne hbelow⟩)
      | change s others =>
        simp only [slideUp]
        split
        · exact ih (solid_blocks.mpr ⟨hrest, List.append_ne_nil_of_left_ne_nil hb _, hbelow⟩)
        · exact ih (solid_blocks.mpr ⟨hrest, hitems, solid_cons.mpr ⟨hb, hbelow⟩⟩)

/-- **A block that moves down stays solid,** and so do the blocks around it. -/
theorem solid_slideDown (steps : Nat) (h : Solid f.blocks) : Solid (f.slideDown steps).blocks := by
  induction steps generalizing f with
  | zero => exact h
  | succ steps ih =>
    obtain ⟨above, side, items, below⟩ := f
    obtain ⟨habove, hitems, hbelow⟩ := solid_blocks.mp h
    cases below with
    | nil => exact h
    | cons b below =>
      obtain ⟨hb, hrest⟩ := solid_cons.mp hbelow
      cases b with
      | keep kept =>
        simp only [slideDown]
        split
        · split
          · exact ih (solid_blocks.mpr ⟨habove, hitems, hrest⟩)
          · exact h
        · next hcommon =>
          have hne : commonPrefix kept items ≠ [] := fun he => hcommon (List.isEmpty_iff.mpr he)
          exact ih (solid_blocks.mpr ⟨solid_keepAfter hne habove,
            List.append_ne_nil_of_right_ne_nil _ hne, solid_keepRest _ hrest⟩)
      | change s others =>
        simp only [slideDown]
        split
        · exact ih (solid_blocks.mpr ⟨habove, List.append_ne_nil_of_right_ne_nil _ hb, hrest⟩)
        · exact ih (solid_blocks.mpr ⟨solid_cons.mpr ⟨hb, habove⟩, hitems, hrest⟩)

end Focus

theorem solid_slideFrom [DecidableEq α] (side : Side) (moves steps : Nat)
    (habove : Solid bs) (hbelow : Solid cs) : Solid (slideFrom side moves steps bs cs) := by
  induction steps generalizing bs cs with
  | zero => cases cs <;> exact solid_append.mpr ⟨habove.reverse, hbelow⟩
  | succ steps ih =>
    match cs with
    | [] => exact habove.reverse
    | .keep items :: below =>
      obtain ⟨hb, hbelow⟩ := solid_cons.mp hbelow
      exact ih (solid_cons.mpr ⟨hb, habove⟩) hbelow
    | .change s items :: below =>
      obtain ⟨hb, hbelow⟩ := solid_cons.mp hbelow
      rw [slideFrom]
      split
      · have hfocus : Solid (Focus.blocks ⟨bs, s, items, below⟩) :=
          Focus.solid_blocks.mpr ⟨habove, hb, hbelow⟩
        obtain ⟨habove', hitems', hbelow'⟩ := Focus.solid_blocks.mp
          (Focus.solid_slideDown moves (Focus.solid_slideUp moves hfocus))
        exact ih (solid_cons.mpr ⟨hitems', habove'⟩) hbelow'
      · exact ih (solid_cons.mpr ⟨hb, habove⟩) hbelow

/-- **No block is empty after the blocks are moved.** -/
theorem solid_slide [DecidableEq α] (h : Solid bs) : Solid (slide bs) :=
  solid_slideFrom _ _ _ solid_nil (solid_slideFrom _ _ _ solid_nil h)

end Blocks

/-! ## The lists of runs -/

/-- The lines of a run in the list of a side. -/
def Run.linesOf (side : Side) : Run → List Line
  | .common lines => lines
  | .change deleted inserted =>
    match side with
    | .deleted => deleted
    | .inserted => inserted

/-- The list of a side that runs stand for. -/
def runLines (side : Side) (runs : List Run) : List Line :=
  runs.flatMap (Run.linesOf side)

section Runs

variable {side : Side} {blocks : List (Block Line)} {b : Block Line} {runs : List Run}

@[simp]
theorem runLines_nil (side : Side) : runLines side [] = [] := rfl

@[simp]
theorem runLines_cons (side : Side) (r : Run) (rs : List Run) :
    runLines side (r :: rs) = r.linesOf side ++ runLines side rs := rfl

theorem runLines_addBlock (side : Side) (b : Block Line) (runs : List Run) :
    runLines side (addBlock b runs) = b.itemsOf side ++ runLines side runs := by
  unfold addBlock
  split <;> cases side <;> simp [Run.linesOf, Block.itemsOf]

/-- **The runs of a script have the lists of the script.** -/
theorem runLines_runsOf (side : Side) (blocks : List (Block Line)) :
    runLines side (runsOf blocks) = listOf side blocks := by
  induction blocks with
  | nil => rfl
  | cons b bs ih =>
    rw [listOf_cons, ← ih]
    exact runLines_addBlock side b _

/-! ## The form of runs -/

/-- A change, and then any number of times common lines and a change, and perhaps common lines at
the end. No change is empty, and the numbers of common lines between two changes and at the end
have given properties. -/
inductive Changes (inner last : Nat → Prop) : List Run → Prop
  | one {deleted inserted : List Line} (h : deleted ++ inserted ≠ []) :
      Changes inner last [.change deleted inserted]
  | ended {deleted inserted lines : List Line} (h : deleted ++ inserted ≠ [])
      (hl : last lines.length) : Changes inner last [.change deleted inserted, .common lines]
  | more {deleted inserted lines : List Line} {rs : List Run} (h : deleted ++ inserted ≠ [])
      (hl : inner lines.length) (hrs : Changes inner last rs) :
      Changes inner last (.change deleted inserted :: .common lines :: rs)

/-- Changes, perhaps with common lines before them, the number of which has a given property. -/
inductive Framed (first inner last : Nat → Prop) : List Run → Prop
  | changes {rs : List Run} (h : Changes inner last rs) : Framed first inner last rs
  | preceded {lines : List Line} {rs : List Run} (hl : first lines.length)
      (h : Changes inner last rs) : Framed first inner last (.common lines :: rs)

/-- Any number of lines. -/
def unbounded (_ : Nat) : Prop :=
  True

/-- Runs that alternate. Without a change there is at most one of them. -/
inductive Alternate : List Run → Prop
  | nil : Alternate []
  | common (lines : List Line) : Alternate [.common lines]
  | framed {rs : List Run} (h : Framed unbounded unbounded unbounded rs) : Alternate rs

theorem Changes.change_first {inner last : Nat → Prop} {d i d' i' : List Line} {rs : List Run}
    (h : Changes inner last (.change d i :: rs)) (hne : d' ++ i' ≠ []) :
    Changes inner last (.change d' i' :: rs) := by
  cases h with
  | one _ => exact .one hne
  | ended _ hl => exact .ended hne hl
  | more _ hl hrs => exact .more hne hl hrs

theorem Changes.exists_cons {inner last : Nat → Prop} (h : Changes inner last runs) :
    ∃ d i rs, runs = .change d i :: rs ∧ d ++ i ≠ [] := by
  cases h with
  | one hne => exact ⟨_, _, _, rfl, hne⟩
  | ended hne _ => exact ⟨_, _, _, rfl, hne⟩
  | more hne _ _ => exact ⟨_, _, _, rfl, hne⟩

/-- Kept lines in front of runs that alternate join the common lines there, if there are any. -/
theorem Alternate.addKept (h : Alternate runs) (ls : List Line) :
    Alternate (addBlock (.keep ls) runs) := by
  cases h with
  | nil => exact .common ls
  | common lines => exact .common (ls ++ lines)
  | framed h =>
    cases h with
    | changes h =>
      obtain ⟨d, i, rs, rfl, -⟩ := h.exists_cons
      exact .framed (.preceded trivial h)
    | preceded _ h => exact .framed (.preceded trivial h)

/-- Changed lines in front of runs that alternate join the change there, if there is one. -/
theorem Alternate.addChange (h : Alternate runs) {side : Side} {ls : List Line} (hne : ls ≠ []) :
    Alternate (addBlock (.change side ls) runs) := by
  have hd : ls ++ [] ≠ [] := List.append_ne_nil_of_left_ne_nil hne []
  have hi : [] ++ ls ≠ [] := hne
  cases h with
  | nil =>
    cases side with
    | deleted => exact .framed (.changes (.one hd))
    | inserted => exact .framed (.changes (.one hi))
  | common lines =>
    cases side with
    | deleted => exact .framed (.changes (.ended hd trivial))
    | inserted => exact .framed (.changes (.ended hi trivial))
  | framed h =>
    cases h with
    | preceded _ h =>
      cases side with
      | deleted => exact .framed (.changes (.more hd trivial h))
      | inserted => exact .framed (.changes (.more hi trivial h))
    | changes h =>
      obtain ⟨d, i, rs, rfl, -⟩ := h.exists_cons
      cases side with
      | deleted =>
        exact .framed (.changes (h.change_first
          (List.append_ne_nil_of_left_ne_nil (List.append_ne_nil_of_left_ne_nil hne _) _)))
      | inserted =>
        exact .framed (.changes (h.change_first
          (List.append_ne_nil_of_right_ne_nil _ (List.append_ne_nil_of_left_ne_nil hne _))))

/-- **The runs of a script alternate.** -/
theorem alternate_runsOf (h : Solid blocks) : Alternate (runsOf blocks) := by
  induction blocks with
  | nil => exact .nil
  | cons b bs ih =>
    obtain ⟨hb, hbs⟩ := solid_cons.mp h
    cases b with
    | keep ls => exact (ih hbs).addKept ls
    | change side ls => exact (ih hbs).addChange hb

/-- **A script that changes something** has changes with common lines between and around them. -/
theorem framed_runsOf (h : Solid blocks)
    (hne : listOf .deleted blocks ≠ listOf .inserted blocks) :
    Framed unbounded unbounded unbounded (runsOf blocks) := by
  rw [← runLines_runsOf, ← runLines_runsOf] at hne
  have halt := alternate_runsOf h
  -- without a change, both lists are the common lines
  generalize runsOf blocks = runs at halt hne
  cases halt with
  | nil => exact absurd rfl hne
  | common lines => exact absurd rfl hne
  | framed h => exact h

end Runs

end TypedClient.LineDiff
