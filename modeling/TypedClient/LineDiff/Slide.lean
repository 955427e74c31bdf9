import TypedClient.LineDiff.Block

/-!
# Sliding changes

Where a changed block begins with the items that come after it, it can as well be placed
one or more items further down, and the same holds upwards. Every block is moved up as
far as it goes, which joins it to other blocks on its way, and then down as far as it
goes.

## Main definitions

* `LineDiff.Focus`: a changed block with the blocks around it
* `LineDiff.Focus.slideUp`, `LineDiff.Focus.slideDown`: the block moved to an end of its
  room
* `LineDiff.slide`: all blocks moved

## Main results

* `listOf_slide`: moving the blocks does not change the lists of a script
-/

namespace TypedClient.LineDiff

variable {α : Type}

/-- A changed block, the blocks above it with the nearest first, and those below it. -/
structure Focus (α : Type) where
  above : List (Block α)
  side : Side
  items : List α
  below : List (Block α)

namespace Focus

/-- The script of a focus. -/
def blocks (f : Focus α) : List (Block α) :=
  f.above.reverse ++ .change f.side f.items :: f.below

/-- Blocks after some kept items. -/
def keepBefore (items : List α) : List (Block α) → List (Block α)
  | .keep more :: bs => .keep (items ++ more) :: bs
  | bs => .keep items :: bs

/-- Blocks, with the nearest first, before some kept items. -/
def keepAfter (items : List α) : List (Block α) → List (Block α)
  | .keep more :: bs => .keep (more ++ items) :: bs
  | bs => .keep items :: bs

/-- Kept items in front of blocks, none if there are none. -/
def keepRest (items : List α) (bs : List (Block α)) : List (Block α) :=
  if items.isEmpty then bs else .keep items :: bs

variable [DecidableEq α]

/-- The focus moved up as far as it goes, in at most `steps` moves. Kept items at whose
end the block ends too come after it, and a block of the same side is joined to it. -/
def slideUp : Nat → Focus α → Focus α
  | 0, f => f
  | steps + 1, f =>
    match f.above with
    | [] => f
    | .keep kept :: above =>
      let common := commonSuffix kept f.items
      let left := kept.take (kept.length - common.length)
      if common.isEmpty then if kept.isEmpty then slideUp steps { f with above } else f
      else
        slideUp steps
          { f with
            above := keepRest left above
            items := common ++ f.items.take (f.items.length - common.length)
            below := keepBefore common f.below }
    | .change side items :: above =>
      if side = f.side then slideUp steps { f with above, items := items ++ f.items }
      else slideUp steps { f with above, below := .change side items :: f.below }

/-- The focus moved down as far as it goes, in at most `steps` moves. -/
def slideDown : Nat → Focus α → Focus α
  | 0, f => f
  | steps + 1, f =>
    match f.below with
    | [] => f
    | .keep kept :: below =>
      let common := commonPrefix kept f.items
      let left := kept.drop common.length
      if common.isEmpty then if kept.isEmpty then slideDown steps { f with below } else f
      else
        slideDown steps
          { f with
            above := keepAfter common f.above
            items := f.items.drop common.length ++ common
            below := keepRest left below }
    | .change side items :: below =>
      if side = f.side then slideDown steps { f with below, items := f.items ++ items }
      else slideDown steps { f with above := .change side items :: f.above, below }

end Focus

/-- The number of blocks and items of a script, which bounds the moves of one block. -/
def weight (blocks : List (Block α)) : Nat :=
  blocks.foldr (fun block total =>
    match block with
    | .keep items => items.length + 1 + total
    | .change _ items => items.length + 1 + total) 0

variable [DecidableEq α]

/-- A script with the blocks of one side moved, from the first one after `above` on. -/
def slideFrom (side : Side) (moves : Nat) : Nat → List (Block α) → List (Block α) →
    List (Block α)
  | 0, above, below => above.reverse ++ below
  | _, above, [] => above.reverse
  | steps + 1, above, .change s items :: below =>
    if s = side then
      let f := (Focus.slideUp moves ⟨above, s, items, below⟩).slideDown moves
      slideFrom side moves steps (.change f.side f.items :: f.above) f.below
    else slideFrom side moves steps (.change s items :: above) below
  | steps + 1, above, .keep items :: below =>
    slideFrom side moves steps (.keep items :: above) below

/-- A script with the deleted blocks moved, and then the inserted ones. -/
def slide (blocks : List (Block α)) : List (Block α) :=
  -- a slide can part a block of kept items in two, but not more often than there are blocks
  let moves := 4 * weight blocks + 4
  let deleted := slideFrom .deleted moves (moves * moves) [] blocks
  slideFrom .inserted moves (moves * moves) [] deleted

/-! ## The lists of a moved script -/

namespace Focus

omit [DecidableEq α]

@[simp]
theorem listOf_keepBefore (t : Side) (items : List α) (bs : List (Block α)) :
    listOf t (keepBefore items bs) = items ++ listOf t bs := by
  unfold keepBefore
  split <;> simp [Block.itemsOf]

@[simp]
theorem listOf_reverse_keepAfter (t : Side) (items : List α) (bs : List (Block α)) :
    listOf t (keepAfter items bs).reverse = listOf t bs.reverse ++ items := by
  unfold keepAfter
  split <;> simp [Block.itemsOf]

@[simp]
theorem listOf_keepRest (t : Side) (items : List α) (bs : List (Block α)) :
    listOf t (keepRest items bs) = items ++ listOf t bs := by
  cases items <;> simp [keepRest, Block.itemsOf]

@[simp]
theorem listOf_reverse_keepRest (t : Side) (items : List α) (bs : List (Block α)) :
    listOf t (keepRest items bs).reverse = listOf t bs.reverse ++ items := by
  cases items <;> simp [keepRest, Block.itemsOf]

/-- The lists of a focus, written out. -/
theorem listOf_blocks (t : Side) (f : Focus α) :
    listOf t f.blocks =
      listOf t f.above.reverse ++ (Block.change f.side f.items).itemsOf t ++ listOf t f.below := by
  simp [blocks]

end Focus

namespace Focus

/-- **Moving a block up changes neither list.** -/
theorem listOf_slideUp (t : Side) (steps : Nat) (f : Focus α) :
    listOf t (f.slideUp steps).blocks = listOf t f.blocks := by
  induction steps generalizing f with
  | zero => rfl
  | succ steps ih =>
    obtain ⟨above, side, items, below⟩ := f
    cases above with
    | nil => rfl
    | cons b above =>
      cases b with
      | keep kept =>
        have hk := append_commonSuffix_left kept items
        have hi := append_commonSuffix_right kept items
        simp only [slideUp]
        generalize commonSuffix kept items = common at hk hi ⊢
        split
        · split
          · next h => rw [ih]; simp_all [listOf_blocks, Block.itemsOf]
          · rfl
        · rw [ih]
          simp only [listOf_blocks, listOf_reverse_keepRest, listOf_keepBefore, Block.itemsOf,
            List.reverse_cons, listOf_append, listOf_cons, listOf_nil, List.append_nil]
          -- the common items stand once before the block and once at its end
          conv => rhs; rw [← hk, ← hi]
          split <;> simp
      | change s others =>
        simp only [slideUp]
        split
        · next h =>
          subst h
          rw [ih]
          by_cases hs : s = t <;> simp [listOf_blocks, Block.itemsOf, hs]
        · next h =>
          rw [ih]
          cases s <;> cases side <;> cases t <;> simp_all [listOf_blocks, Block.itemsOf]

/-- **Moving a block down changes neither list.** -/
theorem listOf_slideDown (t : Side) (steps : Nat) (f : Focus α) :
    listOf t (f.slideDown steps).blocks = listOf t f.blocks := by
  induction steps generalizing f with
  | zero => rfl
  | succ steps ih =>
    obtain ⟨above, side, items, below⟩ := f
    cases below with
    | nil => rfl
    | cons b below =>
      cases b with
      | keep kept =>
        have hk := commonPrefix_append_left kept items
        have hi := commonPrefix_append_right kept items
        simp only [slideDown]
        generalize commonPrefix kept items = common at hk hi ⊢
        split
        · split
          · next h => rw [ih]; simp_all [listOf_blocks, Block.itemsOf]
          · rfl
        · rw [ih]
          simp only [listOf_blocks, listOf_reverse_keepAfter, listOf_keepRest, Block.itemsOf,
            listOf_cons]
          -- the common items stand once at the beginning of the block and once after it
          conv => rhs; rw [← hk, ← hi]
          split <;> simp
      | change s others =>
        simp only [slideDown]
        split
        · next h =>
          subst h
          rw [ih]
          by_cases hs : s = t <;> simp [listOf_blocks, Block.itemsOf, hs]
        · next h =>
          rw [ih]
          cases s <;> cases side <;> cases t <;> simp_all [listOf_blocks, Block.itemsOf]

end Focus

theorem listOf_slideFrom (t side : Side) (moves steps : Nat) (above below : List (Block α)) :
    listOf t (slideFrom side moves steps above below) = listOf t (above.reverse ++ below) := by
  induction steps generalizing above below with
  | zero => cases below <;> rfl
  | succ steps ih =>
    match below with
    | [] => simp [slideFrom]
    | .keep items :: below => simp [slideFrom, ih]
    | .change s items :: below =>
      simp only [slideFrom]
      split
      · rw [ih]
        have h := (Focus.listOf_slideDown t moves _).trans
          (Focus.listOf_slideUp t moves ⟨above, s, items, below⟩)
        simpa [Focus.blocks] using h
      · simp [ih]

/-- **Moving the blocks of a script changes neither list.** -/
@[simp]
theorem listOf_slide (t : Side) (blocks : List (Block α)) :
    listOf t (slide blocks) = listOf t blocks := by
  simp [slide, listOf_slideFrom]

end TypedClient.LineDiff
