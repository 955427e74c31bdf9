/-!
# Blocks of changes

A script turns one list into another. It is a list of blocks: neighbouring items that are
kept, deleted from the first list, or inserted from the second one.

## Main definitions

* `LineDiff.Block`: a block of a script
* `LineDiff.listOf`: the two lists of a script
* `LineDiff.commonPrefix`, `LineDiff.commonSuffix`: what two lists begin and end with

## Main results

* `listOf_append`: the lists of two scripts, one after the other
* `commonPrefix_append_left`, `append_commonSuffix_left`: what is common and what is left
  make up a list
-/

namespace TypedClient.LineDiff

variable {α : Type}

/-- The list that changed items belong to: deleted ones to the first list, inserted ones
to the second one. -/
inductive Side
  | deleted
  | inserted
  deriving DecidableEq, Repr

/-- Neighbouring items with the same fate. -/
inductive Block (α : Type)
  | keep (items : List α)
  | change (side : Side) (items : List α)
  deriving DecidableEq, Repr

/-- The items of a block in the list of a side. -/
def Block.itemsOf (side : Side) : Block α → List α
  | .keep items => items
  | .change s items => if s = side then items else []

/-- The list of a side: the one that a script begins with, or the one that it ends
with. -/
def listOf (side : Side) (blocks : List (Block α)) : List α :=
  blocks.flatMap (Block.itemsOf side)

@[simp]
theorem listOf_nil (side : Side) : listOf side ([] : List (Block α)) = [] := rfl

@[simp]
theorem listOf_cons (side : Side) (b : Block α) (bs : List (Block α)) :
    listOf side (b :: bs) = b.itemsOf side ++ listOf side bs := rfl

@[simp]
theorem listOf_append (side : Side) (bs cs : List (Block α)) :
    listOf side (bs ++ cs) = listOf side bs ++ listOf side cs := by
  simp [listOf]

/-! ## Common beginnings and ends -/

/-- The longest common beginning of two lists. -/
def commonPrefix [DecidableEq α] : List α → List α → List α
  | a :: as, b :: bs => if a = b then a :: commonPrefix as bs else []
  | _, _ => []

/-- The longest common end of two lists. -/
def commonSuffix [DecidableEq α] (as bs : List α) : List α :=
  (commonPrefix as.reverse bs.reverse).reverse

theorem commonPrefix_prefix_left [DecidableEq α] (as bs : List α) :
    commonPrefix as bs <+: as := by
  induction as generalizing bs with
  | nil => simp [commonPrefix]
  | cons a as ih =>
    cases bs with
    | nil => simp [commonPrefix]
    | cons b bs =>
      simp only [commonPrefix]
      split
      · exact List.cons_prefix_cons.2 ⟨rfl, ih bs⟩
      · simp

theorem commonPrefix_comm [DecidableEq α] (as bs : List α) :
    commonPrefix as bs = commonPrefix bs as := by
  induction as generalizing bs with
  | nil => cases bs <;> rfl
  | cons a as ih =>
    cases bs with
    | nil => rfl
    | cons b bs =>
      by_cases h : a = b
      · subst h; simp [commonPrefix, ih]
      · simp [commonPrefix, h, Ne.symm h]

theorem commonPrefix_prefix_right [DecidableEq α] (as bs : List α) :
    commonPrefix as bs <+: bs :=
  commonPrefix_comm as bs ▸ commonPrefix_prefix_left bs as

theorem commonSuffix_suffix_left [DecidableEq α] (as bs : List α) :
    commonSuffix as bs <:+ as := by
  simpa [commonSuffix] using List.reverse_suffix.2 (commonPrefix_prefix_left as.reverse bs.reverse)

theorem commonSuffix_suffix_right [DecidableEq α] (as bs : List α) :
    commonSuffix as bs <:+ bs := by
  simpa [commonSuffix] using List.reverse_suffix.2 (commonPrefix_prefix_right as.reverse bs.reverse)

/-! What is common and what is left make up a list. -/

theorem commonPrefix_append_left [DecidableEq α] (as bs : List α) :
    commonPrefix as bs ++ as.drop (commonPrefix as bs).length = as := by
  obtain ⟨r, hr⟩ := commonPrefix_prefix_left as bs
  generalize commonPrefix as bs = l at hr ⊢
  simp [← hr]

theorem commonPrefix_append_right [DecidableEq α] (as bs : List α) :
    commonPrefix as bs ++ bs.drop (commonPrefix as bs).length = bs :=
  commonPrefix_comm as bs ▸ commonPrefix_append_left bs as

theorem append_commonSuffix_left [DecidableEq α] (as bs : List α) :
    as.take (as.length - (commonSuffix as bs).length) ++ commonSuffix as bs = as := by
  obtain ⟨r, hr⟩ := commonSuffix_suffix_left as bs
  generalize commonSuffix as bs = l at hr ⊢
  simp [← hr]

theorem append_commonSuffix_right [DecidableEq α] (as bs : List α) :
    bs.take (bs.length - (commonSuffix as bs).length) ++ commonSuffix as bs = bs := by
  obtain ⟨r, hr⟩ := commonSuffix_suffix_right as bs
  generalize commonSuffix as bs = l at hr ⊢
  simp [← hr]

end TypedClient.LineDiff
