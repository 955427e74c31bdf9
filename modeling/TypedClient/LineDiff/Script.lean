import TypedClient.LineDiff.Block
import TypedClient.LineDiff.Meeting

/-!
# Scripts

The script of two lists keeps their common beginning and end. What is left is cut at a
place on a shortest script, and either part has a script of its own.

## Main definitions

* `LineDiff.scriptOf`: the script of two lists, with a given rule where to cut
* `LineDiff.script`: the script of two lists

## Main results

* `deleted_scriptOf`, `inserted_scriptOf`: the script of two lists turns the first into
  the second, wherever they are cut
-/

namespace TypedClient.LineDiff

variable {α : Type}

/-- A block of kept items, none if there are none. -/
def kept (items : List α) : List (Block α) :=
  if items.isEmpty then [] else [.keep items]

/-- The script that deletes one list and inserts another. -/
def replaced (as bs : List α) : List (Block α) :=
  (if as.isEmpty then [] else [.change .deleted as])
    ++ if bs.isEmpty then [] else [.change .inserted bs]

/-- The script of two lists, which are cut at most `steps` times one inside the other.
Lists of which one is empty are not cut. -/
def scriptOf [DecidableEq α] (cut : List α → List α → Option (Nat × Nat)) :
    Nat → List α → List α → List (Block α)
  | 0, as, bs => replaced as bs
  | steps + 1, as, bs =>
    let front := commonPrefix as bs
    let as := as.drop front.length
    let bs := bs.drop front.length
    let back := commonSuffix as bs
    let as := as.take (as.length - back.length)
    let bs := bs.take (bs.length - back.length)
    let middle :=
      match if as.isEmpty || bs.isEmpty then none else cut as bs with
      | none => replaced as bs
      | some (x, y) =>
        scriptOf cut steps (as.take x) (bs.take y)
          ++ scriptOf cut steps (as.drop x) (bs.drop y)
    kept front ++ middle ++ kept back

/-- The script of two lists. -/
def script [DecidableEq α] (as bs : List α) : List (Block α) :=
  scriptOf meeting? (as.length + bs.length + 1) as bs

/-! ## The lists of the script -/

@[simp]
theorem listOf_kept (side : Side) (items : List α) : listOf side (kept items) = items := by
  cases items <;> simp [kept, Block.itemsOf]

@[simp]
theorem deleted_replaced (as bs : List α) : listOf .deleted (replaced as bs) = as := by
  cases as <;> cases bs <;> simp [replaced, Block.itemsOf]

@[simp]
theorem inserted_replaced (as bs : List α) : listOf .inserted (replaced as bs) = bs := by
  cases as <;> cases bs <;> simp [replaced, Block.itemsOf]

/-- **The script begins with the first list,** wherever the lists are cut. -/
theorem deleted_scriptOf [DecidableEq α] (cut : List α → List α → Option (Nat × Nat))
    (steps : Nat) (as bs : List α) : listOf .deleted (scriptOf cut steps as bs) = as := by
  induction steps generalizing as bs with
  | zero => simp [scriptOf]
  | succ steps ih =>
    have hfront := commonPrefix_append_left as bs
    have hback := append_commonSuffix_left
      (as.drop (commonPrefix as bs).length) (bs.drop (commonPrefix as bs).length)
    simp only [scriptOf, listOf_append, listOf_kept, List.append_assoc]
    refine Eq.trans (congrArg _ (Eq.trans (congrArg (· ++ _) ?_) hback)) hfront
    split <;> simp [ih]

/-- **The script ends with the second list,** wherever the lists are cut. -/
theorem inserted_scriptOf [DecidableEq α] (cut : List α → List α → Option (Nat × Nat))
    (steps : Nat) (as bs : List α) : listOf .inserted (scriptOf cut steps as bs) = bs := by
  induction steps generalizing as bs with
  | zero => simp [scriptOf]
  | succ steps ih =>
    have hfront := commonPrefix_append_right as bs
    have hback := append_commonSuffix_right
      (as.drop (commonPrefix as bs).length) (bs.drop (commonPrefix as bs).length)
    simp only [scriptOf, listOf_append, listOf_kept, List.append_assoc]
    refine Eq.trans (congrArg _ (Eq.trans (congrArg (· ++ _) ?_) hback)) hfront
    split <;> simp [ih]

@[simp]
theorem deleted_script [DecidableEq α] (as bs : List α) :
    listOf .deleted (script as bs) = as :=
  deleted_scriptOf meeting? _ as bs

@[simp]
theorem inserted_script [DecidableEq α] (as bs : List α) :
    listOf .inserted (script as bs) = bs :=
  inserted_scriptOf meeting? _ as bs

end TypedClient.LineDiff
