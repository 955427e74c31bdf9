/-!
# Where scripts meet

A shortest script of two lists is looked for from both ends at once, with one more change
in every round, until a script from the front meets one from the back.

A place is a number of items of either list. Its diagonal is the difference of the two
numbers: keeping an item stays on the diagonal, deleting one goes to the diagonal above,
and inserting one to the diagonal below. After `d` changes the diagonals `d`, `d - 2`, …,
`-d` can be reached; a front says how far along the first list each of them is.

## Main definitions

* `LineDiff.widen`, `LineDiff.advance`: a front after one more change, and after keeping
  what can be kept
* `LineDiff.meeting?`: the place where the fronts meet
-/

namespace TypedClient.LineDiff

variable {α : Type} [DecidableEq α]

/-- How far along the first list the diagonals of a round are reached, from the highest
diagonal to the lowest. -/
abbrev Front := List Nat

/-- The diagonals between the first two of a front, the next two, and so on, and the one
below the last. Of a deletion and an insertion the one that gets further counts. -/
def widenBelow (above : Nat) : Front → Front
  | [] => [above]
  | below :: front => (if below < above then above else below + 1) :: widenBelow below front

/-- A front after one more change. -/
def widen : Front → Front
  | [] => []
  | x :: front => (x + 1) :: widenBelow x front

/-- The number of items from two places on that are equal, at most `steps`. -/
def matching (as bs : Array α) : Nat → Nat → Nat → Nat
  | 0, _, _ => 0
  | steps + 1, x, y =>
    match as[x]?, bs[y]? with
    | some a, some b => if a = b then matching as bs steps (x + 1) (y + 1) + 1 else 0
    | _, _ => 0

/-- A front that begins at a diagonal, after keeping what can be kept. -/
def advance (as bs : Array α) : Int → Front → Front
  | _, [] => []
  | k, x :: front =>
    let y : Int := x - k
    let kept := if 0 ≤ y then matching as bs (as.size - x) x y.toNat else 0
    (x + kept) :: advance as bs (k - 2) front

/-- How far a diagonal is reached by the front of a round, if it is one of its
diagonals. -/
def reachedAt? (front : Array Nat) (round k : Int) : Option Nat :=
  if -round ≤ k ∧ k ≤ round then front[((round - k) / 2).toNat]? else none

/-- The first diagonal of a front, from `k` downwards, on which it meets the front of a
round from the other end, with its start and its end. The lists have `n` items and
`n - delta` items. -/
def meetingOf? (other : Array Nat) (round delta : Int) (n : Nat) :
    Int → Front → Front → Option (Int × Nat × Nat)
  | k, x :: starts, e :: ends =>
    if (reachedAt? other round (delta - k)).any (n ≤ e + ·) then some (k, x, e)
    else meetingOf? other round delta n (k - 2) starts ends
  | _, _, _ => none

/-- The place where fronts meet, of which at most `steps` rounds are made. The fronts from
the back are those of the reversed lists. -/
def meetingFrom? (as bs sa sb : Array α) : Nat → Int → Front → Front → Array Nat →
    Option (Nat × Nat)
  | 0, _, _, _, _ => none
  | steps + 1, d, starts, backStarts, lastBack =>
    let n := as.size
    let delta : Int := (n : Int) - bs.size
    let ends := advance as bs d starts
    let forward :=
      if delta % 2 = 0 then none else meetingOf? lastBack (d - 1) delta n d starts ends
    match forward with
    -- the items kept last begin the second half
    | some (k, x, _) => some (x, (x - k).toNat)
    | none =>
      let backEnds := advance sa sb d backStarts
      let backward :=
        if delta % 2 = 0 then meetingOf? ends.toArray d delta n d backStarts backEnds
        else none
      match backward with
      | some (k, _, e) => some (n - e, bs.size - (e - k).toNat)
      | none => meetingFrom? as bs sa sb steps (d + 1) (widen ends) (widen backEnds)
          backEnds.toArray

/-- A place on a shortest script of two lists, about half way along it. -/
def meeting? (as bs : List α) : Option (Nat × Nat) :=
  meetingFrom? as.toArray bs.toArray as.reverse.toArray bs.reverse.toArray
    (as.length + bs.length + 1) 0 [0] [0] #[]

end TypedClient.LineDiff
