import TypedClient.LineDiff.Script
import TypedClient.LineDiff.Slide
import TypedClient.Text.Split

/-!
# Hunks

The differences of two texts are shown line by line, with a few common lines around them.
Common lines that are far from any difference are left out.

## Main definitions

* `LineDiff.Run`: neighbouring lines that are common to both texts, or changed
* `LineDiff.hunks`: runs that are shown together
* `LineDiff.unified?`: the differences of two texts
-/

namespace TypedClient.LineDiff

/-- A line with its end. -/
abbrev Line := List Char

/-! ## Runs -/

/-- Neighbouring lines: common ones, or deleted and inserted ones. -/
inductive Run
  | common (lines : List Line)
  | change (deleted inserted : List Line)
  deriving DecidableEq, Repr

/-- The runs with one more block in front. -/
def addBlock (block : Block Line) (runs : List Run) : List Run :=
  match block, runs with
  | .keep ls, .common lines :: rs => .common (ls ++ lines) :: rs
  | .keep ls, rs => .common ls :: rs
  | .change .deleted ls, .change deleted inserted :: rs => .change (ls ++ deleted) inserted :: rs
  | .change .deleted ls, rs => .change ls [] :: rs
  | .change .inserted ls, .change deleted inserted :: rs =>
    .change deleted (ls ++ inserted) :: rs
  | .change .inserted ls, rs => .change [] ls :: rs

/-- The runs of a script, each as long as possible. -/
def runsOf (blocks : List (Block Line)) : List Run :=
  blocks.foldr addBlock []

/-! ## Hunks -/

/-- The number of common lines that are shown before and after a change. -/
def context : Nat := 3

/-- The last lines of a run that are shown before a change. -/
def leading (lines : List Line) : List Line :=
  lines.drop (lines.length - context)

/-- The runs that are shown together with what comes before them, and the hunks after
them. Common lines between two changes are all shown if the lines shown for either change
leave none out. -/
def divide : List Run → List Run × List (List Run)
  | [] => ([], [])
  | [.common lines] => ([.common (lines.take context)], [])
  | .common lines :: runs =>
    let (hunk, later) := divide runs
    if 2 * context < lines.length then
      ([.common (lines.take context)], (.common (leading lines) :: hunk) :: later)
    else (.common lines :: hunk, later)
  | run :: runs =>
    let (hunk, later) := divide runs
    (run :: hunk, later)

/-- The runs that are shown, hunk by hunk. -/
def hunks : List Run → List (List Run)
  | .common lines :: runs =>
    let (hunk, later) := divide runs
    (.common (leading lines) :: hunk) :: later
  | runs =>
    let (hunk, later) := divide runs
    hunk :: later

/-! ## Text -/

/-- A line after its sign. The last line of a text may lack an end, which it gets. -/
def signed (sign : Char) (line : Line) : List Char :=
  let ends := line.getLast?.any fun c => c == '\n' || c == '\r'
  sign :: (if ends then line else line ++ ['\n'])

/-- The lines of a run, after a blank, a minus or a plus sign. -/
def Run.text : Run → List Char
  | .common lines => lines.flatMap (signed ' ')
  | .change deleted inserted =>
    deleted.flatMap (signed '-') ++ inserted.flatMap (signed '+')

/-- The mark between two hunks. -/
def separator : List Char := "...\n".toList

/-- The hunks of two lists of lines. -/
def hunksText (current new : List Line) : List Char :=
  let shown := hunks (runsOf (slide (script current new)))
  separator.intercalate (shown.map (·.flatMap Run.text))

/-- The differences between the current text of a file and a new one, after a header that
names the file; none between equal texts. -/
def unified? (name current new : String) : Option String :=
  if current = new then none
  else
    some ("--- " ++ name ++ " (current)\n+++ " ++ name ++ " (generated)\n" ++
      String.ofList (hunksText (Text.fullLines current.toList) (Text.fullLines new.toList)))

end TypedClient.LineDiff
