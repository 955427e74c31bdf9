import TypedClient.Text.Split

/-!
# Paths

A path is a text in which slashes part the names of directories and of a file. Repeated
slashes, and dots that stand for the directory before them, make no difference. Two dots
lead back to the directory around the one before them.

## Main definitions

* `Path.extension?`: the extension of the file's name
* `Path.parent?`: the path of the directory of a file
* `Path.steps`: the steps along a path
* `Path.partSteps`: those that lead to a directory
-/

namespace TypedClient.Path

/-- A path from its end to its beginning, without slashes and dots at its end that make
no difference. The slash of the root stays. -/
def trimEnd : List Char → List Char
  | '/' :: c :: cs => trimEnd (c :: cs)
  | '.' :: '/' :: cs => trimEnd ('/' :: cs)
  | cs => cs

/-- A part of a path from its end to its beginning, as a text. -/
def ofReversed (cs : List Char) : String :=
  String.ofList cs.reverse

/-- The last name of a path, if it is one of a file. -/
def fileName? (path : String) : Option (List Char) :=
  let name := ((trimEnd path.toList.reverse).takeWhile (· != '/')).reverse
  if name.isEmpty || name == ['.'] || name == ['.', '.'] then none else some name

/-- What comes after the last point of the file's name. A point at the beginning of the
name does not count. -/
def extension? (path : String) : Option String := do
  let name := (← fileName? path).reverse
  match name.dropWhile (· != '.') with
  | _ :: _ :: _ => return ofReversed (name.takeWhile (· != '.'))
  | _ => none

/-- The path of the directory that a path leads through last, which is empty for a single
name. -/
def parent? (path : String) : Option String :=
  let trimmed := trimEnd path.toList.reverse
  if trimmed.isEmpty || trimmed == ['/'] then none
  else some (ofReversed (trimEnd (trimmed.dropWhile (· != '/'))))

/-! ## Steps -/

/-- A step along a path: from a directory to the one around it, or to one of its
entries. -/
inductive Step
  | up
  | down (name : String)
  deriving DecidableEq, Repr

/-- The step of a part of a path, none for a part that makes no difference. -/
def stepOf? (part : List Char) : Option Step :=
  if part.isEmpty || part == ['.'] then none
  else if part == ['.', '.'] then some .up
  else some (.down (String.ofList part))

/-- The steps of the parts of a path. -/
def partSteps (path : List Char) : List Step :=
  (Text.pieces (· == '/') path).filterMap stepOf?

/-- The steps along a path. A path that ends at a slash or at a directory's dot leads into
a directory, which is shown by a last step to an empty name. -/
def steps (path : String) : List Step :=
  let last := (Text.pieces (· == '/') path.toList).getLast?.getD []
  let steps := partSteps path.toList
  if last.isEmpty || last == ['.'] || last == ['.', '.'] then steps ++ [.down ""] else steps

end TypedClient.Path
