import TypedClient.Files
import TypedClient.Files.Path

/-!
# Trees of files

A tree of files and directories as a value, with the actions on its files.

## Main definitions

* `FileTree`: the trees
* `FileTree.get?`, `FileTree.put?`, `FileTree.makeDirectory?`: reading and changing
* `FileTree.resolve?`: the names along a path
* `FileTree.makeAlong`: makes the directories along a path
* `FileTree.contents`: the files of a tree
* `FileTree.files`: the actions on files, on a tree as the state
-/

namespace TypedClient

/-- The content of a file: a text, or bytes that are none. -/
inductive FileContent
  | text (text : String)
  | binary (bytes : List UInt8)
  deriving DecidableEq, Repr

/-- A tree of files and directories. -/
inductive FileTree
  | file (content : FileContent)
  | directory (entries : List (String × FileTree))
  deriving Repr

namespace FileTree

/-- The directory without entries. -/
def empty : FileTree :=
  .directory []

/-- The entries of a directory with one of them set. -/
def setEntry (name : String) (t : FileTree) : List (String × FileTree) →
    List (String × FileTree)
  | [] => [(name, t)]
  | e :: es => if e.1 = name then (name, t) :: es else e :: setEntry name t es

/-- The content of the file at a path. -/
def get? : FileTree → List String → Except FileFault FileContent
  | .file content, [] => .ok content
  | .file _, _ :: _ => .error .notDirectory
  | .directory _, [] => .error .isDirectory
  | .directory es, name :: path =>
    if name.isEmpty then .error .isDirectory
    else
      match es.lookup name with
      | some t => get? t path
      | none => .error .notFound

/-- The tree with a content at a path. The directories along the path have to exist. -/
def put? (content : FileContent) : FileTree → List String → Except FileFault FileTree
  | .file _, [] => .ok (.file content)
  | .file _, _ :: _ => .error .notDirectory
  | .directory _, [] => .error .isDirectory
  | .directory es, name :: path =>
    if name.isEmpty then .error .isDirectory
    else
      match es.lookup name, path with
      | some t, _ => (fun t => .directory (setEntry name t es)) <$> put? content t path
      | none, [] => .ok (.directory (setEntry name (.file content) es))
      -- the path ends at a slash after a name that is not there
      | none, [""] => .error .isDirectory
      | none, _ :: _ => .error .notFound

/-- The tree with a directory at a path. The directory around it has to exist. One that exists
itself stays as it is. -/
def makeDirectory? : FileTree → List String → Except FileFault FileTree
  | .file _, [] => .error .alreadyExists
  | .file _, _ :: _ => .error .notDirectory
  | .directory es, [] => .ok (.directory es)
  | .directory es, name :: path =>
    match es.lookup name, path with
    | some t, _ => (fun t => .directory (setEntry name t es)) <$> makeDirectory? t path
    | none, [] => .ok (.directory (setEntry name empty es))
    | none, _ :: _ => .error .notFound

/-! ## Paths -/

/-- The names that the steps of a path lead along, after the given ones. A directory has to
exist to lead back from it. -/
def resolve? (t : FileTree) : List String → List Path.Step → Except FileFault (List String)
  | names, [] => .ok names
  | names, .down name :: steps => resolve? t (names ++ [name]) steps
  | names, .up :: steps =>
    match t.get? names with
    | .error .isDirectory => resolve? t names.dropLast steps
    | .error fault => .error fault
    | .ok _ => .error .notDirectory

/-- The tree with a content in the file at a path. -/
def putAt? (content : FileContent) (path : String) (t : FileTree) :
    Except FileFault FileTree := do
  t.put? content (← t.resolve? [] (Path.steps path))

/-! ## All files -/

mutual

/-- The files of a tree, each with the names along its path. -/
def contents : FileTree → List (List String × FileContent)
  | .file content => [([], content)]
  | .directory entries => entriesContents entries

/-- The files of the entries of a directory. -/
def entriesContents : List (String × FileTree) → List (List String × FileContent)
  | [] => []
  | e :: es => entryContents e ++ entriesContents es

/-- The files of an entry of a directory. -/
def entryContents : String × FileTree → List (List String × FileContent)
  | (name, t) => (contents t).map fun (path, content) => (name :: path, content)

end

/-! ## Actions -/

/-- The text of the file at a path. -/
def read (t : FileTree) (path : String) : Except FileFault String := do
  match ← t.get? (← t.resolve? [] (Path.steps path)) with
  | .text text => return text
  | .binary _ => throw .notText

/-- The result of a change, and the tree after it, which is the same after a fault. -/
def changed (t : FileTree) : Except FileFault FileTree → Except FileFault Unit × FileTree
  | .ok t' => (.ok (), t')
  | .error fault => (.error fault, t)

/-- A change of the tree. -/
def change (step : FileTree → Except FileFault FileTree) :
    ExceptT FileFault (StateM FileTree) Unit :=
  ExceptT.mk fun t => t.changed (step t)

/-- The tree with a directory where some steps lead, which are given from the last one to the first.
What the last of them leads from has to be a directory, and a step back leads to one then. -/
def makeDirectoryAt? (t : FileTree) : List Path.Step → Except FileFault FileTree
  | [] => return t
  | .up :: before => do
    let _ ← t.resolve? [] (.up :: before).reverse
    return t
  | .down name :: before => do
    t.makeDirectory? ((← t.resolve? [] before.reverse) ++ [name])

/-- Makes the directories along some steps, which are given from the last one to the first. The
directories before the last one are made only if it cannot be made without them. Those from which the
steps lead back are made as well, and what was made stays if a later directory cannot be. -/
def makeAlong : List Path.Step → FileTree → Except FileFault Unit × FileTree
  | [], t => (.ok (), t)
  | step :: before, t =>
    match t.makeDirectoryAt? (step :: before) with
    | .error .notFound =>
      match makeAlong before t with
      | (.ok _, t') => t'.changed (t'.makeDirectoryAt? (step :: before))
      | failed => failed
    | result => t.changed result

/-- The actions on files, on a tree as the state. -/
def files : Files (StateM FileTree) where
  read path := fun t => (t.read path, t)
  createDirectories path := makeAlong (Path.partSteps path.toList).reverse
  write path text := (change (putAt? (.text text) path)).run

end FileTree

end TypedClient
