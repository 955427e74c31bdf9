/-!
# Files

What a command may do with files: read a text, make directories, and write a text. The
actions are given as a record, so that the same command runs on the files of a machine
and on a tree of files that is a value.

## Main definitions

* `FileFault`: the faults of the actions
* `Files`: the actions
-/

namespace TypedClient

/-- A fault of an action on a file. -/
inductive FileFault
  /-- There is no file or directory at the path. -/
  | notFound
  /-- The path leads through a file. -/
  | notDirectory
  /-- The path leads to a directory. -/
  | isDirectory
  /-- There is a file where a directory is to be. -/
  | alreadyExists
  /-- The content of the file is no text. -/
  | notText
  /-- Any other fault, in the words of the machine. -/
  | other (message : String)
  deriving DecidableEq, Repr

/-- The wording of a fault. -/
def FileFault.message : FileFault → String
  | notFound => "No such file or directory (os error 2)"
  | notDirectory => "Not a directory (os error 20)"
  | isDirectory => "Is a directory (os error 21)"
  | alreadyExists => "File exists (os error 17)"
  | notText => "stream did not contain valid UTF-8"
  | other message => message

/-- The actions on files, each at a path. -/
structure Files (m : Type → Type) where
  /-- The text of a file. -/
  read : String → m (Except FileFault String)
  /-- Makes the directories along a path that do not exist yet. -/
  createDirectories : String → m (Except FileFault Unit)
  /-- Makes a text the content of a file, which is made if it does not exist. -/
  write : String → String → m (Except FileFault Unit)

end TypedClient
