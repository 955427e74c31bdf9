import TypedClient.Client
import TypedClient.Command.Arguments
import TypedClient.Command.Failure
import TypedClient.ConfigFile
import TypedClient.Document
import TypedClient.Files.Path
import TypedClient.Json.Format
import TypedClient.LineDiff.Hunk
import TypedClient.Yaml.Format

/-!
# Running commands

A command reads its files, and then writes, checks or prints what it generates. It fails
at the first fault, before anything is written.

## Main definitions

* `Action`, `PrintingAction`: actions that may fail, and those that may print as well
* `loadOperations`, `loadSchemas`, `loadConfig`: the contents of files
* `GenerateRequest.run`, `Command.run`: the commands
* `Outcome`: how a run ends, with what it printed
* `Command.outcome`: how the execution of a command ends
* `run`: a run of the program
-/

namespace TypedClient

variable {m : Type → Type} [Monad m]

/-- An action on files that may fail. -/
abbrev Action (m : Type → Type) (α : Type) := ExceptT Failure m α

/-- An action that may print as well. The state is the text that was printed so far, which stays
when the action fails. -/
abbrev PrintingAction (m : Type → Type) (α : Type) := Action (StateT String m) α

/-- Prints a text. -/
def print (text : String) : PrintingAction m Unit :=
  ExceptT.lift (modify (· ++ text))

/-- An action on files, which prints nothing. -/
def quietly {α : Type} (x : Action m α) : PrintingAction m α :=
  ExceptT.mk (StateT.lift x.run)

/-- A result whose fault becomes a failure. -/
def orFail {ε α : Type} (failure : ε → Failure) (result : m (Except ε α)) : Action m α :=
  ExceptT.mk ((·.mapError failure) <$> result)

/-! ## Reading files -/

/-- The document at a path, in the format of its extension. The file is read before its
extension counts. -/
def loadDocument {α : Type} (files : Files m) (json : Reader (Except ReadFault) Json α)
    (yaml : Reader Yaml.Reading Yaml.Part α) (path : String) : Action m α := do
  let text ← orFail (.unreadableDocument path) (files.read path)
  -- an unreadable file is reported as such, whatever its extension
  match Path.extension? path >>= DocumentFormat.ofExtension? with
  | some .json => orFail (.malformedDocument .json) (pure (Json.decode json text))
  | some .yaml => orFail (.malformedDocument .yaml) (pure (Yaml.decode yaml text))
  | none => throw (.unknownFormat path)

/-- The operations of the document at a path. -/
def loadOperations (files : Files m) (path : String) : Action m (List Operation) :=
  loadDocument files (readOperations Json.format) (readOperations Yaml.format) path

/-- The schemas of the document at a path, by name. -/
def loadSchemas (files : Files m) (path : String) : Action m (OrderedMap Schema) :=
  loadDocument files (readSchemaMap Json.format) (readSchemaMap Yaml.format) path

/-- The choices at a path. -/
def loadConfig (files : Files m) (path : String) : Action m Config := do
  let text ← orFail (.unreadableConfig path) (files.read path)
  match Config.ofText? text with
  | some config => return config
  | none => throw .malformedConfig

/-! ## Generating a client -/

/-- The choices with those of a request in place of the ones in the file. -/
def GenerateRequest.adjust (request : GenerateRequest) (config : Config) : Config where
  className := request.className.getD config.className
  sync := config.sync || request.sync
  extendedComment := config.extendedComment
  runtimeModule := request.runtimeModule <|> config.runtimeModule

/-- The choices of a request. -/
def GenerateRequest.loadConfig (files : Files m) (request : GenerateRequest) :
    Action m Config := do
  let config ← match request.config with
    | some path => TypedClient.loadConfig files path
    | none => pure {}
  return request.adjust config

/-- The text that a request generates. A strict request fails if an operation had to be
left out. -/
def GenerateRequest.generate (files : Files m) (request : GenerateRequest) :
    Action m String := do
  -- the choices come first, so that their faults win over those of the document
  let config ← request.loadConfig files
  let operations ← loadOperations files request.input
  let client := Client.generate operations config
  if request.strict && !client.isComplete then
    throw (.incomplete client.omissions.length operations.length)
  return client.render

/-- The text of the output at a path. A missing file is like an empty one. -/
def currentOutput (files : Files m) (path : String) : Action m String := do
  match ← files.read path with
  | .ok current => return current
  | .error .notFound => return ""
  | .error fault => throw (.unreadableOutput path fault)

/-- Compares the output at a path with a text. -/
def checkOutput (files : Files m) (path text : String) : PrintingAction m Unit := do
  match LineDiff.unified? path (← quietly (currentOutput files path)) text with
  | none => print (path ++ " is up to date\n")
  | some differences => throw (.staleOutput path differences)

/-- Makes the directories that lead to the file at a path. -/
def makeParent (files : Files m) (path : String) : Action m Unit := do
  if let some parent := Path.parent? path then
    if !parent.isEmpty then
      orFail (.uncreatableDirectory parent) (files.createDirectories parent)

/-- Writes a text to the file at a path, after the directories that lead to it were made. -/
def writeOutput (files : Files m) (path text : String) : PrintingAction m Unit := do
  quietly (makeParent files path)
  quietly (orFail (.unwritableOutput path) (files.write path text))
  print ("wrote " ++ path ++ "\n")

/-- Generates a client, and prints what there is to say about it: the client itself if it
has no other place to go. -/
def GenerateRequest.run (files : Files m) (request : GenerateRequest) :
    PrintingAction m Unit := do
  let text ← quietly (request.generate files)
  match request.output with
  | some path =>
    if request.check then checkOutput files path text else writeOutput files path text
  | none => print text

/-! ## Generating an interface -/

/-- The text of an interface. -/
def InterfaceRequest.run (files : Files m) (request : InterfaceRequest) :
    Action m String := do
  let schemas ← loadSchemas files request.schemas
  orFail .faultySchema (pure (interfaceText request.name schemas))

/-! ## The program -/

/-- How a run ends: with what it printed, or with a failure and what it printed before. -/
inductive Outcome
  | success (output : String)
  | failure (cause : Failure) (output : String := "")
  | notice (notice : Notice)
  deriving DecidableEq, Repr

/-- What a user may do. -/
def usage : String :=
  "Usage: clientgen [-v] <command> [options]\n\n"
    ++ "Commands:\n"
    ++ "  generate   Generate the client module\n"
    ++ "             -i, --input <file>, -c, --config <file>, -o, --output <file>,\n"
    ++ "             --class-name <name>, --runtime-module <module>,\n"
    ++ "             --sync, --strict, --check\n"
    ++ "  interface  Print an interface for a map of member schemas\n"
    ++ "             --name <name>, --schemas <file>\n"

/-- The name and the version of the program. -/
def versionText : String := "clientgen 0.1.0\n"

namespace Outcome

/-- The exit code of a run. -/
def exitCode : Outcome → Nat
  | success _ => 0
  | failure .. => 1
  | notice .misuse => 2
  | notice _ => 0

/-- What a run prints. -/
def output : Outcome → String
  | success output => output
  | failure _ output => output
  | notice .help => usage
  | notice .version => versionText
  | notice .misuse => ""

/-- What a run prints about its errors. -/
def errorOutput : Outcome → String
  | failure cause _ => cause.message ++ "\n"
  | notice .misuse => usage
  | _ => ""

end Outcome

/-- Executes a command. -/
def Command.run (files : Files m) : Command → PrintingAction m Unit
  | .generate request => request.run files
  | .interface request => do print (← quietly (request.run files))

/-- How the execution of a command ends. -/
def Command.outcome (files : Files m) (command : Command) : m Outcome := do
  match ← (command.run files).run.run "" with
  | (.ok _, output) => return .success output
  | (.error cause, output) => return .failure cause output

/-- A run of the program on a list of words. -/
def run (files : Files m) (words : List String) : m Outcome :=
  match Command.ofArguments words with
  | .error notice => pure (.notice notice)
  | .ok command => command.outcome files

end TypedClient
