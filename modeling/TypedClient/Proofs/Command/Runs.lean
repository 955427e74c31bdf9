import TypedClient.Proofs.Command.Effects
import TypedClient.Proofs.Command.Reading
import TypedClient.Proofs.Command.Strictness
import TypedClient.Proofs.Document.Spelling
import TypedClient.Proofs.Json.Reading

/-!
# Runs of the program

What a run of the program on some words does to the files of a file system. A run that fails leaves
every file as it was and prints nothing but its errors. A run that succeeds changes no file but the
output that its words name, and none where there is nothing to write. A strict run fails where an
operation is left out, and is like any other where none is.

## Main definitions

* `FileSystem.run`: how a run ends on a state of a file system, and the state after it
* `RunEffects`: what a run does and does not do

## Main results

* `run_effects`: every run on every file system keeps to this
-/

namespace TypedClient

open TypedClient.Action

/-- How a run of the program ends on a state, and the state after it. -/
def FileSystem.run {σ Place : Type} (sys : FileSystem σ Place) (words : List String) (s : σ) :
    Outcome × σ :=
  Id.run ((TypedClient.run sys.files words).run s)

/-- What a run of the program on some words does to the files of a state, and what it does not. -/
structure RunEffects {σ Place : Type} (sys : FileSystem σ Place) (words : List String) (s : σ) :
    Prop where
  /-- A run that fails changes no file and prints nothing. -/
  failed (h : (sys.run words s).1.exitCode ≠ 0) :
    sys.content? (sys.run words s).2 = sys.content? s ∧ (sys.run words s).1.output = ""
  /-- A run that succeeds changes no file but the output that it is to write. -/
  succeeded (h : (sys.run words s).1.exitCode = 0) {place : Place}
    (hplace : sys.content? (sys.run words s).2 place ≠ sys.content? s place) :
    ∃ request path, Command.ofArguments words = .ok (.generate request) ∧
      request.check = false ∧ request.output = some path ∧
        sys.place? (sys.run words s).2 path = some place
  /-- A strict run fails if an operation that it reads cannot be generated. -/
  strict_fails {request : GenerateRequest}
    (hwords : Command.ofArguments words = .ok (.generate request))
    (hstrict : request.strict = true) (homits : request.Omits sys.files s) :
    (sys.run words s).1.exitCode ≠ 0
  /-- Otherwise it ends as it does without strictness, on the same state. -/
  strict_same {request : GenerateRequest} {words' : List String}
    (hwords : Command.ofArguments words = .ok (.generate request))
    (hwords' : Command.ofArguments words' = .ok (.generate { request with strict := true }))
    (homits : ¬ request.Omits sys.files s) : sys.run words' s = sys.run words s
  /-- The switch makes a run strict and changes nothing else about it. -/
  strict_switch {request : GenerateRequest}
    (hwords : Command.ofArguments words = .ok (.generate request))
    (hlenient : request.strict = false) (hend : "--" ∉ words) :
    Command.ofArguments (words ++ ["--strict"]) = .ok (.generate { request with strict := true })

section Run

variable {σ Place : Type} {sys : FileSystem σ Place} {words : List String} {s : σ}

theorem run_of_command {command : Command} (h : Command.ofArguments words = .ok command) :
    sys.run words s = (((command.run sys.files).session "" s).outcome,
      ((command.run sys.files).session "" s).state) := by
  rw [← Command.on_eq, FileSystem.run, TypedClient.run, h]
  rfl

theorem run_of_notice {notice : Notice} (h : Command.ofArguments words = .error notice) :
    sys.run words s = (.notice notice, s) := by
  rw [FileSystem.run, TypedClient.run, h]
  rfl

/-- A run that fails changes no file and prints nothing. -/
theorem unchanged_of_failed (h : (sys.run words s).1.exitCode ≠ 0) :
    sys.content? (sys.run words s).2 = sys.content? s ∧ (sys.run words s).1.output = "" := by
  cases hwords : Command.ofArguments words with
  | error notice =>
    rw [run_of_notice hwords] at h ⊢
    cases notice with
    | help => exact absurd rfl h
    | version => exact absurd rfl h
    | misuse => exact ⟨rfl, rfl⟩
  | ok command =>
    rw [run_of_command hwords] at h ⊢
    cases hr : ((command.run sys.files).session "" s).result with
    | ok u => exact absurd (Session.exitCode_outcome_eq_zero.mpr hr) h
    | error cause =>
      -- what was printed when the command failed is what was printed before it began
      obtain ⟨hcontent, hprinted⟩ := (FileSystem.allOrNothing_command command).of_error hr
      exact ⟨hcontent, (Session.output_outcome _).trans hprinted⟩

/-- A file that a run changes is the output that it is to write. -/
theorem exists_output_of_changed {place : Place}
    (hplace : sys.content? (sys.run words s).2 place ≠ sys.content? s place) :
    ∃ request path, Command.ofArguments words = .ok (.generate request) ∧
      request.check = false ∧ request.output = some path ∧
        sys.place? (sys.run words s).2 path = some place := by
  cases hwords : Command.ofArguments words with
  | error notice =>
    rw [run_of_notice hwords] at hplace
    exact absurd rfl hplace
  | ok command =>
    rw [run_of_command hwords] at hplace ⊢
    obtain ⟨path, hpath, hresolve⟩ : ∃ path ∈ command.output?,
        sys.place? ((command.run sys.files).session "" s).state path = some place := by
      by_contra hnone
      exact hplace ((FileSystem.allOrNothing_command command).of_ne fun path hpath he =>
        hnone ⟨path, hpath, he⟩)
    obtain ⟨request, rfl, hcheck, houtput⟩ := Command.output?_eq_some.mp hpath
    exact ⟨request, path, rfl, hcheck, houtput, hresolve⟩

/-- A strict run fails where an operation is left out. -/
theorem exitCode_of_omits {request : GenerateRequest}
    (hwords : Command.ofArguments words = .ok (.generate request))
    (hstrict : request.strict = true) (homits : request.Omits sys.files s) :
    (sys.run words s).1.exitCode ≠ 0 := by
  obtain ⟨cause, hcause⟩ := GenerateRequest.exists_run_eq_error hstrict homits ""
  rw [run_of_command hwords]
  intro hexit
  exact absurd ((Session.exitCode_outcome_eq_zero.mp hexit).symm.trans hcause) nofun

/-- A strict run is like any other where no operation is left out. -/
theorem run_eq_of_not_omits {request : GenerateRequest} {words' : List String}
    (hwords : Command.ofArguments words = .ok (.generate request))
    (hwords' : Command.ofArguments words' = .ok (.generate { request with strict := true }))
    (homits : ¬ request.Omits sys.files s) : sys.run words' s = sys.run words s := by
  rw [run_of_command hwords, run_of_command hwords']
  change (((GenerateRequest.run sys.files _).session "" s).outcome,
    ((GenerateRequest.run sys.files _).session "" s).state) = _
  rw [GenerateRequest.session_run_strict homits]
  rfl

/-- **What a run does**, on every file system. -/
theorem run_effects (sys : FileSystem σ Place) (words : List String) (s : σ) :
    RunEffects sys words s where
  failed := unchanged_of_failed
  succeeded _ _ := exists_output_of_changed
  strict_fails := exitCode_of_omits
  strict_same := run_eq_of_not_omits
  strict_switch := ofArguments_append_strict

end Run

/-! ## An operation that is left out -/

/-- An operation with a parameter that has no place in its address. -/
def Operation.getFile : Operation where
  id := "get-file"
  httpMethod := .get
  uri := "/files"
  parameters := [{ name := "id", location := .path }]

/-- A document of this operation. -/
def getFileDocument : String :=
  "\x7b\"operations\": [\x7b\"operationId\": \"get-file\", \"httpMethod\": \"GET\","
    ++ "\"requestUri\": \"/files\","
    ++ "\"parameters\": [\x7b\"name\": \"id\", \"in\": \"path\"\x7d]\x7d]\x7d"

/-- A tree with this document. -/
def getFileTree : FileTree :=
  .directory [("ops.json", .file (.text getFileDocument))]

section Document

open Json

/-- The operation as a tree. -/
def getFileOperation : Json :=
  .record
    [("operationId", .string (some "get-file")), ("httpMethod", .string (some "GET")),
      ("requestUri", .string (some "/files")),
      ("parameters", .array
        [.record [("name", .string (some "id")), ("in", .string (some "path"))]])]

theorem getFile_writtenAs :
    (Json.record [("operations", .array [getFileOperation])]).WrittenAs getFileDocument := by
  have hparameter : Written
      (.record [("name", .string (some "id")), ("in", .string (some "path"))]) _ :=
    .object <| .spaced_more blanks_nil (by decide) (.string (.plain (by decide))) <|
      .spaced_last blanks_space (by decide) (.string (.plain (by decide)))
  have hop : Written getFileOperation _ :=
    .object <| .spaced_more blanks_nil (by decide) (.string (.plain (by decide))) <|
      .spaced_more blanks_space (by decide) (.string (.plain (by decide))) <|
      .spaced_more blanks_nil (by decide) (.string (.plain (by decide))) <|
      .spaced_last blanks_nil (by decide) (.array (.last blanks_nil hparameter blanks_nil))
  have hdocument : Written (.record [("operations", .array [getFileOperation])]) _ :=
    .object <| .spaced_last blanks_nil (by decide) (.array (.last blanks_nil hop blanks_nil))
  refine (?_ : String.ofList _ = getFileDocument) ▸ WrittenAs.mk blanks_nil hdocument blanks_nil
  decide +kernel

end Document

theorem decode_getFile :
    Json.decode (readOperations Json.format) getFileDocument = .ok [.getFile] :=
  Json.decode_of_writtenAs getFile_writtenAs rfl

theorem read_getFile : getFileTree.read "ops.json" = .ok getFileDocument := by
  have hsteps : Path.steps "ops.json" = [.down "ops.json"] := by decide
  rw [FileTree.read, hsteps]
  rfl

section Load

variable {request : GenerateRequest} {tree : FileTree}

theorem load_getFile (hread : tree.read "ops.json" = .ok getFileDocument)
    (hinput : request.input = "ops.json") (hconfig : request.config = none) :
    ((request.load FileTree.files).on tree).1 = .ok (request.adjust {}, [.getFile]) := by
  have hops : ((loadOperations FileTree.files "ops.json").on tree).1 = .ok [.getFile] := by
    rw [loadOperations, loadDocument_on_of_json hread (by decide), decode_getFile]
    rfl
  rw [GenerateRequest.load, on_bind, GenerateRequest.loadConfig, hconfig, hinput]
  change ((loadOperations FileTree.files "ops.json" >>= _).on tree).1 = _
  rw [on_bind, ← Prod.eta ((loadOperations FileTree.files "ops.json").on tree), hops]
  rfl

theorem omits_getFile (hinput : request.input = "ops.json") (hconfig : request.config = none) :
    request.Omits FileTree.files getFileTree :=
  ⟨request.adjust {}, [.getFile], load_getFile read_getFile hinput hconfig, .getFile,
    List.mem_singleton_self _, .undefinedParameter "id" "/files", rfl⟩

end Load

/-- A strict run fails on this tree, and changes nothing. -/
theorem run_effects_getFile :
    let words := ["generate", "-i", "ops.json", "-o", "client.ts"]
    let result := FileTree.fileSystem.run (words ++ ["--strict"]) getFileTree
    result.1.exitCode ≠ 0 ∧ result.1.output = "" ∧
      FileTree.fileSystem.content? result.2 = FileTree.fileSystem.content? getFileTree := by
  let request : GenerateRequest := { input := "ops.json", output := some "client.ts" }
  have hwords : Command.ofArguments ["generate", "-i", "ops.json", "-o", "client.ts"] =
      .ok (.generate request) := rfl
  have hstrict := (run_effects FileTree.fileSystem _ getFileTree).strict_switch hwords rfl
    (by decide)
  have homits : GenerateRequest.Omits FileTree.files { request with strict := true } getFileTree :=
    omits_getFile rfl rfl
  have heffects := run_effects FileTree.fileSystem
    (["generate", "-i", "ops.json", "-o", "client.ts"] ++ ["--strict"]) getFileTree
  have hexit := heffects.strict_fails hstrict rfl homits
  obtain ⟨hcontent, houtput⟩ := heffects.failed hexit
  exact ⟨hexit, houtput, hcontent⟩

end TypedClient
