import TypedClient.Proofs.Command.Action
import TypedClient.Proofs.Files.FileSystem

/-!
# What commands do to files

A command reads its files and prints, and one command may write a file. Whatever the file system
is, and wherever a command fails, the files are as they were after a failure and nothing was
printed; and after a success no file has changed but the one that the output was written to.

## Main definitions

* `FileSystem.Keeps`: an action leaves every file as it is
* `FileSystem.Confines`: an action changes one file only, and none if it fails
* `FileSystem.AllOrNothing`: an action that may print changes one file only, and neither changes a
  file nor prints anything if it fails
* `Command.output?`: the path of the file that a command may change

## Main results

* `FileSystem.Keeps.bind`, `FileSystem.Keeps.bind_allOrNothing`, `FileSystem.Confines.bind_print`:
  what chains of actions do
* `FileSystem.allOrNothing_writeOutput`: writing an output, with the directories that lead to it
* `FileSystem.allOrNothing_command`: a command that fails changes no file and prints nothing, and one
  that does not changes no file but its output
-/

namespace TypedClient

open TypedClient.Action TypedClient.PrintingAction

/-- The path of the file that a command may change. -/
def Command.output? : Command → Option String
  | .generate request => if request.check then none else request.output
  | .interface _ => none

theorem Command.output?_eq_some {command : Command} {path : String} :
    command.output? = some path ↔ ∃ request, command = .generate request ∧
      request.check = false ∧ request.output = some path := by
  cases command with
  | generate request => cases hcheck : request.check <;> simp [output?, hcheck]
  | interface request => simp [output?]

namespace FileSystem

variable {σ Place α β : Type} (sys : FileSystem σ Place)

/-! ## Actions that change no file, or only one -/

/-- An action that leaves the content of every file as it is. -/
def Keeps (x : Action (StateM σ) α) : Prop :=
  ∀ s, sys.content? (x.on s).2 = sys.content? s

/-- An action that changes nothing but the file that a path leads to, if there is a path, and not
even this file if it fails. -/
structure Confines (output : Option String) (x : Action (StateM σ) α) : Prop where
  of_error {s : σ} {cause : Failure} (h : (x.on s).1 = .error cause) :
    sys.content? (x.on s).2 = sys.content? s
  of_ne {s : σ} {place : Place} (h : ∀ path ∈ output, sys.place? (x.on s).2 path ≠ some place) :
    sys.content? (x.on s).2 place = sys.content? s place

/-- An action that may print, and that neither changes a file nor prints anything if it fails.
Otherwise it changes nothing but the file that a path leads to, if there is a path. -/
structure AllOrNothing (output : Option String) (x : PrintingAction (StateM σ) α) : Prop where
  of_error {printed : String} {s : σ} {cause : Failure}
    (h : (x.session printed s).result = .error cause) :
    sys.content? (x.session printed s).state = sys.content? s ∧
      (x.session printed s).printed = printed
  of_ne {printed : String} {s : σ} {place : Place}
    (h : ∀ path ∈ output, sys.place? (x.session printed s).state path ≠ some place) :
    sys.content? (x.session printed s).state place = sys.content? s place

section Actions

variable {sys} {output : Option String} {x : Action (StateM σ) α} {f : α → Action (StateM σ) β}
  {y : α → PrintingAction (StateM σ) β}

theorem keeps_pure (a : α) : sys.Keeps (pure a) :=
  fun _ => rfl

theorem keeps_throw (cause : Failure) : sys.Keeps (throw cause : Action (StateM σ) α) :=
  fun _ => rfl

theorem keeps_result {ε : Type} (failure : ε → Failure) (r : Except ε α) :
    sys.Keeps (orFail failure (pure r)) :=
  fun _ => rfl

theorem keeps_read (failure : FileFault → Failure) (path : String) :
    sys.Keeps (orFail failure (sys.files.read path)) :=
  fun s => sys.content?_read path s

theorem keeps_createDirectories (failure : FileFault → Failure) (path : String) :
    sys.Keeps (orFail failure (sys.files.createDirectories path)) :=
  fun s => sys.content?_createDirectories path s

/-- An action and then another one, both of which leave the files as they are. -/
theorem Keeps.bind (hx : sys.Keeps x) (hf : ∀ a, sys.Keeps (f a)) : sys.Keeps (x >>= f) := by
  intro s
  rcases on_bind_cases x f s with ⟨_, _, h⟩ | ⟨a, _, h⟩
  · rw [h, hx s]
  · rw [h, hf a, hx s]

theorem confines_write (failure : FileFault → Failure) (path text : String) :
    sys.Confines (some path) (orFail failure (sys.files.write path text)) where
  of_error {s cause} h := by
    rw [on_orFail] at h ⊢
    cases hw : (sys.files.write path text s).1 with
    | ok u =>
      rw [hw] at h
      cases h
    | error fault => exact sys.content?_write_of_error hw
  of_ne h := sys.content?_write_of_ne (h path rfl)

/-- Printing never fails, and changes no file. -/
theorem allOrNothing_print (text : String) : sys.AllOrNothing output (print text) where
  of_error h := by cases h
  of_ne _ := rfl

theorem allOrNothing_throw (cause : Failure) :
    sys.AllOrNothing output (throw cause : PrintingAction (StateM σ) α) where
  of_error _ := ⟨rfl, rfl⟩
  of_ne _ := rfl

/-- An action that changes no file comes before the one that may print. -/
theorem Keeps.bind_allOrNothing (hx : sys.Keeps x) (hy : ∀ a, sys.AllOrNothing output (y a)) :
    sys.AllOrNothing output (quietly x >>= y) where
  of_error {printed s _} herror := by
    rcases session_quietly_bind_cases x y printed s with ⟨_, _, h⟩ | ⟨a, _, h⟩
    · rw [h]
      exact ⟨hx s, rfl⟩
    · rw [h] at herror ⊢
      rw [((hy a).of_error herror).1, ((hy a).of_error herror).2, hx s]
      exact ⟨rfl, rfl⟩
  of_ne {printed s _} hne := by
    rcases session_quietly_bind_cases x y printed s with ⟨_, _, h⟩ | ⟨a, _, h⟩
    · rw [h, hx s]
    · rw [h] at hne ⊢
      rw [(hy a).of_ne hne, hx s]

/-- After an action that may change a file nothing is left that can fail. -/
theorem Confines.bind_print (hx : sys.Confines output x) (text : α → String) :
    sys.AllOrNothing output (quietly x >>= fun a => print (text a)) where
  of_error {printed s _} herror := by
    rcases session_quietly_bind_cases x (fun a => print (text a)) printed s with
      ⟨_, hcause, h⟩ | ⟨_, _, h⟩
    · rw [h]
      exact ⟨hx.of_error hcause, rfl⟩
    · -- printing does not fail
      rw [h] at herror
      cases herror
  of_ne {printed s _} hne := by
    rcases session_quietly_bind_cases x (fun a => print (text a)) printed s with
      ⟨_, _, h⟩ | ⟨_, _, h⟩
    · rw [h] at hne ⊢
      exact hx.of_ne hne
    · rw [h] at hne ⊢
      exact hx.of_ne hne

end Actions

/-! ## The parts of a command -/

variable {sys}

theorem keeps_loadDocument (json : Reader (Except ReadFault) Json α)
    (yaml : Reader Yaml.Reading Yaml.Part α) (path : String) :
    sys.Keeps (loadDocument sys.files json yaml path) := by
  unfold loadDocument
  refine (keeps_read _ path).bind fun text => ?_
  split
  · exact keeps_result _ _
  · exact keeps_result _ _
  · exact keeps_throw _

theorem keeps_loadConfig (request : GenerateRequest) :
    sys.Keeps (request.loadConfig sys.files) := by
  unfold GenerateRequest.loadConfig
  cases request.config with
  | none => exact keeps_pure _
  | some path =>
    refine Keeps.bind ?_ fun _ => keeps_pure _
    unfold loadConfig
    refine (keeps_read _ path).bind fun text => ?_
    split
    · exact keeps_pure _
    · exact keeps_throw _

theorem keeps_generate (request : GenerateRequest) : sys.Keeps (request.generate sys.files) := by
  unfold GenerateRequest.generate
  refine (keeps_loadConfig request).bind fun config => ?_
  refine (keeps_loadDocument _ _ _).bind fun operations => ?_
  dsimp only
  split
  · exact (keeps_throw _).bind fun _ => keeps_pure _
  · exact keeps_pure _

theorem keeps_currentOutput (path : String) : sys.Keeps (currentOutput sys.files path) := by
  have hread : sys.Keeps (liftM (sys.files.read path) : Action (StateM σ) _) :=
    fun s => sys.content?_read path s
  unfold currentOutput
  refine hread.bind fun r => ?_
  split
  · exact keeps_pure _
  · exact keeps_pure _
  · exact keeps_throw _

theorem keeps_makeParent (path : String) : sys.Keeps (makeParent sys.files path) := by
  unfold makeParent
  split
  · split
    · exact keeps_createDirectories _ _
    · exact keeps_pure _
  · exact keeps_pure _

/-- Comparing an output changes no file. -/
theorem allOrNothing_checkOutput (path text : String) :
    sys.AllOrNothing none (checkOutput sys.files path text) := by
  unfold checkOutput
  refine (keeps_currentOutput path).bind_allOrNothing fun current => ?_
  split
  · exact allOrNothing_print _
  · exact allOrNothing_throw _

/-- Directories are made before a text is written, and it is said to be written after it was. -/
theorem allOrNothing_writeOutput (path text : String) :
    sys.AllOrNothing (some path) (writeOutput sys.files path text) :=
  (keeps_makeParent path).bind_allOrNothing fun _ =>
    (confines_write _ path text).bind_print fun _ => "wrote " ++ path ++ "\n"

/-- **A generation changes no file but its output**, and none if it is to check. -/
theorem allOrNothing_generate (request : GenerateRequest) :
    sys.AllOrNothing (if request.check then none else request.output) (request.run sys.files) := by
  unfold GenerateRequest.run
  refine (keeps_generate request).bind_allOrNothing fun text => ?_
  cases request.output with
  | none =>
    rw [ite_self]
    exact allOrNothing_print text
  | some path =>
    cases request.check with
    | true => exact allOrNothing_checkOutput path text
    | false => exact allOrNothing_writeOutput path text

theorem keeps_interface (request : InterfaceRequest) : sys.Keeps (request.run sys.files) :=
  (keeps_loadDocument _ _ _).bind fun _ => keeps_result _ _

/-- **A command changes no file but its output**, and neither changes a file nor prints anything if
it fails. -/
theorem allOrNothing_command (command : Command) :
    sys.AllOrNothing command.output? (command.run sys.files) := by
  cases command with
  | generate request => exact allOrNothing_generate request
  | interface request =>
    exact (keeps_interface request).bind_allOrNothing fun text => allOrNothing_print text

end FileSystem

end TypedClient
