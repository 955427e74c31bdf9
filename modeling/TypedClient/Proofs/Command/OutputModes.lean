import TypedClient.Proofs.Command.Output

/-!
# What is done with a generated client

A client that was generated is printed, written to a file, or compared with what a file holds.
The three agree on every file system in which reading shows the contents of files: what is written is
what would be printed, the comparison succeeds just when the file holds what would be printed, and
both of these change nothing.

Whether the comparison succeeds just when writing would change no file depends on the file. A file
that can be read may refuse to be written. A device may take every text and keep none. And since
writing makes the directories on the way to the file, a path that leads back from a directory that is
not there can be written to but not be read. Where none of these is the case, the two agree, and after
the client was written the comparison succeeds.

## Main definitions

* `GenerateRequest.outcomeOn`: how the generation of a client ends on a state
* `GenerateRequest.printed`, `GenerateRequest.written`, `GenerateRequest.checked`: a request with
  one of the three things to do with the client
* `CheckedIffWritten`: comparing succeeds just when writing changes no file
* `OutputModesAgree`: how the three go together

## Main results

* `GenerateRequest.exitCode_written`, `GenerateRequest.exitCode_checked`: when a client is written,
  and when the comparison succeeds
* `output_modes_agree`: the three agree
* `output_modes_disagree`: a path that cannot be followed, a file that cannot be written, and one that
  keeps nothing
-/

namespace TypedClient

open TypedClient.Action TypedClient.PrintingAction

/-! ## The text of a client -/

theorem TypeScript.ClassDecl.print_ne_empty (c : TypeScript.ClassDecl) : c.print ≠ "" := by
  simp [TypeScript.ClassDecl.print]

theorem Client.render_ne_empty (ops : List Operation) (config : Config) :
    (Client.generate ops config).render ≠ "" := by
  simp [Client.generate, Client.render, TypeScript.SourceModule.print,
    TypeScript.ClassDecl.print_ne_empty]

/-! ## The three things to do with a client -/

section Modes

variable {σ Place : Type}

namespace GenerateRequest

/-- How the generation of a client ends on a state, and the state after it. -/
def outcomeOn (sys : FileSystem σ Place) (request : GenerateRequest) (s : σ) : Outcome × σ :=
  Command.on sys.files (.generate request) s

/-- The request to print the client. -/
def printed (request : GenerateRequest) : GenerateRequest :=
  { request with output := none, check := false }

/-- The request to write the client to a file. -/
def written (request : GenerateRequest) (path : String) : GenerateRequest :=
  { request with output := some path, check := false }

/-- The request to compare the client with a file. -/
def checked (request : GenerateRequest) (path : String) : GenerateRequest :=
  { request with output := some path, check := true }

section Run

variable {sys : FileSystem σ Place} {request : GenerateRequest} {path text : String}
  {cause : Failure} {s : σ}

theorem outcomeOn_eq (request : GenerateRequest) (s : σ) :
    request.outcomeOn sys s = (((request.run sys.files).session "" s).outcome,
      ((request.run sys.files).session "" s).state) :=
  Command.on_eq sys.files (.generate request) s

/-- A client that could not be generated is neither printed nor written nor compared. -/
theorem outcomeOn_of_error (hlegible : sys.Legible)
    (h : ((request.generate sys.files).on s).1 = .error cause) :
    request.outcomeOn sys s = (.failure cause, s) := by
  rw [outcomeOn_eq, run, session_quietly_bind_of_error h,
    (request.readsOnly_generate hlegible).state]
  rfl

/-- What is done with the client comes after its generation. -/
theorem session_quietly_generate (hlegible : sys.Legible)
    (h : ((request.generate sys.files).on s).1 = .ok text)
    (f : String → PrintingAction (StateM σ) Unit) :
    (quietly (request.generate sys.files) >>= f).session "" s = (f text).session "" s := by
  rw [session_quietly_bind_of_ok h, (request.readsOnly_generate hlegible).state]

theorem outcomeOn_printed (hlegible : sys.Legible)
    (h : ((request.generate sys.files).on s).1 = .ok text) :
    request.printed.outcomeOn sys s = (.success text, s) := by
  have hsession : (request.printed.run sys.files).session "" s = (print text).session "" s :=
    session_quietly_generate hlegible h _
  rw [outcomeOn_eq, hsession, session_print, String.empty_append]
  rfl

theorem outcomeOn_written (hlegible : sys.Legible)
    (h : ((request.generate sys.files).on s).1 = .ok text) :
    (request.written path).outcomeOn sys s =
      (((writeOutput sys.files path text).session "" s).outcome,
        ((writeOutput sys.files path text).session "" s).state) := by
  have hsession : ((request.written path).run sys.files).session "" s =
      (writeOutput sys.files path text).session "" s := session_quietly_generate hlegible h _
  rw [outcomeOn_eq, hsession]

theorem outcomeOn_checked (hlegible : sys.Legible)
    (h : ((request.generate sys.files).on s).1 = .ok text) :
    (request.checked path).outcomeOn sys s =
      (((checkOutput sys.files path text).session "" s).outcome, s) := by
  have hsession : ((request.checked path).run sys.files).session "" s =
      (checkOutput sys.files path text).session "" s := session_quietly_generate hlegible h _
  rw [outcomeOn_eq, hsession, state_checkOutput hlegible]

/-- The text of a client is not empty. -/
theorem ne_empty_of_generate (hlegible : sys.Legible)
    (h : ((request.generate sys.files).on s).1 = .ok text) : text ≠ "" := by
  obtain ⟨config, _, ops, _, _, rfl⟩ := (generate_eq_ok hlegible).mp h
  exact Client.render_ne_empty ops config

/-- The client was written just when a state comes of it. -/
theorem exitCode_written (hlegible : sys.Legible)
    (h : ((request.generate sys.files).on s).1 = .ok text) :
    ((request.written path).outcomeOn sys s).1.exitCode = 0 ↔
      sys.WrittenAt path text s ((request.written path).outcomeOn sys s).2 := by
  rw [outcomeOn_written hlegible h, Session.exitCode_outcome_eq_zero]
  exact result_writeOutput_eq_ok ""

theorem outcomeOn_written_of_writtenAt {s' : σ} (hlegible : sys.Legible)
    (h : ((request.generate sys.files).on s).1 = .ok text) (hw : sys.WrittenAt path text s s') :
    ((request.written path).outcomeOn sys s).1.exitCode = 0 ∧
      ((request.written path).outcomeOn sys s).2 = s' := by
  rw [outcomeOn_written hlegible h, writeOutput_session_of_writtenAt hw]
  exact ⟨rfl, rfl⟩

/-- The comparison succeeds just when the file holds the client. -/
theorem exitCode_checked (hlegible : sys.Legible)
    (h : ((request.generate sys.files).on s).1 = .ok text) :
    ((request.checked path).outcomeOn sys s).1.exitCode = 0 ↔
      (sys.files.read path s).1 = .ok text := by
  rw [outcomeOn_checked hlegible h, Session.exitCode_outcome_eq_zero]
  exact result_checkOutput_eq_ok hlegible (ne_empty_of_generate hlegible h) ""

end Run

end GenerateRequest

/-! ## How the three go together -/

open TypedClient.GenerateRequest

/-- Comparing succeeds just when writing succeeds and changes no file. -/
def CheckedIffWritten (sys : FileSystem σ Place) (request : GenerateRequest) (path : String)
    (s : σ) : Prop :=
  ((request.checked path).outcomeOn sys s).1.exitCode = 0 ↔
    ((request.written path).outcomeOn sys s).1.exitCode = 0 ∧
      sys.content? ((request.written path).outcomeOn sys s).2 = sys.content? s

/-- What holds of the three things to do with the client of a request, on a state of a file
system. -/
structure OutputModesAgree (sys : FileSystem σ Place) (request : GenerateRequest) (path : String)
    (s : σ) : Prop where
  /-- If no client is generated, all three fail in the same way. -/
  fails (h : (request.printed.outcomeOn sys s).1.exitCode ≠ 0) :
    (request.written path).outcomeOn sys s = request.printed.outcomeOn sys s ∧
      (request.checked path).outcomeOn sys s = request.printed.outcomeOn sys s
  /-- Printing changes nothing. -/
  printed_state : (request.printed.outcomeOn sys s).2 = s
  /-- Comparing changes nothing. -/
  checked_state : ((request.checked path).outcomeOn sys s).2 = s
  /-- Comparing succeeds just when the file holds what is printed. -/
  checked_iff_read : ((request.checked path).outcomeOn sys s).1.exitCode = 0 ↔
    (request.printed.outcomeOn sys s).1.exitCode = 0 ∧
      (sys.files.read path s).1 = .ok (request.printed.outcomeOn sys s).1.output
  /-- A file that is missing or holds another text is stale. -/
  stale (h : (request.printed.outcomeOn sys s).1.exitCode = 0)
    (hread : (sys.files.read path s).1 = .error .notFound ∨
      ∃ current, (sys.files.read path s).1 = .ok current ∧
        current ≠ (request.printed.outcomeOn sys s).1.output) :
    ∃ differences,
      ((request.checked path).outcomeOn sys s).1 = .failure (.staleOutput path differences)
  /-- A file that cannot be read for another reason, such as one that holds no text, is
  unreadable. -/
  unreadable (h : (request.printed.outcomeOn sys s).1.exitCode = 0) {fault : FileFault}
    (hfault : fault ≠ .notFound) (hread : (sys.files.read path s).1 = .error fault) :
    ((request.checked path).outcomeOn sys s).1 = .failure (.unreadableOutput path fault)
  /-- Writing succeeds just when what is printed can be written, and this is what is written. -/
  written_iff : ((request.written path).outcomeOn sys s).1.exitCode = 0 ↔
    (request.printed.outcomeOn sys s).1.exitCode = 0 ∧
      sys.WrittenAt path (request.printed.outcomeOn sys s).1.output s
        ((request.written path).outcomeOn sys s).2
  /-- Where comparing succeeds, writing succeeds and changes no file, if the file can be written and
  gives back what was written. -/
  written_of_checked (hupdate : sys.Updatable path s)
    (hback : sys.ReadsBack path (sys.made path s))
    (h : ((request.checked path).outcomeOn sys s).1.exitCode = 0) :
    ((request.written path).outcomeOn sys s).1.exitCode = 0 ∧
      sys.content? ((request.written path).outcomeOn sys s).2 = sys.content? s
  /-- Where writing succeeds and changes no file, comparing succeeds, if the file gives back what was
  written and its path could be followed before. If writing changes nothing at all, not even a
  directory, the path need not be looked at. -/
  checked_of_written (hback : sys.ReadsBack path (sys.made path s))
    (h : ((request.written path).outcomeOn sys s).1.exitCode = 0)
    (hsame : ((request.written path).outcomeOn sys s).2 = s ∨
      (sys.place? s path).isSome ∧
        sys.content? ((request.written path).outcomeOn sys s).2 = sys.content? s) :
    ((request.checked path).outcomeOn sys s).1.exitCode = 0
  /-- Comparing succeeds just when writing succeeds and changes no file, where all of this is the
  case. -/
  checked_iff_written (hupdate : sys.Updatable path s)
    (hback : sys.ReadsBack path (sys.made path s)) (hpath : (sys.place? s path).isSome) :
    CheckedIffWritten sys request path s
  /-- After writing, the file holds what is printed. -/
  read_after (hback : sys.ReadsBack path (sys.made path s))
    (h : ((request.written path).outcomeOn sys s).1.exitCode = 0) :
    (sys.files.read path ((request.written path).outcomeOn sys s).2).1 =
      .ok (request.printed.outcomeOn sys s).1.output
  /-- After writing to a file that is no source, comparing succeeds. -/
  checked_after (hback : sys.ReadsBack path (sys.made path s))
    (h : ((request.written path).outcomeOn sys s).1.exitCode = 0)
    (hplace : ∀ source ∈ request.sources,
      sys.place? ((request.written path).outcomeOn sys s).2 path ≠
        sys.place? ((request.written path).outcomeOn sys s).2 source) :
    ((request.checked path).outcomeOn sys
      ((request.written path).outcomeOn sys s).2).1.exitCode = 0

section Agree

variable {sys : FileSystem σ Place} {request : GenerateRequest} {path text : String}
  {cause : Failure} {s : σ}

theorem outputModesAgree_of_error (hlegible : sys.Legible)
    (hgen : ((request.generate sys.files).on s).1 = .error cause) :
    OutputModesAgree sys request path s := by
  have hprinted : request.printed.outcomeOn sys s = (.failure cause, s) :=
    outcomeOn_of_error hlegible hgen
  have hwritten : (request.written path).outcomeOn sys s = (.failure cause, s) :=
    outcomeOn_of_error hlegible hgen
  have hchecked : (request.checked path).outcomeOn sys s = (.failure cause, s) :=
    outcomeOn_of_error hlegible hgen
  constructor
  all_goals simp [hprinted, hwritten, hchecked, Outcome.exitCode, CheckedIffWritten]

/-- Where comparing succeeds, the file holds the client, so that writing puts there what is there. -/
theorem written_of_checked (hlegible : sys.Legible)
    (hgen : ((request.generate sys.files).on s).1 = .ok text) (hupdate : sys.Updatable path s)
    (hback : sys.ReadsBack path (sys.made path s))
    (h : ((request.checked path).outcomeOn sys s).1.exitCode = 0) :
    ((request.written path).outcomeOn sys s).1.exitCode = 0 ∧
      sys.content? ((request.written path).outcomeOn sys s).2 = sys.content? s := by
  have hread := (exitCode_checked hlegible hgen).mp h
  have hw := FileSystem.writtenAt_of_read hlegible hupdate hread
  obtain ⟨hexit, hstate⟩ := outcomeOn_written_of_writtenAt hlegible hgen hw
  rw [hstate]
  exact ⟨hexit, hw.content?_of_read hlegible hback hread⟩

/-- What can be read after writing could be read before if writing changed nothing. -/
theorem checked_of_written (hlegible : sys.Legible)
    (hgen : ((request.generate sys.files).on s).1 = .ok text)
    (hback : sys.ReadsBack path (sys.made path s))
    (h : ((request.written path).outcomeOn sys s).1.exitCode = 0)
    (hsame : ((request.written path).outcomeOn sys s).2 = s ∨
      (sys.place? s path).isSome ∧
        sys.content? ((request.written path).outcomeOn sys s).2 = sys.content? s) :
    ((request.checked path).outcomeOn sys s).1.exitCode = 0 := by
  have hw := (exitCode_written hlegible hgen).mp h
  refine (exitCode_checked hlegible hgen).mpr ?_
  rcases hsame with hstate | ⟨hpath, hcontent⟩
  · have hread := hw.read hback
    rwa [hstate] at hread
  · exact hw.read_of_content? hlegible hback hpath hcontent

theorem outputModesAgree_of_ok (hlegible : sys.Legible)
    (hgen : ((request.generate sys.files).on s).1 = .ok text) :
    OutputModesAgree sys request path s where
  fails h := by
    rw [outcomeOn_printed hlegible hgen] at h
    exact absurd rfl h
  printed_state := by rw [outcomeOn_printed hlegible hgen]
  checked_state := by rw [outcomeOn_checked hlegible hgen]
  checked_iff_read := by
    rw [exitCode_checked hlegible hgen, outcomeOn_printed hlegible hgen]
    exact (and_iff_right rfl).symm
  stale _ hread := by
    rw [outcomeOn_printed hlegible hgen] at hread
    obtain ⟨differences, hstale⟩ :=
      exists_checkOutput_eq_stale hlegible (ne_empty_of_generate hlegible hgen) hread ""
    rw [outcomeOn_checked hlegible hgen, hstale]
    exact ⟨differences, rfl⟩
  unreadable _ fault hfault hread := by
    rw [outcomeOn_checked hlegible hgen, checkOutput_of_fault hlegible hfault hread]
    rfl
  written_iff := by
    rw [exitCode_written hlegible hgen, outcomeOn_printed hlegible hgen]
    exact (and_iff_right rfl).symm
  written_of_checked := written_of_checked hlegible hgen
  checked_of_written := checked_of_written hlegible hgen
  checked_iff_written hupdate hback hpath :=
    ⟨written_of_checked hlegible hgen hupdate hback,
      fun h => checked_of_written hlegible hgen hback h.1 (Or.inr ⟨hpath, h.2⟩)⟩
  read_after hback h := by
    rw [outcomeOn_printed hlegible hgen]
    exact ((exitCode_written hlegible hgen).mp h).read hback
  checked_after hback h hplace := by
    -- the sources can still be read, so the same client is generated once more
    have hw := (exitCode_written hlegible hgen).mp h
    have hgen' := (request.readsOnly_generate hlegible).result hgen
      (hw.keepsTexts hlegible hplace)
    exact (exitCode_checked hlegible hgen').mpr (hw.read hback)

/-- **The three things to do with a client agree**, on every file system in which reading shows the
contents of files. -/
theorem output_modes_agree (hlegible : sys.Legible) (request : GenerateRequest) (path : String)
    (s : σ) : OutputModesAgree sys request path s := by
  cases hgen : ((request.generate sys.files).on s).1 with
  | error cause => exact outputModesAgree_of_error hlegible hgen
  | ok text => exact outputModesAgree_of_ok hlegible hgen

end Agree

/-! ## An empty document -/

/-- The client of an empty document. -/
theorem generate_emptyDocument {sys : FileSystem σ Place} (hlegible : sys.Legible) {s : σ}
    (hread : (sys.files.read "ops.json" s).1 = .ok "\x7b\x7d") :
    ((GenerateRequest.generate sys.files { input := "ops.json" }).on s).1 =
      .ok (Client.generate [] {}).render := by
  have hdecode : Json.decode (readOperations Json.format) "\x7b\x7d" = .ok [] := rfl
  refine (GenerateRequest.generate_eq_ok hlegible).mpr
    ⟨{}, rfl, [], ?_, fun h => absurd h Bool.false_ne_true, rfl⟩
  rw [loadOperations, loadDocument_on_of_json hread (by decide), hdecode]
  rfl

end Modes

section EmptyDocument

open FileTree

variable {text : String}

/-- A tree with an empty document, and a text in another file. -/
def emptyDocumentTree (text : String) : FileTree :=
  .directory [("ops.json", .file (.text "\x7b\x7d")), ("out.ts", .file (.text text))]

/-- The files of trees, where the file `out.ts` deals by a rule with the texts that are written. -/
def outputGuarded (rule : FileSystem.WriteRule) : FileSystem FileTree (List String) :=
  fileSystem.guarded fun names => if names = ["out.ts"] then rule else .keep

theorem legible_outputGuarded (rule : FileSystem.WriteRule) : (outputGuarded rule).Legible :=
  legible_fileSystem.guarded _

theorem steps_input : Path.steps "ops.json" = [.down "ops.json"] := by
  decide

theorem steps_output : Path.steps "out.ts" = [.down "out.ts"] := by
  decide

theorem steps_fresh : Path.steps "client.ts" = [.down "client.ts"] := by
  decide

theorem steps_unfollowed : Path.steps "a/../out.ts" = [.down "a", .up, .down "out.ts"] := by
  decide

theorem read_input : (emptyDocumentTree text).read "ops.json" = .ok "\x7b\x7d" := by
  rw [FileTree.read, steps_input]
  rfl

theorem read_output : (emptyDocumentTree text).read "out.ts" = .ok text := by
  rw [FileTree.read, steps_output]
  rfl

theorem read_fresh : (emptyDocumentTree text).read "client.ts" = .error .notFound := by
  rw [FileTree.read, steps_fresh]
  rfl

theorem read_unfollowed : (emptyDocumentTree text).read "a/../out.ts" = .error .notFound := by
  rw [FileTree.read, steps_unfollowed]
  rfl

theorem write_outputGuarded_refuse (fault : FileFault) (new : String) (t : FileTree) :
    (outputGuarded (.refuse fault)).files.write "out.ts" new t = (.error fault, t) :=
  FileSystem.write_guarded_of_refuse fileSystem (placeOf?_of_steps steps_output t) (if_pos rfl)

theorem write_outputGuarded_discard (new : String) (t : FileTree) :
    (outputGuarded .discard).files.write "out.ts" new t = (.ok (), t) :=
  FileSystem.write_guarded_of_discard fileSystem (placeOf?_of_steps steps_output t) (if_pos rfl)

/-- The tree in which the directory that the path leads back from is there. -/
def followedTree (text : String) : FileTree :=
  .directory [("ops.json", .file (.text "\x7b\x7d")), ("out.ts", .file (.text text)), ("a", .empty)]

theorem makeParent_unfollowed :
    (makeParent fileSystem.files "a/../out.ts").on (emptyDocumentTree text) =
      (.ok (), followedTree text) := by
  have hparent : Path.parent? "a/../out.ts" = some "a/.." := by decide
  have hsteps : (Path.partSteps "a/..".toList).reverse = [.up, .down "a"] := by decide
  have hmake : fileSystem.files.createDirectories "a/.." (emptyDocumentTree text) =
      (.ok (), followedTree text) := by
    change makeAlong (Path.partSteps "a/..".toList).reverse (emptyDocumentTree text) = _
    rw [hsteps]
    rfl
  rw [makeParent, hparent]
  change (orFail _ (fileSystem.files.createDirectories "a/..")).on _ = _
  rw [on_orFail, hmake]
  rfl

/-- Writing the text that is there makes the missing directory and changes nothing else. -/
theorem writtenAt_unfollowed :
    fileSystem.WrittenAt "a/../out.ts" text (emptyDocumentTree text) (followedTree text) where
  made := by rw [makeParent_unfollowed]
  write := by
    rw [FileSystem.made, makeParent_unfollowed]
    change files.write "a/../out.ts" text (followedTree text) = _
    rw [files_write_eq, putAt?, steps_unfollowed]
    rfl

/-- A file of its own is no source, and can be written. -/
theorem exists_writtenAt_fresh (new : String) :
    ∃ t', fileSystem.WrittenAt "client.ts" new (emptyDocumentTree text) t' := by
  have hparent : Path.parent? "client.ts" = some "" := by decide
  have hmade : (makeParent fileSystem.files "client.ts").on (emptyDocumentTree text) =
      (.ok (), emptyDocumentTree text) := by
    rw [makeParent, hparent]
    rfl
  obtain ⟨t', hput⟩ : ∃ t', (emptyDocumentTree text).putAt? (.text new) "client.ts" = .ok t' := by
    rw [putAt?, steps_fresh]
    exact ⟨_, rfl⟩
  refine ⟨t', congrArg Prod.fst hmade, ?_⟩
  rw [FileSystem.made, hmade]
  change files.write "client.ts" new (emptyDocumentTree text) = _
  rw [files_write_eq, hput]

end EmptyDocument

section Runs

open TypedClient.GenerateRequest FileTree

/-- A client that is missing is stale. It can be written, is up to date then, and writing it once more
changes no file. -/
theorem output_modes_agree_emptyDocument :
    let sys := fileSystem
    let request : GenerateRequest := { input := "ops.json" }
    let t := emptyDocumentTree ""
    let t' := ((request.written "client.ts").outcomeOn sys t).2
    ((request.checked "client.ts").outcomeOn sys t).1.exitCode ≠ 0 ∧
      ((request.written "client.ts").outcomeOn sys t).1.exitCode = 0 ∧
        ((request.checked "client.ts").outcomeOn sys t').1.exitCode = 0 ∧
          ((request.written "client.ts").outcomeOn sys t').1.exitCode = 0 ∧
            sys.content? ((request.written "client.ts").outcomeOn sys t').2 = sys.content? t' := by
  intro sys request t t'
  have hlegible : sys.Legible := legible_fileSystem
  -- the path leads neither to the document nor back from a directory
  have hplaces (t : FileTree) : sys.place? t "client.ts" ≠ sys.place? t "ops.json" := by
    change t.placeOf? "client.ts" ≠ t.placeOf? "ops.json"
    rw [placeOf?_of_steps steps_fresh, placeOf?_of_steps steps_input]
    decide
  have hpath : (sys.place? t' "client.ts").isSome := by
    refine isSome_place?_of_up_notMem t' ?_
    rw [steps_fresh]
    decide
  have hgen : ((request.generate sys.files).on t).1 = .ok (Client.generate [] {}).render :=
    generate_emptyDocument hlegible read_input
  have hagree := output_modes_agree hlegible request "client.ts" t
  obtain ⟨made, hwritten⟩ := exists_writtenAt_fresh (Client.generate [] {}).render
  have hexit := (outcomeOn_written_of_writtenAt hlegible hgen hwritten).1
  obtain ⟨differences, hstale⟩ := hagree.stale (hagree.written_iff.mp hexit).1 (Or.inl read_fresh)
  have hchecked := hagree.checked_after (readsBack_fileSystem _ _) hexit
    (List.forall_mem_singleton.mpr (hplaces _))
  have hagain := output_modes_agree hlegible request "client.ts" t'
  obtain ⟨hexit', hsame⟩ := (hagain.checked_iff_written (updatable_fileSystem _ _)
    (readsBack_fileSystem _ _) hpath).mp hchecked
  refine ⟨?_, hexit, hchecked, hexit', hsame⟩
  rw [hstale]
  exact Nat.one_ne_zero

/-- A path that leads back from a directory that is not there can be written to but not be read:
writing changes no file, and yet comparing fails. -/
theorem checked_fails_of_unfollowed :
    let sys := fileSystem
    let request : GenerateRequest := { input := "ops.json" }
    let t := emptyDocumentTree (Client.generate [] {}).render
    ((request.written "a/../out.ts").outcomeOn sys t).1.exitCode = 0 ∧
      sys.content? ((request.written "a/../out.ts").outcomeOn sys t).2 = sys.content? t ∧
        ((request.checked "a/../out.ts").outcomeOn sys t).1.exitCode ≠ 0 := by
  intro sys request t
  have hlegible : sys.Legible := legible_fileSystem
  have hgen : ((request.generate sys.files).on t).1 = .ok (Client.generate [] {}).render :=
    generate_emptyDocument hlegible read_input
  obtain ⟨hexit, hstate⟩ := outcomeOn_written_of_writtenAt hlegible hgen writtenAt_unfollowed
  refine ⟨hexit, ?_, fun h => ?_⟩
  · -- all that was made is the directory
    have hmade : sys.made "a/../out.ts" t = followedTree _ := congrArg Prod.snd makeParent_unfollowed
    rw [hstate, ← hmade, FileSystem.content?_made]
  · exact absurd (read_unfollowed.symm.trans ((exitCode_checked hlegible hgen).mp h)) nofun

/-- A file that is only to be read can be compared but not be written. -/
theorem written_fails_of_refused :
    let sys := outputGuarded (.refuse (.other "Permission denied (os error 13)"))
    let request : GenerateRequest := { input := "ops.json" }
    let t := emptyDocumentTree (Client.generate [] {}).render
    ((request.checked "out.ts").outcomeOn sys t).1.exitCode = 0 ∧
      ((request.written "out.ts").outcomeOn sys t).1.exitCode ≠ 0 := by
  intro sys request t
  have hlegible : sys.Legible := legible_outputGuarded _
  have hgen : ((request.generate sys.files).on t).1 = .ok (Client.generate [] {}).render :=
    generate_emptyDocument hlegible read_input
  refine ⟨(exitCode_checked hlegible hgen).mpr read_output, fun h => ?_⟩
  have hwrite := congrArg Prod.fst ((exitCode_written hlegible hgen).mp h).write
  rw [write_outputGuarded_refuse] at hwrite
  cases hwrite

/-- A file that takes every text and keeps none is written without a change, and is stale. -/
theorem checked_fails_of_discarded :
    let sys := outputGuarded .discard
    let request : GenerateRequest := { input := "ops.json" }
    let t := emptyDocumentTree ""
    ((request.written "out.ts").outcomeOn sys t).1.exitCode = 0 ∧
      ((request.written "out.ts").outcomeOn sys t).2 = t ∧
        ((request.checked "out.ts").outcomeOn sys t).1.exitCode ≠ 0 := by
  intro sys request t
  have hlegible : sys.Legible := legible_outputGuarded _
  have hgen : ((request.generate sys.files).on t).1 = .ok (Client.generate [] {}).render :=
    generate_emptyDocument hlegible read_input
  have hread : (sys.files.read "out.ts" t).1 = .ok "" := read_output
  have hmade : sys.made "out.ts" t = t := FileSystem.made_of_read hlegible hread
  have hwritten : sys.WrittenAt "out.ts" (Client.generate [] {}).render t t :=
    ⟨congrArg Prod.fst (FileSystem.makeParent_of_read hlegible hread), by
      rw [hmade]
      exact write_outputGuarded_discard _ t⟩
  obtain ⟨hexit, hstate⟩ := outcomeOn_written_of_writtenAt hlegible hgen hwritten
  refine ⟨hexit, hstate, fun h => ?_⟩
  have hsame := hread.symm.trans ((exitCode_checked hlegible hgen).mp h)
  exact Client.render_ne_empty [] {} (Except.ok.inj hsame).symm

/-- **The three do not agree on every file**: on a path that cannot be followed, on a file that cannot
be written, and on one that keeps nothing. -/
theorem output_modes_disagree :
    let request : GenerateRequest := { input := "ops.json" }
    let client := (Client.generate [] {}).render
    let denied : FileFault := .other "Permission denied (os error 13)"
    ¬ CheckedIffWritten fileSystem request "a/../out.ts" (emptyDocumentTree client) ∧
      ¬ CheckedIffWritten (outputGuarded (.refuse denied)) request "out.ts"
          (emptyDocumentTree client) ∧
        ¬ CheckedIffWritten (outputGuarded .discard) request "out.ts" (emptyDocumentTree "") := by
  refine ⟨fun h => ?_, fun h => ?_, fun h => ?_⟩
  · obtain ⟨hexit, hsame, hfails⟩ := checked_fails_of_unfollowed
    exact hfails (h.mpr ⟨hexit, hsame⟩)
  · obtain ⟨hexit, hfails⟩ := written_fails_of_refused
    exact hfails (h.mp hexit).1
  · obtain ⟨hexit, hstate, hfails⟩ := checked_fails_of_discarded
    exact hfails (h.mpr ⟨hexit, by rw [hstate]⟩)

end Runs

end TypedClient
