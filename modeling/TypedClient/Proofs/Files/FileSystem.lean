import TypedClient.Proofs.Files.Tree

/-!
# File systems

What a command may take for granted about the files that it works on, whatever they are kept in:
reading a file and making directories leave the content of every file as it is, and writing a text
either fails and leaves it as well, or changes the content at the place that its path leads to.
Any action may fail for reasons of its own.

More can be said of files that are plain texts. What is read is then the content of the file, and
making directories or writing another file does not hide it. Even so a file may be read and not be
written, or take a text and not give it back: both are said of a single path.

## Main definitions

* `FileSystem`: actions on files that keep to this, with the places and contents of files
* `FileSystem.Legible`: reading shows the contents of files
* `FileSystem.ReadsBack`, `FileSystem.Updatable`: what is written to a path is read back, and a file
  that can be read can be written
* `FileSystem.guarded`: a file system in which some files refuse or discard what is written to them
* `FileTree.fileSystem`: the file system of trees of files

## Main results

* `FileSystem.Legible.guarded`: a file that refuses or discards texts is still legible
* `FileTree.legible_fileSystem`, `FileTree.readsBack_fileSystem`, `FileTree.updatable_fileSystem`:
  trees of files are legible, and all of their files can be written and are read back
-/

namespace TypedClient

/-- A file system: actions on the files of a state, the contents of the files, and the places that
paths lead to. -/
structure FileSystem (σ Place : Type) where
  files : Files (StateM σ)
  /-- The content of the file at a place, if there is one. -/
  content? : σ → Place → Option FileContent
  /-- The place that a path leads to, if it can be followed. -/
  place? : σ → String → Option Place
  content?_read (path : String) (s : σ) : content? (files.read path s).2 = content? s
  content?_createDirectories (path : String) (s : σ) :
    content? (files.createDirectories path s).2 = content? s
  /-- Writing that fails leaves every file as it is. -/
  content?_write_of_error {path text : String} {s : σ} {fault : FileFault}
    (h : (files.write path text s).1 = .error fault) :
    content? (files.write path text s).2 = content? s
  /-- Writing changes no file but the one that the path leads to. -/
  content?_write_of_ne {path text : String} {s : σ} {place : Place}
    (h : place? (files.write path text s).2 path ≠ some place) :
    content? (files.write path text s).2 place = content? s place

namespace FileSystem

variable {σ Place : Type} (sys : FileSystem σ Place)

/-! ## Legible files -/

/-- A change of the state closes neither a path nor a file: paths lead where they led, and a file
whose content is the same is read as before. -/
structure KeepsAccess (s s' : σ) : Prop where
  place {path : String} {place : Place} (h : sys.place? s path = some place) :
    sys.place? s' path = some place
  read {path : String} {place : Place} (h : sys.place? s path = some place)
    (hfile : (sys.content? s place).isSome)
    (hsame : sys.content? s' place = sys.content? s place) :
    (sys.files.read path s').1 = (sys.files.read path s).1

/-- A file system in which reading shows the contents of files, and in which no action of a command
hides a file. -/
structure Legible : Prop where
  /-- Reading changes nothing. -/
  read_state (path : String) (s : σ) : (sys.files.read path s).2 = s
  /-- What is read is the content of the file that the path leads to. -/
  exists_place_of_read {path text : String} {s : σ} (h : (sys.files.read path s).1 = .ok text) :
    ∃ place, sys.place? s path = some place ∧ sys.content? s place = some (.text text)
  keepsAccess_createDirectories (path : String) (s : σ) :
    sys.KeepsAccess s (sys.files.createDirectories path s).2
  keepsAccess_write (path text : String) (s : σ) :
    sys.KeepsAccess s (sys.files.write path text s).2
  /-- The directory of a file that can be read is there, and making it changes nothing. -/
  createDirectories_of_read {path parent text : String} {s : σ}
    (h : (sys.files.read path s).1 = .ok text) (hparent : Path.parent? path = some parent) :
    sys.files.createDirectories parent s = (.ok (), s)

/-- A text that is written to a path, and is not refused, is read back. A device that takes every
text and keeps none does otherwise, and so does a file that may be written but not read. -/
def ReadsBack (path : String) (s : σ) : Prop :=
  ∀ text, (sys.files.write path text s).1 = .ok () →
    (sys.files.read path (sys.files.write path text s).2).1 = .ok text

/-- A file that can be read can be written. A file that is only to be read cannot. -/
def Updatable (path : String) (s : σ) : Prop :=
  ∀ current, (sys.files.read path s).1 = .ok current →
    ∀ text, (sys.files.write path text s).1 = .ok ()

variable {sys}

theorem KeepsAccess.refl (s : σ) : sys.KeepsAccess s s where
  place h := h
  read _ _ _ := rfl

/-- A text that can be read still can be where its file is the same. -/
theorem KeepsAccess.read_eq_ok {s s' : σ} {path text : String} (haccess : sys.KeepsAccess s s')
    (hlegible : sys.Legible) (h : (sys.files.read path s).1 = .ok text)
    (hsame : ∀ place, sys.place? s' path = some place →
      sys.content? s' place = sys.content? s place) :
    (sys.files.read path s').1 = .ok text := by
  obtain ⟨place, hplace, hcontent⟩ := hlegible.exists_place_of_read h
  rw [haccess.read hplace (by rw [hcontent]; rfl) (hsame place (haccess.place hplace)), h]

/-! ## Files that cannot be written -/

/-- What becomes of a text that is written to a file: it is kept, it is refused with a fault, or it is
discarded as if it were kept. -/
inductive WriteRule
  | keep
  | refuse (fault : FileFault)
  | discard

/-- The file system in which each file deals with the texts that are written to it by a rule of its
own. -/
def guarded (sys : FileSystem σ Place) (rule : Place → WriteRule) : FileSystem σ Place where
  files :=
    { sys.files with
      write := fun path text s =>
        match (sys.place? s path).map rule with
        | some (.refuse fault) => (.error fault, s)
        | some .discard => (.ok (), s)
        | _ => sys.files.write path text s }
  content? := sys.content?
  place? := sys.place?
  content?_read := sys.content?_read
  content?_createDirectories := sys.content?_createDirectories
  content?_write_of_error h := by
    dsimp only at h ⊢
    split at h
    · rfl
    · rfl
    · exact sys.content?_write_of_error h
  content?_write_of_ne h := by
    dsimp only at h ⊢
    split at h
    · rfl
    · rfl
    · exact sys.content?_write_of_ne h

section Guarded

variable {rule : Place → WriteRule} {path text : String} {s : σ} {place : Place}

theorem write_guarded_of_refuse {fault : FileFault} (sys : FileSystem σ Place)
    (hplace : sys.place? s path = some place)
    (hrule : rule place = .refuse fault) :
    (sys.guarded rule).files.write path text s = (.error fault, s) := by
  simp only [guarded, hplace, Option.map_some, hrule]

theorem write_guarded_of_discard (sys : FileSystem σ Place)
    (hplace : sys.place? s path = some place)
    (hrule : rule place = .discard) :
    (sys.guarded rule).files.write path text s = (.ok (), s) := by
  simp only [guarded, hplace, Option.map_some, hrule]

end Guarded

/-- **What is done with written texts makes no difference to reading.** -/
theorem Legible.guarded (h : sys.Legible) (rule : Place → WriteRule) :
    (sys.guarded rule).Legible where
  read_state := h.read_state
  exists_place_of_read := h.exists_place_of_read
  keepsAccess_createDirectories path s :=
    ⟨(h.keepsAccess_createDirectories path s).place, (h.keepsAccess_createDirectories path s).read⟩
  keepsAccess_write path text s := by
    have hwrite := h.keepsAccess_write path text s
    dsimp only [FileSystem.guarded]
    -- a text that is refused or discarded leaves the state as it is
    split
    · exact .refl s
    · exact .refl s
    · exact ⟨hwrite.place, hwrite.read⟩
  createDirectories_of_read := h.createDirectories_of_read

end FileSystem

namespace FileTree

/-! ## Trees of files -/

/-- The content of the file at the end of some names. -/
def contentAt? (t : FileTree) (names : List String) : Option FileContent :=
  (t.get? names).toOption

theorem contentAt?_eq_some {t : FileTree} {names : List String} {content : FileContent} :
    t.contentAt? names = some content ↔ t.entryAt? names = some (.file content) :=
  toOption_eq_some.trans entryAt?_eq_file.symm

/-- The place that a path leads to, if it can be followed. -/
def placeOf? (t : FileTree) (path : String) : Option (List String) :=
  (t.resolve? [] (Path.steps path)).toOption

/-- A path of a single name leads to this name. -/
theorem placeOf?_of_steps {path name : String} (h : Path.steps path = [.down name])
    (t : FileTree) : t.placeOf? path = some [name] := by
  rw [placeOf?, h]
  rfl

/-- Making directories changes no file. -/
theorem contentAt?_of_moreDirectories {t t' : FileTree} (h : MoreDirectories t t') :
    t'.contentAt? = t.contentAt? := by
  funext names
  refine Option.ext fun content => ?_
  rw [contentAt?_eq_some, contentAt?_eq_some]
  exact h.entryAt?_eq_file_iff

/-- Putting a content changes no file but the one at the place that the path leads to. -/
theorem contentAt?_of_putAt? {t t' : FileTree} {path : String} {names : List String}
    {content : FileContent} (h : t.putAt? content path = .ok t')
    (hplace : t'.placeOf? path ≠ some names) : t'.contentAt? names = t.contentAt? names := by
  obtain ⟨place, hresolve, hput⟩ := putAt?_eq_ok.mp h
  -- the path leads to the same place in the changed tree
  have hresolve' := resolve?_of_directories (fun _ => entryAt?_directory_of_put? hput) hresolve
  have hne : names ≠ place := fun he => hplace (toOption_eq_some.mpr (he ▸ hresolve'))
  refine Option.ext fun c => ?_
  rw [contentAt?_eq_some, contentAt?_eq_some, entryAt?_of_put? hput, if_neg hne]

theorem files_write_eq (path text : String) (t : FileTree) :
    files.write path text t =
      match t.putAt? (.text text) path with
      | .ok changed => (.ok (), changed)
      | .error fault => (.error fault, t) := rfl

/-- The file system of trees of files. -/
def fileSystem : FileSystem FileTree (List String) where
  files := files
  content? := contentAt?
  place? := placeOf?
  content?_read _ _ := rfl
  content?_createDirectories path t :=
    contentAt?_of_moreDirectories (moreDirectories_makeAlong _ t)
  content?_write_of_error {path text t fault} h := by
    rw [files_write_eq] at h ⊢
    cases hput : t.putAt? (.text text) path with
    | ok changed =>
      rw [hput] at h
      cases h
    | error fault => rfl
  content?_write_of_ne {path text t names} h := by
    rw [files_write_eq] at h ⊢
    cases hput : t.putAt? (.text text) path with
    | ok changed =>
      rw [hput] at h
      exact contentAt?_of_putAt? hput h
    | error fault => rfl

/-! ## Reading a tree -/

/-- What is read at the end of some names. -/
theorem read_eq_of_resolve? {t : FileTree} {path : String} {names : List String}
    (h : t.resolve? [] (Path.steps path) = .ok names) :
    t.read path = t.get? names >>= fun
      | .text text => .ok text
      | .binary _ => .error .notText := by
  rw [read, h]
  rfl

/-- A change that takes no directory away closes neither a path nor a file. -/
theorem keepsAccess_of_directories {t t' : FileTree}
    (hkeep : ∀ names, t.entryAt? names = some .directory → t'.entryAt? names = some .directory) :
    fileSystem.KeepsAccess t t' where
  place h := toOption_eq_some.mpr (resolve?_of_directories hkeep (toOption_eq_some.mp h))
  read {path names} h hfile hsame := by
    have hnames := toOption_eq_some.mp h
    obtain ⟨content, hcontent⟩ := Option.isSome_iff_exists.mp hfile
    have hcontent' : t'.get? names = .ok content :=
      toOption_eq_some.mp (hsame.trans hcontent)
    change t'.read path = t.read path
    rw [read_eq_of_resolve? hnames, read_eq_of_resolve? (resolve?_of_directories hkeep hnames),
      hcontent', toOption_eq_some.mp hcontent]

/-- **Trees of files are legible.** -/
theorem legible_fileSystem : fileSystem.Legible where
  read_state _ _ := rfl
  exists_place_of_read h := by
    obtain ⟨names, hnames, hfile⟩ := read_eq_ok.mp h
    exact ⟨names, toOption_eq_some.mpr hnames, contentAt?_eq_some.mpr hfile⟩
  keepsAccess_createDirectories path t :=
    keepsAccess_of_directories fun _ => (moreDirectories_makeAlong _ t).entryAt?_eq_some
  keepsAccess_write path text t := by
    change fileSystem.KeepsAccess t (t.changed (t.putAt? (.text text) path)).2
    cases hput : t.putAt? (.text text) path with
    | error fault => exact .refl t
    | ok t' =>
      obtain ⟨place, _, hput⟩ := putAt?_eq_ok.mp hput
      exact keepsAccess_of_directories fun _ => entryAt?_directory_of_put? hput
  createDirectories_of_read := makeAlong_parent?_of_read

/-- A text that is put into a tree is read back. -/
theorem readsBack_fileSystem (path : String) (t : FileTree) : fileSystem.ReadsBack path t := by
  intro text h
  change (t.changed (t.putAt? (.text text) path)).1 = .ok () at h
  change (t.changed (t.putAt? (.text text) path)).2.read path = .ok text
  cases hput : t.putAt? (.text text) path with
  | ok t' => exact read_of_putAt? hput
  | error fault =>
    rw [hput] at h
    cases h

/-- A file of a tree that can be read can be written. -/
theorem updatable_fileSystem (path : String) (t : FileTree) : fileSystem.Updatable path t := by
  intro current h text
  obtain ⟨t', hput⟩ := exists_putAt?_of_read h
  change (t.changed (t.putAt? (.text text) path)).1 = .ok ()
  rw [hput]
  rfl

/-- A path of a tree that does not lead back from a directory can be followed. -/
theorem isSome_place?_of_up_notMem {path : String} (t : FileTree) (h : .up ∉ Path.steps path) :
    (fileSystem.place? t path).isSome := by
  obtain ⟨names, hnames⟩ := exists_resolve?_of_up_notMem h
  exact Option.isSome_iff_exists.mpr ⟨names, toOption_eq_some.mpr hnames⟩

end FileTree

end TypedClient
