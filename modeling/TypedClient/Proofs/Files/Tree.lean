import Mathlib.Data.List.Basic
import TypedClient.Files.Tree
import TypedClient.Proofs.Files.Path
import TypedClient.Proofs.Outcome

/-!
# Laws of trees of files

What a change of a tree does to its files. Putting a content at a path changes the file at this
path and nothing else. Making directories adds directories and nothing else, so that a path that
could be followed before leads to the same place after.

## Main definitions

* `FileTree.Entry`, `FileTree.entryAt?`: what is at the end of some names
* `FileTree.MoreDirectories`: a tree with nothing but directories added

## Main results

* `FileTree.entryAt?_of_put?`, `FileTree.moreDirectories_of_makeDirectory?`,
  `FileTree.moreDirectories_makeAlong`: what is in a tree after a change
* `FileTree.exists_put?_of_entryAt?`, `FileTree.makeAlong_of_resolve?`: a change where a file or a
  directory is already
* `FileTree.resolve?_of_directories`: a path that could be followed leads to the same place
* `FileTree.read_eq_ok`, `FileTree.read_of_putAt?`: what can be read at a path
-/

namespace TypedClient.FileTree

/-! ## Entries of a directory -/

section Entries

variable {name : String} {t : FileTree} {es : List (String × FileTree)}

theorem lookup_setEntry_self (name : String) (t : FileTree) (es : List (String × FileTree)) :
    (setEntry name t es).lookup name = some t := by
  induction es with
  | nil => simp [setEntry]
  | cons e es ih =>
    rw [setEntry]
    split
    · rw [List.lookup_cons_self]
    · next hne => rw [List.lookup_cons, beq_false_of_ne (Ne.symm hne), ih]

theorem lookup_setEntry_of_ne {n : String} (hne : n ≠ name) :
    (setEntry name t es).lookup n = es.lookup n := by
  induction es with
  | nil => rw [setEntry, List.lookup_cons, beq_false_of_ne hne]
  | cons e es ih =>
    obtain ⟨k, s⟩ := e
    rw [setEntry]
    split
    · next he =>
      obtain rfl : k = name := he
      rw [List.lookup_cons, List.lookup_cons, beq_false_of_ne hne]
    · rw [List.lookup_cons, List.lookup_cons, ih]

/-- Setting an entry to what it is changes nothing. -/
theorem setEntry_of_lookup (h : es.lookup name = some t) : setEntry name t es = es := by
  induction es with
  | nil => cases h
  | cons e es ih =>
    obtain ⟨k, s⟩ := e
    rw [setEntry]
    split
    · next he =>
      obtain rfl : k = name := he
      rw [List.lookup_cons_self] at h
      obtain rfl := Option.some.inj h
      rfl
    · next hne =>
      rw [List.lookup_cons, beq_false_of_ne (Ne.symm hne)] at h
      rw [ih h]

end Entries

/-! ## What is in a tree -/

/-- What can be in a tree at the end of some names. -/
inductive Entry
  | file (content : FileContent)
  | directory
  deriving DecidableEq, Repr

/-- What is at the end of some names. -/
def entryAt? (t : FileTree) (names : List String) : Option Entry :=
  match t.get? names with
  | .ok content => some (.file content)
  | .error .isDirectory => some .directory
  | .error _ => none

section EntryAt

variable {t : FileTree} {names : List String} {es : List (String × FileTree)} {name : String}
  {content : FileContent}

theorem entryAt?_eq_file :
    t.entryAt? names = some (.file content) ↔ t.get? names = .ok content := by
  unfold entryAt?
  split <;> simp_all

theorem entryAt?_eq_directory :
    t.entryAt? names = some .directory ↔ t.get? names = .error .isDirectory := by
  unfold entryAt?
  split <;> simp_all

theorem entryAt?_file_nil (content : FileContent) :
    (file content).entryAt? [] = some (.file content) := rfl

theorem entryAt?_file_cons (content : FileContent) (name : String) (names : List String) :
    (file content).entryAt? (name :: names) = none := rfl

theorem entryAt?_directory_cons (hname : name ≠ "") :
    (directory es).entryAt? (name :: names) = (es.lookup name).bind (·.entryAt? names) := by
  rw [entryAt?, get?, if_neg (by simpa using hname)]
  cases es.lookup name <;> rfl

theorem entryAt?_setEntry_self (hname : name ≠ "") :
    (directory (setEntry name t es)).entryAt? (name :: names) = t.entryAt? names := by
  rw [entryAt?_directory_cons hname, lookup_setEntry_self, Option.bind_some]

theorem entryAt?_setEntry_of_ne {n : String} (hne : n ≠ name) :
    (directory (setEntry name t es)).entryAt? (n :: names) =
      (directory es).entryAt? (n :: names) := by
  by_cases hn : n = ""
  · subst hn
    rfl
  · rw [entryAt?_directory_cons hn, entryAt?_directory_cons hn, lookup_setEntry_of_ne hne]

/-- A file is at the end of names that are not empty. -/
theorem ne_empty_of_entryAt?_eq_file (h : t.entryAt? names = some (.file content)) :
    ∀ n ∈ names, n ≠ "" := by
  induction names generalizing t with
  | nil => exact nofun
  | cons n ns ih =>
    cases t with
    | file c => cases h
    | directory es =>
      by_cases hn : n = ""
      · subst hn
        cases h
      · rw [entryAt?_directory_cons hn, Option.bind_eq_some_iff] at h
        obtain ⟨s, _, hs⟩ := h
        exact List.forall_mem_cons.mpr ⟨hn, ih hs⟩

/-- A file is in a directory. -/
theorem entryAt?_of_entryAt?_append (h : t.entryAt? (names ++ [name]) = some (.file content)) :
    t.entryAt? names = some .directory := by
  induction names generalizing t with
  | nil =>
    cases t with
    | file c => cases h
    | directory es => rfl
  | cons n ns ih =>
    cases t with
    | file c => cases h
    | directory es =>
      by_cases hn : n = ""
      · subst hn
        rfl
      · rw [List.cons_append, entryAt?_directory_cons hn, Option.bind_eq_some_iff] at h
        obtain ⟨s, hs, h⟩ := h
        rw [entryAt?_directory_cons hn, hs, Option.bind_some, ih h]

end EntryAt

/-! ## Putting a content -/

section Put

variable {t t' : FileTree} {es : List (String × FileTree)} {name : String} {path : List String}
  {content : FileContent}

theorem put?_directory_of_some (hname : name ≠ "") {s : FileTree} (hs : es.lookup name = some s) :
    (directory es).put? content (name :: path) =
      (fun s => directory (setEntry name s es)) <$> s.put? content path := by
  conv_lhs => unfold put?
  rw [if_neg (by simpa using hname), hs]

/-- A content is put into a directory by setting one of its entries. -/
theorem put?_directory_eq_ok (h : (directory es).put? content (name :: path) = .ok t') :
    name ≠ "" ∧ ∃ s', t' = directory (setEntry name s' es) ∧
      ((∃ s, es.lookup name = some s ∧ s.put? content path = .ok s') ∨
        es.lookup name = none ∧ path = [] ∧ s' = file content) := by
  by_cases hname : name = ""
  · subst hname
    cases h
  refine ⟨hname, ?_⟩
  cases hl : es.lookup name with
  | some s =>
    rw [put?_directory_of_some hname hl] at h
    cases hput : s.put? content path with
    | error fault =>
      rw [hput] at h
      cases h
    | ok s' =>
      rw [hput] at h
      exact ⟨s', (Except.ok.inj h).symm, Or.inl ⟨s, rfl, hput⟩⟩
  | none =>
    unfold put? at h
    rw [if_neg (by simpa using hname), hl] at h
    cases path with
    | nil => exact ⟨_, (Except.ok.inj h).symm, Or.inr ⟨rfl, rfl, rfl⟩⟩
    | cons n ns => split at h <;> simp_all

/-- **Putting a content at a path changes what is at this path** and nothing else. -/
theorem entryAt?_of_put? (h : t.put? content path = .ok t') (names : List String) :
    t'.entryAt? names = if names = path then some (.file content) else t.entryAt? names := by
  induction path generalizing t t' names with
  | nil =>
    cases t with
    | directory es => cases h
    | file c =>
      obtain rfl := Except.ok.inj h
      cases names <;> rfl
  | cons name path ih =>
    cases t with
    | file c => cases h
    | directory es =>
      obtain ⟨hname, s', rfl, hs⟩ := put?_directory_eq_ok h
      cases names with
      | nil => rfl
      | cons n ns =>
        by_cases hn : n = name
        · subst hn
          rw [entryAt?_setEntry_self hname, entryAt?_directory_cons hname]
          rcases hs with ⟨s, hs, hput⟩ | ⟨hnone, rfl, rfl⟩
          · rw [ih hput, hs, Option.bind_some]
            simp only [List.cons.injEq, true_and]
          · rw [hnone]
            cases ns <;> simp [entryAt?_file_nil, entryAt?_file_cons]
        · rw [entryAt?_setEntry_of_ne hn, if_neg fun he => hn (List.cons.inj he).1]

/-- A content is not put where a directory is. -/
theorem entryAt?_ne_directory_of_put? (h : t.put? content path = .ok t') :
    t.entryAt? path ≠ some .directory := by
  induction path generalizing t t' with
  | nil =>
    cases t with
    | directory es => cases h
    | file c => exact nofun
  | cons name path ih =>
    cases t with
    | file c => cases h
    | directory es =>
      obtain ⟨hname, s', rfl, hs⟩ := put?_directory_eq_ok h
      rw [entryAt?_directory_cons hname]
      rcases hs with ⟨s, hs, hput⟩ | ⟨hnone, _, _⟩
      · rw [hs]
        exact ih hput
      · rw [hnone]
        exact nofun

/-- Putting a content takes no directory away. -/
theorem entryAt?_directory_of_put? {names : List String} (h : t.put? content path = .ok t')
    (hdir : t.entryAt? names = some .directory) : t'.entryAt? names = some .directory := by
  rw [entryAt?_of_put? h, if_neg, hdir]
  rintro rfl
  exact entryAt?_ne_directory_of_put? h hdir

/-- Where a file is, another content can be put. -/
theorem exists_put?_of_entryAt? {c : FileContent} (h : t.entryAt? path = some (.file c)) :
    ∃ t', t.put? content path = .ok t' := by
  induction path generalizing t with
  | nil =>
    cases t with
    | directory es => cases h
    | file c => exact ⟨_, rfl⟩
  | cons name path ih =>
    have hname := ne_empty_of_entryAt?_eq_file h name (List.mem_cons_self ..)
    cases t with
    | file c => cases h
    | directory es =>
      rw [entryAt?_directory_cons hname, Option.bind_eq_some_iff] at h
      obtain ⟨s, hs, h⟩ := h
      obtain ⟨s', hput⟩ := ih h
      rw [put?_directory_of_some hname hs, hput]
      exact ⟨_, rfl⟩

end Put

/-! ## Making directories -/

/-- A tree with nothing but directories added. -/
def MoreDirectories (t t' : FileTree) : Prop :=
  ∀ names, t'.entryAt? names = t.entryAt? names ∨
    t.entryAt? names = none ∧ t'.entryAt? names = some .directory

namespace MoreDirectories

variable {t t' t'' : FileTree} {names : List String} {e : Entry} {content : FileContent}

theorem refl (t : FileTree) : MoreDirectories t t :=
  fun _ => Or.inl rfl

theorem entryAt?_eq_some (h : MoreDirectories t t') (he : t.entryAt? names = some e) :
    t'.entryAt? names = some e := by
  rcases h names with h | ⟨hnone, _⟩
  · rw [h, he]
  · rw [hnone] at he
    cases he

theorem entryAt?_eq_file_iff (h : MoreDirectories t t') :
    t'.entryAt? names = some (.file content) ↔ t.entryAt? names = some (.file content) := by
  rcases h names with h | ⟨hnone, hsome⟩
  · rw [h]
  · simp [hnone, hsome]

theorem trans (h : MoreDirectories t t') (h' : MoreDirectories t' t'') :
    MoreDirectories t t'' := by
  intro names
  rcases h names with ht | ⟨hnone, ht⟩
  · rw [← ht]
    exact h' names
  · exact Or.inr ⟨hnone, h'.entryAt?_eq_some ht⟩

end MoreDirectories

section Make

variable {t t' : FileTree} {es : List (String × FileTree)} {name : String} {path : List String}

theorem entryAt?_empty (names : List String) :
    empty.entryAt? names = none ∨ empty.entryAt? names = some .directory := by
  cases names with
  | nil => exact Or.inr rfl
  | cons n ns =>
    by_cases hn : n = ""
    · subst hn
      exact Or.inr rfl
    · exact Or.inl (entryAt?_directory_cons hn)

theorem makeDirectory?_directory_of_some {s : FileTree} (hs : es.lookup name = some s) :
    (directory es).makeDirectory? (name :: path) =
      (fun s => directory (setEntry name s es)) <$> s.makeDirectory? path := by
  conv_lhs => unfold makeDirectory?
  rw [hs]

/-- A directory is made in another one by setting one of its entries. -/
theorem makeDirectory?_directory_eq_ok (h : (directory es).makeDirectory? (name :: path) = .ok t') :
    ∃ s', t' = directory (setEntry name s' es) ∧
      ((∃ s, es.lookup name = some s ∧ s.makeDirectory? path = .ok s') ∨
        es.lookup name = none ∧ s' = empty) := by
  cases hl : es.lookup name with
  | some s =>
    rw [makeDirectory?_directory_of_some hl] at h
    cases hs : s.makeDirectory? path with
    | error fault =>
      rw [hs] at h
      cases h
    | ok s' =>
      rw [hs] at h
      exact ⟨s', (Except.ok.inj h).symm, Or.inl ⟨s, rfl, hs⟩⟩
  | none =>
    unfold makeDirectory? at h
    rw [hl] at h
    cases path with
    | nil => exact ⟨_, (Except.ok.inj h).symm, Or.inr ⟨rfl, rfl⟩⟩
    | cons n ns => cases h

/-- **Making a directory adds a directory** and nothing else. -/
theorem moreDirectories_of_makeDirectory? (h : t.makeDirectory? path = .ok t') :
    MoreDirectories t t' := by
  induction path generalizing t t' with
  | nil =>
    cases t with
    | file c => cases h
    | directory es =>
      obtain rfl := Except.ok.inj h
      exact .refl _
  | cons name path ih =>
    cases t with
    | file c => cases h
    | directory es =>
      obtain ⟨s', rfl, hs'⟩ := makeDirectory?_directory_eq_ok h
      intro names
      cases names with
      | nil => exact Or.inl rfl
      | cons n ns =>
        by_cases hn : n = name
        · subst hn
          by_cases hempty : n = ""
          · subst hempty
            exact Or.inl rfl
          rw [entryAt?_setEntry_self hempty, entryAt?_directory_cons hempty]
          rcases hs' with ⟨s, hl, hs'⟩ | ⟨hl, rfl⟩
          · rw [hl]
            exact ih hs' ns
          · rw [hl]
            exact (entryAt?_empty ns).imp id fun he => ⟨rfl, he⟩
        · exact Or.inl (entryAt?_setEntry_of_ne hn)

/-- Making a directory that is there changes nothing. -/
theorem makeDirectory?_of_entryAt? {names : List String} (hnames : ∀ n ∈ names, n ≠ "")
    (h : t.entryAt? names = some .directory) : t.makeDirectory? names = .ok t := by
  induction names generalizing t with
  | nil =>
    cases t with
    | file c => cases h
    | directory es => rfl
  | cons n ns ih =>
    obtain ⟨hn, hns⟩ := List.forall_mem_cons.mp hnames
    cases t with
    | file c => cases h
    | directory es =>
      rw [entryAt?_directory_cons hn, Option.bind_eq_some_iff] at h
      obtain ⟨s, hs, h⟩ := h
      rw [makeDirectory?_directory_of_some hs, ih hns h]
      exact congrArg (fun es => Except.ok (directory es)) (setEntry_of_lookup hs)

end Make

/-! ## Following a path -/

section Follow

variable {t t' : FileTree} {names result : List String} {steps : List Path.Step} {name : String}

theorem resolve?_up_eq_ok :
    t.resolve? names (.up :: steps) = .ok result ↔
      t.entryAt? names = some .directory ∧ t.resolve? names.dropLast steps = .ok result := by
  rw [entryAt?_eq_directory, resolve?]
  split <;> simp_all

theorem resolve?_append_down (names : List String) (steps : List Path.Step) (name : String) :
    t.resolve? names (steps ++ [.down name]) = .ok result ↔
      ∃ before, t.resolve? names steps = .ok before ∧ result = before ++ [name] := by
  induction steps generalizing names with
  | nil => simp [resolve?, eq_comm]
  | cons step steps ih =>
    cases step with
    | down n => exact ih (names ++ [n])
    | up =>
      simp only [List.cons_append, resolve?_up_eq_ok, ih, and_assoc, exists_and_left]

/-- A path that could be followed leads to the same place where the same directories are. -/
theorem resolve?_of_directories
    (hkeep : ∀ names, t.entryAt? names = some .directory → t'.entryAt? names = some .directory)
    (h : t.resolve? names steps = .ok result) : t'.resolve? names steps = .ok result := by
  induction steps generalizing names with
  | nil => exact h
  | cons step steps ih =>
    cases step with
    | down n => exact ih h
    | up =>
      obtain ⟨hdir, hrest⟩ := resolve?_up_eq_ok.mp h
      exact resolve?_up_eq_ok.mpr ⟨hkeep _ hdir, ih hrest⟩

/-- A path without steps back can always be followed. -/
theorem exists_resolve?_of_up_notMem (h : .up ∉ steps) :
    ∃ result, t.resolve? names steps = .ok result := by
  induction steps generalizing names with
  | nil => exact ⟨names, rfl⟩
  | cons step steps ih =>
    obtain ⟨hne, hrest⟩ := not_or.mp (List.mem_cons.not.mp h)
    cases step with
    | down n => exact ih hrest
    | up => exact absurd rfl hne

/-! ## The directories along a path -/

/-- **Making a directory where some steps lead** adds a directory and nothing else. -/
theorem moreDirectories_of_makeDirectoryAt? (h : t.makeDirectoryAt? steps = .ok t') :
    MoreDirectories t t' := by
  cases steps with
  | nil =>
    obtain rfl := Except.ok.inj h
    exact .refl _
  | cons step before =>
    cases step with
    | up =>
      obtain ⟨_, _, h⟩ := bind_eq_ok.mp h
      obtain rfl := Except.ok.inj h
      exact .refl _
    | down name =>
      obtain ⟨_, _, h⟩ := bind_eq_ok.mp h
      exact moreDirectories_of_makeDirectory? h

theorem moreDirectories_changed (steps : List Path.Step) (t : FileTree) :
    MoreDirectories t (t.changed (t.makeDirectoryAt? steps)).2 := by
  cases h : t.makeDirectoryAt? steps with
  | ok made => exact moreDirectories_of_makeDirectoryAt? h
  | error fault => exact .refl t

/-- Making the directories along a path adds directories and nothing else, even if not all of
them can be made. -/
theorem moreDirectories_makeAlong (steps : List Path.Step) (t : FileTree) :
    MoreDirectories t (makeAlong steps t).2 := by
  induction steps with
  | nil => exact .refl t
  | cons step before ih =>
    rw [makeAlong]
    split
    · -- the directories before are made first, and the last one in what comes of this
      split
      · next t' hbefore =>
        rw [hbefore] at ih
        exact ih.trans (moreDirectories_changed _ t')
      · exact ih
    · exact moreDirectories_changed _ t

/-- A file is in the way of the last directory of `new/../f/sub`, and `new` stays. -/
example (content : FileContent) :
    makeAlong [.down "sub", .down "f", .up, .down "new"] (.directory [("f", .file content)]) =
      (.error .alreadyExists, .directory [("f", .file content), ("new", .empty)]) := by
  rfl

/-- Making the directory where some steps lead changes nothing if it is there. -/
theorem makeDirectoryAt?_of_resolve? (h : t.resolve? [] steps.reverse = .ok result)
    (hnames : ∀ n ∈ result, n ≠ "") (hdir : t.entryAt? result = some .directory) :
    t.makeDirectoryAt? steps = .ok t := by
  cases steps with
  | nil => rfl
  | cons step before =>
    cases step with
    | up =>
      rw [makeDirectoryAt?, h]
      rfl
    | down name =>
      rw [List.reverse_cons] at h
      obtain ⟨names, hbefore, rfl⟩ := (resolve?_append_down ..).mp h
      rw [makeDirectoryAt?, hbefore]
      exact makeDirectory?_of_entryAt? hnames hdir

/-- Making the directories along a path that can be followed into a directory changes nothing. -/
theorem makeAlong_of_resolve? (h : t.resolve? [] steps.reverse = .ok result)
    (hnames : ∀ n ∈ result, n ≠ "") (hdir : t.entryAt? result = some .directory) :
    makeAlong steps t = (.ok (), t) := by
  cases steps with
  | nil => rfl
  | cons step before =>
    rw [makeAlong, makeDirectoryAt?_of_resolve? h hnames hdir]
    rfl

end Follow

/-! ## Reading and writing at a path -/

section ReadWrite

variable {t t' : FileTree} {path text : String} {content : FileContent}

/-- **What can be read at a path** is the text of the file it leads to. -/
theorem read_eq_ok :
    t.read path = .ok text ↔ ∃ names, t.resolve? [] (Path.steps path) = .ok names ∧
      t.entryAt? names = some (.file (.text text)) := by
  simp only [read, bind_eq_ok, entryAt?_eq_file]
  refine exists_congr fun names => and_congr_right fun _ => ?_
  constructor
  · rintro ⟨c, hc, h⟩
    cases c with
    | text s =>
      obtain rfl := pure_eq_ok.mp h
      exact hc
    | binary bytes => cases h
  · intro hc
    exact ⟨_, hc, rfl⟩

theorem putAt?_eq_ok :
    t.putAt? content path = .ok t' ↔ ∃ names, t.resolve? [] (Path.steps path) = .ok names ∧
      t.put? content names = .ok t' :=
  bind_eq_ok

/-- A text put at a path is read there. -/
theorem read_of_putAt? (h : t.putAt? (.text text) path = .ok t') : t'.read path = .ok text := by
  obtain ⟨names, hnames, hput⟩ := putAt?_eq_ok.mp h
  refine read_eq_ok.mpr ⟨names, ?_, ?_⟩
  · exact resolve?_of_directories (fun _ => entryAt?_directory_of_put? hput) hnames
  · rw [entryAt?_of_put? hput, if_pos rfl]

/-- A text can be put where one is read. -/
theorem exists_putAt?_of_read (h : t.read path = .ok text) :
    ∃ t', t.putAt? content path = .ok t' := by
  obtain ⟨names, hnames, hfile⟩ := read_eq_ok.mp h
  obtain ⟨t', hput⟩ := exists_put?_of_entryAt? hfile
  exact ⟨t', putAt?_eq_ok.mpr ⟨names, hnames, hput⟩⟩

/-- The directories that lead to a file that can be read are there. -/
theorem makeAlong_parent?_of_read {parent : String} (h : t.read path = .ok text)
    (hparent : Path.parent? path = some parent) :
    makeAlong (Path.partSteps parent.toList).reverse t = (.ok (), t) := by
  obtain ⟨names, hnames, hfile⟩ := read_eq_ok.mp h
  -- the last step is to the file, and the steps before it lead to its directory
  obtain ⟨init, name, hsteps⟩ := Path.exists_steps_eq_append path
  rw [hsteps] at hnames
  obtain ⟨before, hbefore, rfl⟩ := (resolve?_append_down ..).mp hnames
  obtain ⟨hbeforeNames, hname⟩ := List.forall_mem_append.mp (ne_empty_of_entryAt?_eq_file hfile)
  rw [Path.partSteps_parent? hsteps (hname name (List.mem_singleton_self _)) hparent]
  refine makeAlong_of_resolve? ?_ hbeforeNames (entryAt?_of_entryAt?_append hfile)
  rwa [List.reverse_reverse]

end ReadWrite

end TypedClient.FileTree
