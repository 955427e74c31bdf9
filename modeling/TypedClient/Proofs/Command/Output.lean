import TypedClient.Proofs.Command.Effects
import TypedClient.Proofs.Command.Reading

/-!
# Comparing and writing an output

A text is compared with what a file holds, or it is written to the file. The comparison changes
nothing. Writing makes the directories on the way to the file before it puts the text there.

## Main definitions

* `FileSystem.made`: the state with the directories that lead to a file
* `FileSystem.WrittenAt`: a state after a text was written to a file

## Main results

* `checkOutput_of_read`, `exists_checkOutput_eq_stale`, `checkOutput_of_fault`: what a comparison
  comes to
* `result_checkOutput_eq_ok`: it succeeds just when the file holds the text
* `result_writeOutput_eq_ok`: writing succeeds just when the text was written
* `FileSystem.writtenAt_of_read`: what a file holds can be written to it
* `FileSystem.WrittenAt.read_of_content?`: writing that changes no file writes what was there
-/

namespace TypedClient

open TypedClient.Action TypedClient.PrintingAction

variable {σ Place : Type} {sys : FileSystem σ Place}

/-! ## Comparing -/

section Check

variable {path text current : String} {s : σ}

theorem currentOutput_on (hlegible : sys.Legible) (path : String) (s : σ) :
    (currentOutput sys.files path).on s =
      match (sys.files.read path s).1 with
      | .ok current => (.ok current, s)
      | .error .notFound => (.ok "", s)
      | .error fault => (.error (.unreadableOutput path fault), s) := by
  rw [currentOutput, on_bind, on_lift, hlegible.read_state]
  rcases (sys.files.read path s).1 with fault | current
  · cases fault <;> rfl
  · rfl

/-- What is read is compared with the text. -/
theorem checkOutput_session (h : (currentOutput sys.files path).on s = (.ok current, s))
    (printed : String) :
    (checkOutput sys.files path text).session printed s =
      match LineDiff.unified? path current text with
      | none => ⟨.ok (), printed ++ (path ++ " is up to date\n"), s⟩
      | some differences => ⟨.error (.staleOutput path differences), printed, s⟩ := by
  rw [checkOutput, session_quietly_bind_of_ok (congrArg Prod.fst h), h]
  cases LineDiff.unified? path current text <;> rfl

/-- A comparison changes nothing. -/
theorem state_checkOutput (hlegible : sys.Legible) (path text printed : String) (s : σ) :
    ((checkOutput sys.files path text).session printed s).state = s := by
  have hstate : ((currentOutput sys.files path).on s).2 = s := by
    rw [currentOutput_on hlegible]
    split <;> rfl
  rcases h : (currentOutput sys.files path).on s with ⟨cause | current, s'⟩
  · rw [checkOutput, session_quietly_bind_of_error (congrArg Prod.fst h)]
    exact hstate
  · obtain rfl : s' = s := by rw [← hstate, h]
    rw [checkOutput_session h]
    cases LineDiff.unified? path current text <;> rfl

theorem checkOutput_of_read (hlegible : sys.Legible) (h : (sys.files.read path s).1 = .ok text)
    (printed : String) :
    (checkOutput sys.files path text).session printed s =
      ⟨.ok (), printed ++ (path ++ " is up to date\n"), s⟩ := by
  have hcurrent := currentOutput_on hlegible path s
  rw [h] at hcurrent
  rw [checkOutput_session hcurrent, LineDiff.unified?, if_pos rfl]

/-- A file that is missing or holds another text is stale. -/
theorem exists_checkOutput_eq_stale (hlegible : sys.Legible) (htext : text ≠ "")
    (h : (sys.files.read path s).1 = .error .notFound ∨
      ∃ current, (sys.files.read path s).1 = .ok current ∧ current ≠ text) (printed : String) :
    ∃ differences, (checkOutput sys.files path text).session printed s =
      ⟨.error (.staleOutput path differences), printed, s⟩ := by
  obtain ⟨current, hcurrent, hne⟩ : ∃ current,
      (currentOutput sys.files path).on s = (.ok current, s) ∧ current ≠ text := by
    have hcurrent := currentOutput_on hlegible path s
    rcases h with h | ⟨current, h, hne⟩
    · rw [h] at hcurrent
      exact ⟨_, hcurrent, htext.symm⟩
    · rw [h] at hcurrent
      exact ⟨_, hcurrent, hne⟩
  rw [checkOutput_session hcurrent, LineDiff.unified?, if_neg hne]
  exact ⟨_, rfl⟩

/-- A file that cannot be read for another reason is unreadable. -/
theorem checkOutput_of_fault (hlegible : sys.Legible) {fault : FileFault}
    (hfault : fault ≠ .notFound) (h : (sys.files.read path s).1 = .error fault)
    (printed : String) :
    (checkOutput sys.files path text).session printed s =
      ⟨.error (.unreadableOutput path fault), printed, s⟩ := by
  have hcurrent : (currentOutput sys.files path).on s =
      (.error (.unreadableOutput path fault), s) := by
    rw [currentOutput_on hlegible, h]
    cases fault with
    | notFound => exact absurd rfl hfault
    | _ => rfl
  rw [checkOutput, session_quietly_bind_of_error (congrArg Prod.fst hcurrent), hcurrent]

/-- **A comparison succeeds just when the file holds the text**, if this is not empty. -/
theorem result_checkOutput_eq_ok (hlegible : sys.Legible) (htext : text ≠ "") (printed : String) :
    ((checkOutput sys.files path text).session printed s).result = .ok () ↔
      (sys.files.read path s).1 = .ok text := by
  refine ⟨fun h => ?_, fun h => by rw [checkOutput_of_read hlegible h]⟩
  -- whatever else is read, the comparison fails
  by_contra hne
  cases hread : (sys.files.read path s).1 with
  | ok current =>
    have hcurrent : current ≠ text := fun he => hne (he ▸ hread)
    obtain ⟨_, hstale⟩ := exists_checkOutput_eq_stale hlegible htext
      (Or.inr ⟨current, hread, hcurrent⟩) printed
    rw [hstale] at h
    cases h
  | error fault =>
    by_cases hfault : fault = .notFound
    · obtain ⟨_, hstale⟩ := exists_checkOutput_eq_stale hlegible htext
        (Or.inl (hfault ▸ hread)) printed
      rw [hstale] at h
      cases h
    · rw [checkOutput_of_fault hlegible hfault hread] at h
      cases h

end Check

/-! ## Writing -/

namespace FileSystem

/-- The state with the directories that lead to the file at a path, or with those of them that could
be made. -/
def made (sys : FileSystem σ Place) (path : String) (s : σ) : σ :=
  ((makeParent sys.files path).on s).2

/-- A state after a text was written to the file at a path of another one: the directories that lead
to the file were made, and then the text was put there. -/
structure WrittenAt (sys : FileSystem σ Place) (path text : String) (s s' : σ) : Prop where
  made : ((makeParent sys.files path).on s).1 = .ok ()
  write : sys.files.write path text (sys.made path s) = (.ok (), s')

section Written

variable {path text : String} {s s' : σ}

theorem content?_made (path : String) (s : σ) :
    sys.content? (sys.made path s) = sys.content? s :=
  keeps_makeParent path s

theorem keepsAccess_made (hlegible : sys.Legible) (path : String) (s : σ) :
    sys.KeepsAccess s (sys.made path s) := by
  unfold made makeParent
  split
  · split
    · exact hlegible.keepsAccess_createDirectories _ s
    · exact .refl s
  · exact .refl s

/-- The directories that lead to a file that can be read are there. -/
theorem makeParent_of_read (hlegible : sys.Legible) (h : (sys.files.read path s).1 = .ok text) :
    (makeParent sys.files path).on s = (.ok (), s) := by
  unfold makeParent
  split
  · next parent hparent =>
    split
    · rw [on_orFail, hlegible.createDirectories_of_read h hparent]
      rfl
    · rfl
  · rfl

theorem made_of_read (hlegible : sys.Legible) (h : (sys.files.read path s).1 = .ok text) :
    sys.made path s = s :=
  congrArg Prod.snd (makeParent_of_read hlegible h)

/-- What a file holds can be written to it if it can be written at all. -/
theorem writtenAt_of_read (hlegible : sys.Legible) (hupdate : sys.Updatable path s)
    (h : (sys.files.read path s).1 = .ok text) :
    sys.WrittenAt path text s (sys.files.write path text s).2 where
  made := congrArg Prod.fst (makeParent_of_read hlegible h)
  write := by
    rw [made_of_read hlegible h]
    exact Prod.ext (hupdate text h text) rfl

namespace WrittenAt

/-- What was written is read back. -/
theorem read (h : sys.WrittenAt path text s s') (hback : sys.ReadsBack path (sys.made path s)) :
    (sys.files.read path s').1 = .ok text := by
  have hread := hback text (congrArg Prod.fst h.write)
  rwa [h.write] at hread

theorem content?_of_ne (h : sys.WrittenAt path text s s') {place : Place}
    (hplace : sys.place? s' path ≠ some place) : sys.content? s' place = sys.content? s place := by
  have hwrite : (sys.files.write path text (sys.made path s)).2 = s' := congrArg Prod.snd h.write
  have hcontent := sys.content?_write_of_ne (hwrite ▸ hplace)
  rwa [hwrite, content?_made] at hcontent

theorem keepsAccess (h : sys.WrittenAt path text s s') (hlegible : sys.Legible) :
    sys.KeepsAccess s s' := by
  have hmade := keepsAccess_made hlegible path s
  have hwrite := hlegible.keepsAccess_write path text (sys.made path s)
  rw [h.write] at hwrite
  -- making directories changes no content, so a file that is the same in the end was so in between
  have hcontent : sys.content? (sys.made path s) = sys.content? s := content?_made path s
  constructor
  · exact fun hp => hwrite.place (hmade.place hp)
  · intro other place hp hfile hsame
    rw [hwrite.read (hmade.place hp) (by rwa [hcontent]) (by rwa [hcontent]),
      hmade.read hp hfile (by rw [hcontent])]

/-- What is at other places can still be read. -/
theorem keepsTexts {paths : List String} (h : sys.WrittenAt path text s s')
    (hlegible : sys.Legible)
    (hplace : ∀ other ∈ paths, sys.place? s' path ≠ sys.place? s' other) :
    sys.KeepsTexts paths s s' :=
  fun other hother _ hread => (h.keepsAccess hlegible).read_eq_ok hlegible hread
    fun _ hp => h.content?_of_ne fun he => hplace other hother (he.trans hp.symm)

/-- A file whose path could be followed held the text before if writing changed no file. -/
theorem read_of_content? (h : sys.WrittenAt path text s s') (hlegible : sys.Legible)
    (hback : sys.ReadsBack path (sys.made path s)) (hpath : (sys.place? s path).isSome)
    (hsame : sys.content? s' = sys.content? s) : (sys.files.read path s).1 = .ok text := by
  obtain ⟨place, hplace⟩ := Option.isSome_iff_exists.mp hpath
  have haccess := h.keepsAccess hlegible
  have hread := h.read hback
  obtain ⟨place', hplace', hcontent⟩ := hlegible.exists_place_of_read hread
  -- the path leads to the same place before and after the directories were made
  obtain rfl := Option.some.inj ((haccess.place hplace).symm.trans hplace')
  rw [hsame] at hcontent
  rw [← haccess.read hplace (by rw [hcontent]; rfl) (congrFun hsame place), hread]

/-- Writing what a file holds changes no file. -/
theorem content?_of_read (h : sys.WrittenAt path text s s') (hlegible : sys.Legible)
    (hback : sys.ReadsBack path (sys.made path s)) (hread : (sys.files.read path s).1 = .ok text) :
    sys.content? s' = sys.content? s := by
  obtain ⟨place, hplace, hcontent⟩ := hlegible.exists_place_of_read hread
  obtain ⟨place', hplace', hcontent'⟩ := hlegible.exists_place_of_read (h.read hback)
  obtain rfl := Option.some.inj (((h.keepsAccess hlegible).place hplace).symm.trans hplace')
  funext other
  by_cases hother : sys.place? s' path = some other
  · obtain rfl := Option.some.inj (hplace'.symm.trans hother)
    rw [hcontent, hcontent']
  · exact h.content?_of_ne hother

end WrittenAt

end Written

end FileSystem

section Write

variable {path text : String} {s s' : σ}

theorem writeOutput_session_of_writtenAt (h : sys.WrittenAt path text s s') (printed : String) :
    (writeOutput sys.files path text).session printed s =
      ⟨.ok (), printed ++ ("wrote " ++ path ++ "\n"), s'⟩ := by
  have hwrite : (orFail (.unwritableOutput path) (sys.files.write path text)).on
      (sys.made path s) = (.ok (), s') := by
    rw [on_orFail, h.write]
    rfl
  rw [writeOutput, session_quietly_bind_of_ok h.made, ← FileSystem.made,
    session_quietly_bind_of_ok (congrArg Prod.fst hwrite), hwrite, session_print]

/-- **Writing succeeds just when the text was written**, with the directories that lead to it. -/
theorem result_writeOutput_eq_ok (printed : String) :
    ((writeOutput sys.files path text).session printed s).result = .ok () ↔
      sys.WrittenAt path text s ((writeOutput sys.files path text).session printed s).state := by
  refine ⟨fun h => ?_, fun h => by rw [writeOutput_session_of_writtenAt h]⟩
  -- both steps have to come to a result, and what the first one makes is where the second one writes
  unfold writeOutput at h ⊢
  rcases session_quietly_bind_cases (makeParent sys.files path) _ printed s with
    ⟨cause, _, he⟩ | ⟨_, hmade, he⟩
  · rw [he] at h
    cases h
  rw [he] at h ⊢
  rcases session_quietly_bind_cases (orFail (.unwritableOutput path) (sys.files.write path text))
    _ printed (sys.made path s) with ⟨cause, _, he⟩ | ⟨_, hwrite, he⟩
  · exact absurd (h.symm.trans (congrArg Session.result he)) nofun
  · rw [on_orFail] at hwrite he
    exact ⟨hmade, Prod.ext (mapError_eq_ok.mp hwrite) (congrArg Session.state he).symm⟩

end Write

end TypedClient
