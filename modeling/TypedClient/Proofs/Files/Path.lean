import TypedClient.Files.Path
import TypedClient.Proofs.Text.Split

/-!
# Laws of paths

The path of a directory leads along the steps before the last one of the path of a file. Slashes
and dots that make no difference may be all that tells the two apart.

## Main results

* `Path.partSteps_trimEnd`: what is trimmed makes no difference to the steps
* `Path.partSteps_parent?`: the steps of the path of the directory
-/

namespace TypedClient.Path

section PartSteps

variable {path parent last : List Char}

theorem partSteps_append (parent last : List Char) :
    partSteps (parent ++ '/' :: last) = partSteps parent ++ partSteps last := by
  rw [partSteps, Text.pieces_append rfl, List.filterMap_append, partSteps, partSteps]

theorem partSteps_of_notMem (h : '/' ∉ last) : partSteps last = (stepOf? last).toList := by
  rw [partSteps, Text.pieces_of_forall fun c hc => by simpa using ne_of_mem_of_not_mem hc h]
  cases hs : stepOf? last <;> simp [hs]

/-- **What is trimmed makes no difference to the steps.** -/
theorem partSteps_trimEnd (path : List Char) :
    partSteps (trimEnd path).reverse = partSteps path.reverse := by
  induction path using trimEnd.induct with
  | case1 c cs ih =>
    rw [trimEnd, ih, List.reverse_cons (a := '/'), partSteps_append]
    exact (List.append_nil _).symm
  | case2 cs ih =>
    have hdot : ('.' :: '/' :: cs).reverse = cs.reverse ++ '/' :: ['.'] := by simp
    rw [trimEnd, ih, hdot, List.reverse_cons, partSteps_append, partSteps_append]
    rfl
  | case3 cs hslash hdot =>
    rw [trimEnd]
    · exact hslash
    · exact hdot

end PartSteps

/-! ## The last part -/

/-- A text that ends before the last part of a path: no text, or one that ends at a slash. -/
def EndsAtSlash (before : List Char) : Prop :=
  before = [] ∨ ∃ parent, before = parent ++ ['/']

/-- A path is what comes up to its last slash, and then a last part. -/
theorem exists_last (path : List Char) :
    ∃ before last, EndsAtSlash before ∧ '/' ∉ last ∧ path = before ++ last ∧
      path.reverse.dropWhile (· != '/') = before.reverse := by
  refine ⟨(path.reverse.dropWhile (· != '/')).reverse,
    (path.reverse.takeWhile (· != '/')).reverse, ?_, ?_, ?_, (List.reverse_reverse _).symm⟩
  · cases h : path.reverse.dropWhile (· != '/') with
    | nil => exact Or.inl rfl
    | cons c cs =>
      have hc := List.head?_dropWhile_not (· != '/') path.reverse
      rw [h] at hc
      obtain rfl : c = '/' := by simpa using hc
      exact Or.inr ⟨cs.reverse, List.reverse_cons⟩
  · rw [List.mem_reverse]
    intro h
    simpa using List.all_eq_true.mp List.all_takeWhile _ h
  · rw [← List.reverse_append, List.takeWhile_append_dropWhile, List.reverse_reverse]

section Last

variable {before last : List Char}

theorem getLast?_pieces (hbefore : EndsAtSlash before) (hlast : '/' ∉ last) :
    (Text.pieces (· == '/') (before ++ last)).getLast? = some last := by
  have hwhole : Text.pieces (· == '/') last = [last] :=
    Text.pieces_of_forall fun c hc => by simpa using ne_of_mem_of_not_mem hc hlast
  rcases hbefore with rfl | ⟨parent, rfl⟩
  · rw [List.nil_append, hwhole]
    rfl
  · rw [List.append_assoc, List.singleton_append, Text.pieces_append rfl, hwhole,
      List.getLast?_concat]

theorem partSteps_last (hbefore : EndsAtSlash before) (hlast : '/' ∉ last) :
    partSteps (before ++ last) = partSteps before ++ (stepOf? last).toList := by
  rw [← partSteps_of_notMem hlast]
  rcases hbefore with rfl | ⟨parent, rfl⟩
  · rfl
  · rw [List.append_assoc, List.singleton_append, partSteps_append, partSteps_append]
    exact congrArg (· ++ _) (List.append_nil _).symm

/-- Nothing is trimmed after a last part that is a name. -/
theorem trimEnd_eq_self (hlast : '/' ∉ last) (hempty : last ≠ []) (hdot : last ≠ ['.']) :
    trimEnd (before ++ last).reverse = (before ++ last).reverse := by
  rw [List.reverse_append]
  have hslash : '/' ∉ last.reverse := by rwa [List.mem_reverse]
  cases h : last.reverse with
  | nil => exact absurd (List.reverse_eq_nil_iff.mp h) hempty
  | cons c cs =>
    rw [h, List.mem_cons, not_or] at hslash
    rw [List.cons_append, trimEnd]
    · rintro d ds he
      exact hslash.1 (List.cons.inj he).1.symm
    · rintro ds he
      obtain ⟨rfl, hds⟩ := List.cons.inj he
      cases cs with
      | nil => exact hdot (by simpa using congrArg List.reverse h)
      | cons d ds => exact hslash.2 ((List.cons.inj hds).1 ▸ List.mem_cons_self ..)

end Last

/-! ## The directory of a file -/

section Parent

variable {path directory name : String} {before last : List Char} {init : List Step}

/-- The last step shows a directory, or the last part of the path is its name. -/
theorem steps_cases (hbefore : EndsAtSlash before) (hlast : '/' ∉ last)
    (hpath : path.toList = before ++ last) :
    (∃ init, steps path = init ++ [.down ""]) ∨
      last ≠ [] ∧ last ≠ ['.'] ∧ steps path = partSteps before ++ [.down (String.ofList last)] := by
  simp only [steps, hpath, getLast?_pieces hbefore hlast, Option.getD_some]
  split
  · exact Or.inl ⟨_, rfl⟩
  · next h =>
    simp only [Bool.or_eq_true, beq_iff_eq, List.isEmpty_iff, not_or] at h
    obtain ⟨⟨hempty, hdot⟩, hdots⟩ := h
    have hstep : stepOf? last = some (.down (String.ofList last)) := by
      simp [stepOf?, hempty, hdot, hdots]
    refine Or.inr ⟨hempty, hdot, ?_⟩
    rw [partSteps_last hbefore hlast, hstep]
    rfl

/-- The last step along a path is to a name. -/
theorem exists_steps_eq_append (path : String) :
    ∃ init name, steps path = init ++ [.down name] := by
  obtain ⟨before, last, hbefore, hlast, hpath, -⟩ := exists_last path.toList
  rcases steps_cases hbefore hlast hpath with ⟨init, h⟩ | ⟨-, -, h⟩
  · exact ⟨init, "", h⟩
  · exact ⟨_, _, h⟩

/-- **The path of the directory of a file leads along the steps before the last one.** -/
theorem partSteps_parent? (hsteps : steps path = init ++ [.down name]) (hname : name ≠ "")
    (hparent : parent? path = some directory) : partSteps directory.toList = init := by
  obtain ⟨before, last, hbefore, hlast, hpath, hdrop⟩ := exists_last path.toList
  rcases steps_cases hbefore hlast hpath with ⟨init', h⟩ | ⟨hempty, hdot, h⟩
  · obtain ⟨-, he⟩ := List.append_inj' (hsteps.symm.trans h) rfl
    exact absurd (Step.down.inj (List.cons.inj he).1) hname
  obtain ⟨rfl, -⟩ := List.append_inj' (hsteps.symm.trans h) rfl
  -- nothing is trimmed before the last part is taken off, only after
  have hself : trimEnd path.toList.reverse = path.toList.reverse := by
    rw [hpath, trimEnd_eq_self hlast hempty hdot]
  rw [parent?, hself, hdrop] at hparent
  split at hparent
  · cases hparent
  · obtain rfl := Option.some.inj hparent
    rw [ofReversed, String.toList_ofList, partSteps_trimEnd, List.reverse_reverse]

end Parent

end TypedClient.Path
