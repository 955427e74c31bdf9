import TypedClient.Proofs.Assembly
import TypedClient.Proofs.Command.Action

/-!
# Strict requests

A strict request fails where an operation that was read cannot be generated. Where all of them can
be, strictness makes no difference. A request is made strict by a switch among its words.

## Main definitions

* `GenerateRequest.load`: reads what a client is generated from
* `GenerateRequest.Omits`: an operation that is read cannot be generated

## Main results

* `GenerateRequest.exists_run_eq_error`: a strict request fails where an operation is left out
* `GenerateRequest.session_run_strict`: where none is, strictness makes no difference
* `ofArguments_append_strict`: the switch makes a request strict and changes nothing else
-/

namespace TypedClient

open TypedClient.Action TypedClient.PrintingAction

/-! ## Complete clients -/

section Complete

variable {config : Config} {ops : List Operation}

/-- A client is complete if each of its operations can be generated. -/
theorem isComplete_generate_iff :
    (Client.generate ops config).isComplete = true ↔
      ∀ op ∈ ops, ∃ part, op.generate config.methodOptions = .ok part := by
  rw [Client.isComplete, omissions_generate, Client.omissionsOf, List.isEmpty_iff,
    List.filterMap_eq_nil_iff]
  refine forall₂_congr fun op _ => ?_
  cases op.generate config.methodOptions <;> simp

end Complete

/-! ## Strictness -/

namespace GenerateRequest

/-- Reads what a client is generated from: the choices and the operations. -/
def load {m : Type → Type} [Monad m] (files : Files m) (request : GenerateRequest) :
    Action m (Config × List Operation) := do
  let config ← request.loadConfig files
  let operations ← loadOperations files request.input
  return (config, operations)

/-- One of the operations that are read cannot be generated. -/
def Omits {σ : Type} (files : Files (StateM σ)) (request : GenerateRequest) (s : σ) : Prop :=
  ∃ config ops, ((request.load files).on s).1 = .ok (config, ops) ∧
    ∃ op ∈ ops, ∃ fault, op.generate config.methodOptions = .error fault

section Generate

variable {σ : Type} {files : Files (StateM σ)} {request : GenerateRequest} {s : σ}

/-- The text of the client of some operations, if it need not be complete or is. -/
def textOf (request : GenerateRequest) (config : Config) (ops : List Operation) :
    Except Failure String :=
  if request.strict && !(Client.generate ops config).isComplete then
    .error (.incomplete (Client.generate ops config).omissions.length ops.length)
  else .ok (Client.generate ops config).render

theorem generate_on (files : Files (StateM σ)) (request : GenerateRequest) (s : σ) :
    (request.generate files).on s =
      match (request.load files).on s with
      | (.ok (config, ops), s') => (request.textOf config ops, s')
      | (.error cause, s') => (.error cause, s') := by
  rw [generate, load, on_bind, on_bind]
  rcases (request.loadConfig files).on s with ⟨cause | config, s₁⟩
  · rfl
  dsimp only
  rw [on_bind, on_bind]
  rcases (loadOperations files request.input).on s₁ with ⟨cause | ops, s₂⟩
  · rfl
  dsimp only [on_pure, textOf]
  split <;> rfl

/-- A strict request with an operation that cannot be generated comes to a failure. -/
theorem exists_generate_eq_error (hstrict : request.strict = true)
    (homits : request.Omits files s) :
    ∃ cause, ((request.generate files).on s).1 = .error cause := by
  obtain ⟨config, ops, hload, op, hop, fault, hfault⟩ := homits
  have hincomplete : (Client.generate ops config).isComplete = false := by
    refine Bool.eq_false_iff.mpr fun hcomplete => ?_
    obtain ⟨part, hpart⟩ := isComplete_generate_iff.mp hcomplete op hop
    rw [hfault] at hpart
    cases hpart
  have hon : (request.load files).on s = (.ok (config, ops), ((request.load files).on s).2) :=
    Prod.ext hload rfl
  rw [generate_on, hon]
  simp [textOf, hstrict, hincomplete]

/-- Strictness makes no difference where every operation can be generated. -/
theorem generate_on_strict (homits : ¬ request.Omits files s) :
    (GenerateRequest.generate files { request with strict := true }).on s =
      (request.generate files).on s := by
  have hload : GenerateRequest.load files { request with strict := true } = request.load files :=
    rfl
  rw [generate_on, generate_on, hload]
  rcases hon : (request.load files).on s with ⟨cause | ⟨config, ops⟩, s'⟩
  · rfl
  have hcomplete : (Client.generate ops config).isComplete = true := by
    refine isComplete_generate_iff.mpr fun op hop => ?_
    cases hgen : op.generate config.methodOptions with
    | ok part => exact ⟨part, rfl⟩
    | error fault => exact absurd ⟨config, ops, congrArg Prod.fst hon, op, hop, fault, hgen⟩ homits
  simp [textOf, hcomplete]

theorem session_run_strict (homits : ¬ request.Omits files s) (printed : String) :
    (GenerateRequest.run files { request with strict := true }).session printed s =
      (request.run files).session printed s := by
  rw [run, run, session_bind, session_bind, session_quietly, session_quietly,
    generate_on_strict homits]

/-- A strict request with an operation that cannot be generated fails. -/
theorem exists_run_eq_error (hstrict : request.strict = true) (homits : request.Omits files s)
    (printed : String) :
    ∃ cause, ((request.run files).session printed s).result = .error cause := by
  obtain ⟨cause, hcause⟩ := exists_generate_eq_error hstrict homits
  rw [run, session_quietly_bind_of_error hcause]
  exact ⟨cause, rfl⟩

end Generate

end GenerateRequest

/-! ## The switch for strict requests -/

section Words

variable {level : Level} {given result : List Given} {pending : Option Setting}
  {words : List String} {request : GenerateRequest}

/-- More words are read after the ones that were, unless two dashes end these. -/
theorem readGiven_append (h : readGiven level given pending words = .ok result)
    (hend : "--" ∉ words) (more : List String) :
    readGiven level given pending (words ++ more) = readGiven level result none more := by
  induction words generalizing given pending with
  | nil =>
    cases pending with
    | none =>
      rw [readGiven] at h
      obtain rfl := Except.ok.inj h
      rfl
    | some s => cases h
  | cons word words ih =>
    obtain ⟨hword, hrest⟩ := not_or.mp (List.mem_cons.not.mp hend)
    cases pending with
    | some s =>
      rw [readGiven] at h
      rw [List.cons_append, readGiven]
      split at h
      · cases h
      · next hdash =>
        obtain ⟨given', hgiven, h⟩ := bind_eq_ok.mp h
        rw [if_neg hdash, hgiven]
        exact ih h hrest
    | none =>
      rw [readGiven] at h
      rw [List.cons_append, readGiven]
      split at h
      · next hlist => exact absurd (String.toList_inj.mp hlist).symm hword
      · next cs hlist =>
        obtain ⟨⟨given', pending'⟩, hlong, h⟩ := bind_eq_ok.mp h
        rw [hlong]
        exact ih h hrest
      · next c cs _ hlist =>
        obtain ⟨⟨given', pending'⟩, hletters, h⟩ := bind_eq_ok.mp h
        rw [hletters]
        exact ih h hrest
      · cases h

theorem switch_beq (s t : Switch) : (Given.switch s == Given.switch t) = (s == t) := by
  rw [Bool.eq_iff_iff, beq_iff_eq, beq_iff_eq, Given.switch.injEq]

/-- A switch that was not given can be. -/
theorem addGiven_strict (h : isGiven .strict given = false) :
    addGiven given (.switch .strict) = .ok (given ++ [.switch .strict]) := by
  have hrepeats : (Given.switch .strict).repeats = fun g => Given.switch .strict == g := by
    funext g
    cases g with
    | switch t => exact (switch_beq .strict t).symm
    | setting t value => rfl
  have hnone : given.any (Given.switch .strict).repeats = false := by
    rw [← h, isGiven, List.contains_eq_any_beq, hrepeats]
  rw [addGiven, hnone]
  · rfl
  all_goals nofun

theorem readGiven_strict (given : List Given) :
    readGiven generateLevel given none ["--strict"] = addGiven given (.switch .strict) := by
  have hword : "--strict".toList = ['-', '-', 's', 't', 'r', 'i', 'c', 't'] := by decide
  have hlong : readLong generateLevel given ['s', 't', 'r', 'i', 'c', 't'] =
      (·, none) <$> addGiven given (.switch .strict) := rfl
  rw [readGiven, hword]
  change (readLong generateLevel given ['s', 't', 'r', 'i', 'c', 't'] >>= _) = _
  rw [hlong]
  cases addGiven given (.switch .strict) <;> rfl

theorem valueOf?_append_switch (s : Setting) (given : List Given) (switch : Switch) :
    valueOf? s (given ++ [.switch switch]) = valueOf? s given := by
  simp [valueOf?, List.findSome?_append]

theorem isGiven_append_switch (s : Switch) (given : List Given) (switch : Switch) :
    isGiven s (given ++ [.switch switch]) = (isGiven s given || s == switch) := by
  simp only [isGiven, List.contains_append, List.contains_cons, List.contains_nil, switch_beq,
    Bool.or_false]

/-- The request of what is given: there has to be an input, and an output to check. -/
theorem ofGiven_eq_ok :
    GenerateRequest.ofGiven given = .ok request ↔
      ∃ input, valueOf? .input given = some input ∧
        (isGiven .check given && (valueOf? .output given).isNone) = false ∧
        { input := input
          config := valueOf? .config given
          output := valueOf? .output given
          sync := isGiven .sync given
          className := valueOf? .className given
          runtimeModule := valueOf? .runtimeModule given
          strict := isGiven .strict given
          check := isGiven .check given : GenerateRequest } = request := by
  rw [GenerateRequest.ofGiven]
  cases valueOf? .input given with
  | none => exact iff_of_false nofun nofun
  | some input =>
    simp only [Option.some.injEq, exists_eq_left']
    split
    · next hcheck =>
      exact iff_of_false nofun fun h => Bool.false_ne_true (h.1.symm.trans hcheck)
    · next hcheck => exact pure_eq_ok.trans (and_iff_right (Bool.not_eq_true _ ▸ hcheck)).symm

theorem ofGiven_append_strict (h : GenerateRequest.ofGiven given = .ok request) :
    GenerateRequest.ofGiven (given ++ [.switch .strict]) =
      .ok { request with strict := true } := by
  obtain ⟨input, hinput, hcheck, rfl⟩ := ofGiven_eq_ok.mp h
  have hother (s : Switch) (hs : s ≠ .strict) :
      isGiven s (given ++ [.switch .strict]) = isGiven s given := by
    rw [isGiven_append_switch, beq_false_of_ne hs, Bool.or_false]
  have hstrict : isGiven .strict (given ++ [.switch .strict]) = true := by
    rw [isGiven_append_switch, beq_self_eq_true, Bool.or_true]
  refine ofGiven_eq_ok.mpr ⟨input, ?_⟩
  simp only [valueOf?_append_switch, hstrict, hother .check nofun, hother .sync nofun, and_true]
  exact ⟨hinput, hcheck⟩

/-- Whether a word can come before the name of a command. -/
def isLeading (word : String) : Bool :=
  isDashed word && word != "--"

/-- The words of a generation: after the name of the command comes what is given for it. -/
theorem ofArguments_eq_generate :
    Command.ofArguments words = .ok (.generate request) ↔
      (∃ leading, readGiven topLevel [] none (words.takeWhile isLeading) = .ok leading) ∧
      ∃ rest, words.dropWhile isLeading = "generate" :: rest ∧
        ∃ given, readGiven generateLevel [] none rest = .ok given ∧
          GenerateRequest.ofGiven given = .ok request := by
  have hdiscard {x : Except Notice (List Given)} {u : Unit} :
      discard x = .ok u ↔ ∃ leading, x = .ok leading := by
    cases x <;> simp [discard, Functor.discard, Functor.mapConst, Except.map]
  unfold Command.ofArguments
  dsimp only
  rw [bind_eq_ok]
  constructor
  · rintro ⟨u, hleading, h⟩
    refine ⟨hdiscard.mp hleading, ?_⟩
    split at h
    · cases h
    · cases h
    · next rest hrest =>
      obtain ⟨r, hr, he⟩ := map_eq_ok.mp h
      obtain rfl := Command.generate.inj he
      exact ⟨rest, hrest, bind_eq_ok.mp hr⟩
    · obtain ⟨_, _, he⟩ := map_eq_ok.mp h
      cases he
    · cases h
    · cases h
    · cases h
  · rintro ⟨hleading, rest, hrest, hgiven⟩
    refine ⟨(), hdiscard.mpr hleading, ?_⟩
    unfold isLeading at hrest
    rw [hrest]
    exact map_eq_ok.mpr ⟨request, bind_eq_ok.mpr hgiven, rfl⟩

/-- **The switch makes a request strict** and changes nothing else about it. -/
theorem ofArguments_append_strict (h : Command.ofArguments words = .ok (.generate request))
    (hlenient : request.strict = false) (hend : "--" ∉ words) :
    Command.ofArguments (words ++ ["--strict"]) =
      .ok (.generate { request with strict := true }) := by
  obtain ⟨hleading, rest, hrest, given, hgiven, hrequest⟩ := ofArguments_eq_generate.mp h
  -- the words before the name of the command are the same
  have hlength :=
    congrArg List.length (List.takeWhile_append_dropWhile (p := isLeading) (l := words))
  rw [hrest, List.length_append, List.length_cons] at hlength
  have htake : (words ++ ["--strict"]).takeWhile isLeading = words.takeWhile isLeading := by
    rw [List.takeWhile_append, if_neg (by omega)]
  have hdrop :
      (words ++ ["--strict"]).dropWhile isLeading = "generate" :: (rest ++ ["--strict"]) := by
    rw [List.dropWhile_append, hrest]
    rfl
  have hrestEnd : "--" ∉ rest := fun hmem =>
    hend (List.dropWhile_subset isLeading (hrest ▸ List.mem_cons_of_mem _ hmem))
  have hnew : isGiven .strict given = false := by
    obtain ⟨_, _, _, rfl⟩ := ofGiven_eq_ok.mp hrequest
    exact hlenient
  refine ofArguments_eq_generate.mpr ⟨htake ▸ hleading, _, hdrop, given ++ [.switch .strict], ?_,
    ofGiven_append_strict hrequest⟩
  rw [readGiven_append hgiven hrestEnd, readGiven_strict, addGiven_strict hnew]

end Words

end TypedClient
