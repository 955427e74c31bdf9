import TypedClient.Proofs.Command.Action
import TypedClient.Proofs.Files.FileSystem

/-!
# Actions that only read

An action on a legible file system that only reads leaves the state as it is. What it gives depends
on the texts at the paths that it reads, so that it gives the same in any state with these texts. The
generation of a client is such an action: only what is done with the text afterwards changes
files.

## Main definitions

* `FileSystem.KeepsTexts`: what can be read at some paths can be read in another state as well
* `FileSystem.ReadsOnly`: an action reads the files at some paths and does nothing else
* `GenerateRequest.sources`: the paths of what a client is generated from

## Main results

* `GenerateRequest.readsOnly_generate`: the generation of a client reads its sources only
* `GenerateRequest.generate_eq_ok`: when a client is generated, and what its text is
-/

namespace TypedClient

open TypedClient.Action

namespace FileSystem

variable {σ Place α β : Type} (sys : FileSystem σ Place)

/-- What can be read at some paths can be read in another state as well. -/
def KeepsTexts (paths : List String) (s s' : σ) : Prop :=
  ∀ path ∈ paths, ∀ text, (sys.files.read path s).1 = .ok text →
    (sys.files.read path s').1 = .ok text

/-- An action that reads the files at some paths and does nothing else: it leaves every state as
it is, and what it gives in one it gives in every state with the same texts at these paths. -/
structure ReadsOnly (paths : List String) (x : Action (StateM σ) α) : Prop where
  state (s : σ) : (x.on s).2 = s
  result {s s' : σ} {a : α} (ha : (x.on s).1 = .ok a) (hs : sys.KeepsTexts paths s s') :
    (x.on s').1 = .ok a

variable {sys} {paths paths' : List String} {x : Action (StateM σ) α}
  {f : α → Action (StateM σ) β}

theorem KeepsTexts.mono {s s' : σ} (h : sys.KeepsTexts paths' s s') (hsub : paths ⊆ paths') :
    sys.KeepsTexts paths s s' :=
  fun path hpath => h path (hsub hpath)

namespace ReadsOnly

theorem on_eq (h : sys.ReadsOnly paths x) (s : σ) : x.on s = ((x.on s).1, s) :=
  Prod.ext rfl (h.state s)

theorem pure (a : α) : sys.ReadsOnly [] (Pure.pure a : Action (StateM σ) α) where
  state _ := rfl
  result ha _ := ha

theorem throw (cause : Failure) :
    sys.ReadsOnly [] (MonadExcept.throw cause : Action (StateM σ) α) where
  state _ := rfl
  result ha _ := ha

theorem ofResult {ε : Type} (failure : ε → Failure) (result : Except ε α) :
    sys.ReadsOnly [] (orFail failure (Pure.pure result : StateM σ (Except ε α))) where
  state _ := rfl
  result ha _ := ha

/-- Reading a file. -/
theorem read (hlegible : sys.Legible) (failure : FileFault → Failure) (path : String) :
    sys.ReadsOnly [path] (orFail failure (sys.files.read path)) where
  state s := hlegible.read_state path s
  result {s s' text} ha hs := by
    rw [on_orFail] at ha ⊢
    exact mapError_eq_ok.mpr (hs path (List.mem_singleton_self _) text (mapError_eq_ok.mp ha))

/-- An action and then another one, each of which only reads. -/
theorem bind (hx : sys.ReadsOnly paths x) (hf : ∀ a, sys.ReadsOnly paths' (f a)) :
    sys.ReadsOnly (paths ++ paths') (x >>= f) where
  state s := by
    rw [on_bind, hx.on_eq]
    cases (x.on s).1 with
    | error cause => rfl
    | ok a => exact (hf a).state s
  result {s s' b} hb hs := by
    rw [on_bind, hx.on_eq] at hb ⊢
    cases ha : (x.on s).1 with
    | error cause =>
      rw [ha] at hb
      cases hb
    | ok a =>
      rw [ha] at hb
      rw [hx.result ha (hs.mono (List.subset_append_left ..))]
      exact (hf a).result hb (hs.mono (List.subset_append_right ..))

/-- An action that only reads, and then one that does nothing but come to a result. -/
theorem bind_result (hx : sys.ReadsOnly paths x) (hf : ∀ a, sys.ReadsOnly [] (f a)) :
    sys.ReadsOnly paths (x >>= f) := by
  have h := hx.bind hf
  rwa [List.append_nil] at h

end ReadsOnly

end FileSystem

/-! ## Generating a client -/

section Load

open FileSystem

variable {σ Place α : Type} {sys : FileSystem σ Place}

theorem readsOnly_loadDocument (hlegible : sys.Legible) (json : Reader (Except ReadFault) Json α)
    (yaml : Reader Yaml.Reading Yaml.Part α) (path : String) :
    sys.ReadsOnly [path] (loadDocument sys.files json yaml path) := by
  unfold loadDocument
  refine ReadsOnly.bind_result (.read hlegible _ path) fun text => ?_
  split
  · exact .ofResult ..
  · exact .ofResult ..
  · exact .throw _

/-- What is read from a document in JSON. -/
theorem loadDocument_on_of_json {files : Files (StateM σ)} {json : Reader (Except ReadFault) Json α}
    {yaml : Reader Yaml.Reading Yaml.Part α} {path text : String} {s : σ}
    (hread : (files.read path s).1 = .ok text)
    (hformat : (Path.extension? path >>= DocumentFormat.ofExtension?) = some .json) :
    ((loadDocument files json yaml path).on s).1 =
      (Json.decode json text).mapError (.malformedDocument .json) := by
  rw [loadDocument, on_bind, on_orFail, hread, hformat]
  rfl

theorem readsOnly_loadConfig (hlegible : sys.Legible) (path : String) :
    sys.ReadsOnly [path] (loadConfig sys.files path) := by
  unfold loadConfig
  refine ReadsOnly.bind_result (.read hlegible _ path) fun text => ?_
  split
  · exact .pure _
  · exact .throw _

namespace GenerateRequest

/-- The paths of what a client is generated from. -/
def sources (request : GenerateRequest) : List String :=
  request.config.toList ++ [request.input]

theorem readsOnly_loadConfig (hlegible : sys.Legible) (request : GenerateRequest) :
    sys.ReadsOnly request.config.toList (request.loadConfig sys.files) := by
  unfold loadConfig
  cases request.config with
  | none => exact .pure _
  | some path => exact (TypedClient.readsOnly_loadConfig hlegible path).bind fun _ => .pure _

/-- **The generation of a client reads its sources** and does nothing else. -/
theorem readsOnly_generate (hlegible : sys.Legible) (request : GenerateRequest) :
    sys.ReadsOnly request.sources (request.generate sys.files) := by
  unfold generate
  refine (request.readsOnly_loadConfig hlegible).bind fun config => ?_
  refine ReadsOnly.bind_result (readsOnly_loadDocument hlegible ..) fun operations => ?_
  dsimp only
  split
  · exact ReadsOnly.bind_result (.throw _) fun _ => .pure _
  · exact .pure _

/-- **A client is generated** from the choices and the operations that were read, unless it is to
be complete and is not. -/
theorem generate_eq_ok (hlegible : sys.Legible) {request : GenerateRequest} {s : σ}
    {text : String} :
    ((request.generate sys.files).on s).1 = .ok text ↔
      ∃ config, ((request.loadConfig sys.files).on s).1 = .ok config ∧
        ∃ ops, ((loadOperations sys.files request.input).on s).1 = .ok ops ∧
          (request.strict = true → (Client.generate ops config).isComplete = true) ∧
            (Client.generate ops config).render = text := by
  have hload : sys.ReadsOnly [request.input] (loadOperations sys.files request.input) :=
    readsOnly_loadDocument hlegible ..
  rw [generate, on_bind, (request.readsOnly_loadConfig hlegible).on_eq]
  rcases ((request.loadConfig sys.files).on s).1 with cause | config
  · simp
  dsimp only
  rw [on_bind, hload.on_eq]
  rcases ((loadOperations sys.files request.input).on s).1 with cause | ops
  · simp
  dsimp only
  split
  · next hstrict => simp_all
  · next hstrict => simp_all

end GenerateRequest

end Load

end TypedClient
