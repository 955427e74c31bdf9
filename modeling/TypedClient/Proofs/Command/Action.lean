import TypedClient.Command.Run
import TypedClient.Proofs.Outcome

/-!
# Actions on a state

An action on the files of a state, such as a tree of files, comes to a result or to a failure, and
to a state either way. What a chain of actions does follows from what each of them does. An action
that may print comes to a text as well, which is what was printed before and what it printed itself.

## Main definitions

* `Action.on`: the result of an action on a state, and the state after it
* `PrintingAction.session`: what comes of an action that may print
* `Command.on`: how a command ends on a state, and the state after it

## Main results

* `Action.on_bind`, `Action.on_bind_cases`: an action and then another one on a state
* `PrintingAction.session_quietly_bind_cases`: an action that prints nothing, and then one that may
* `Command.on_eq`: a command ends as its session does
-/

namespace TypedClient

namespace Action

variable {σ α β : Type}

/-- The result of an action on a state, such as a tree of files, and the state after it. -/
def on (x : Action (StateM σ) α) (s : σ) : Except Failure α × σ :=
  Id.run ((ExceptT.run x).run s)

@[simp]
theorem on_pure (a : α) (s : σ) : (pure a : Action (StateM σ) α).on s = (.ok a, s) := rfl

@[simp]
theorem on_throw (cause : Failure) (s : σ) :
    (throw cause : Action (StateM σ) α).on s = (.error cause, s) := rfl

@[simp]
theorem on_orFail {ε : Type} (failure : ε → Failure) (x : StateM σ (Except ε α)) (s : σ) :
    (orFail failure x).on s = ((x s).1.mapError failure, (x s).2) := rfl

theorem on_lift (x : StateM σ α) (s : σ) :
    (liftM x : Action (StateM σ) α).on s = (.ok (x s).1, (x s).2) := rfl

theorem on_bind (x : Action (StateM σ) α) (f : α → Action (StateM σ) β) (s : σ) :
    (x >>= f : Action (StateM σ) β).on s =
      match x.on s with
      | (.ok a, s') => (f a).on s'
      | (.error cause, s') => (.error cause, s') := by
  unfold on
  rw [ExceptT.run_bind, StateT.run_bind, Id.run_bind]
  rcases Id.run ((ExceptT.run x).run s) with ⟨_ | _, s'⟩ <;> rfl

/-- An action and then another one end with the failure of the first, or as the second does. -/
theorem on_bind_cases (x : Action (StateM σ) α) (f : α → Action (StateM σ) β) (s : σ) :
    (∃ cause, (x.on s).1 = .error cause ∧ (x >>= f).on s = (.error cause, (x.on s).2)) ∨
      ∃ a, (x.on s).1 = .ok a ∧ (x >>= f).on s = (f a).on (x.on s).2 := by
  rw [on_bind]
  rcases x.on s with ⟨cause | a, s'⟩
  · exact Or.inl ⟨cause, rfl, rfl⟩
  · exact Or.inr ⟨a, rfl, rfl⟩

end Action

/-! ## Printing -/

/-- What comes of an action that may print: its result, what was printed until then, and the
state. -/
structure Session (σ α : Type) where
  result : Except Failure α
  printed : String
  state : σ

namespace PrintingAction

variable {σ α β : Type}

/-- What comes of an action on a state, after a text was printed. -/
def session (x : PrintingAction (StateM σ) α) (printed : String) (s : σ) : Session σ α :=
  let r := Id.run (((ExceptT.run x).run printed).run s)
  ⟨r.1.1, r.1.2, r.2⟩

@[simp]
theorem session_print (text printed : String) (s : σ) :
    session (print text) printed s = ⟨.ok (), printed ++ text, s⟩ := rfl

/-- An action on files prints nothing. -/
@[simp]
theorem session_quietly (x : Action (StateM σ) α) (printed : String) (s : σ) :
    session (quietly x) printed s = ⟨(x.on s).1, printed, (x.on s).2⟩ := rfl

theorem session_bind (x : PrintingAction (StateM σ) α) (f : α → PrintingAction (StateM σ) β)
    (printed : String) (s : σ) :
    session (x >>= f) printed s =
      match session x printed s with
      | ⟨.ok a, printed', s'⟩ => session (f a) printed' s'
      | ⟨.error cause, printed', s'⟩ => ⟨.error cause, printed', s'⟩ := by
  unfold session
  rw [ExceptT.run_bind, StateT.run_bind, StateT.run_bind, Id.run_bind]
  rcases Id.run (((ExceptT.run x).run printed).run s) with ⟨⟨_ | _, printed'⟩, s'⟩ <;> rfl

theorem session_quietly_bind_of_ok {x : Action (StateM σ) α} {s : σ} {a : α}
    (h : (x.on s).1 = .ok a) (f : α → PrintingAction (StateM σ) β) (printed : String) :
    session (quietly x >>= f) printed s = session (f a) printed (x.on s).2 := by
  rw [session_bind, session_quietly, h]

theorem session_quietly_bind_of_error {x : Action (StateM σ) α} {s : σ} {cause : Failure}
    (h : (x.on s).1 = .error cause) (f : α → PrintingAction (StateM σ) β) (printed : String) :
    session (quietly x >>= f) printed s = ⟨.error cause, printed, (x.on s).2⟩ := by
  rw [session_bind, session_quietly, h]

/-- An action on files and then one that may print end with the failure of the first, before anything
was printed, or as the second does. -/
theorem session_quietly_bind_cases (x : Action (StateM σ) α)
    (f : α → PrintingAction (StateM σ) β) (printed : String) (s : σ) :
    (∃ cause, (x.on s).1 = .error cause ∧
        session (quietly x >>= f) printed s = ⟨.error cause, printed, (x.on s).2⟩) ∨
      ∃ a, (x.on s).1 = .ok a ∧
        session (quietly x >>= f) printed s = session (f a) printed (x.on s).2 := by
  cases h : (x.on s).1 with
  | error cause => exact Or.inl ⟨cause, rfl, session_quietly_bind_of_error h f printed⟩
  | ok a => exact Or.inr ⟨a, rfl, session_quietly_bind_of_ok h f printed⟩

end PrintingAction

/-! ## Commands -/

/-- How a session ends that began with nothing printed. -/
def Session.outcome {σ : Type} (r : Session σ Unit) : Outcome :=
  match r.result with
  | .ok _ => .success r.printed
  | .error cause => .failure cause r.printed

theorem Session.exitCode_outcome_eq_zero {σ : Type} {r : Session σ Unit} :
    r.outcome.exitCode = 0 ↔ r.result = .ok () := by
  unfold Session.outcome
  cases r.result <;> simp [Outcome.exitCode]

/-- The outcome has all that was printed, also before a failure. -/
theorem Session.output_outcome {σ : Type} (r : Session σ Unit) : r.outcome.output = r.printed := by
  unfold Session.outcome
  cases r.result <;> rfl

/-- How a command ends on a state, and the state after it. -/
def Command.on {σ : Type} (files : Files (StateM σ)) (command : Command) (s : σ) : Outcome × σ :=
  Id.run ((command.outcome files).run s)

theorem Command.on_eq {σ : Type} (files : Files (StateM σ)) (command : Command) (s : σ) :
    command.on files s =
      (((command.run files).session "" s).outcome, ((command.run files).session "" s).state) := by
  rcases h : Id.run (((ExceptT.run (command.run files)).run "").run s) with ⟨⟨r, printed⟩, s'⟩
  rw [Command.on, Command.outcome, StateT.run_bind, Id.run_bind, h, PrintingAction.session, h]
  cases r <;> rfl

end TypedClient
