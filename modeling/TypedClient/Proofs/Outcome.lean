import Mathlib.Data.List.Forall2

/-!
# Results that may be a fault

How a chain of results, or a list of them, comes to a value or to a fault.

## Main definitions

* `IsFirst`: the first member of a list with a property

## Main results

* `bind_eq_ok`, `bind_eq_error`: a chain of two results has a value if both have one, and
  the first fault of them otherwise
* `mapM_eq_ok_iff_forall₂`, `exists_mapM_eq_ok`, `mem_of_mapM_eq_ok`,
  `exists_mem_of_mapM_eq_ok`: a list of results has a value if each of them has one, and that is
  the list of their values
* `mapM_eq_error_iff`: otherwise its fault is the first one
-/

namespace TypedClient

variable {ε α β : Type} {x : Except ε α} {f : α → Except ε β}

theorem bind_eq_ok {b : β} : x >>= f = .ok b ↔ ∃ a, x = .ok a ∧ f a = .ok b := by
  cases x with
  | error e => simp [bind, Except.bind]
  | ok a => simp [bind, Except.bind]

theorem bind_eq_error {e : ε} :
    x >>= f = .error e ↔ x = .error e ∨ ∃ a, x = .ok a ∧ f a = .error e := by
  cases x with
  | error e' => simp [bind, Except.bind]
  | ok a => simp [bind, Except.bind]

theorem pure_eq_ok {a b : α} : (pure a : Except ε α) = .ok b ↔ a = b := by
  simp [pure, Except.pure]

theorem pure_ne_error {a : α} {e : ε} : (pure a : Except ε α) ≠ .error e :=
  nofun

theorem map_eq_ok {g : α → β} {b : β} : g <$> x = .ok b ↔ ∃ a, x = .ok a ∧ g a = b := by
  cases x <;> simp [Functor.map, Except.map]

theorem mapError_eq_ok {ε' : Type} {failure : ε → ε'} {a : α} :
    x.mapError failure = .ok a ↔ x = .ok a := by
  cases x <;> simp [Except.mapError]

theorem toOption_eq_some {a : α} : x.toOption = some a ↔ x = .ok a := by
  cases x <;> simp [Except.toOption]

/-! ## First members -/

/-- The first member of a list with a property. -/
def IsFirst {α : Type} (P : α → Prop) (xs : List α) (x : α) : Prop :=
  ∃ before after, xs = before ++ x :: after ∧ P x ∧ ∀ y ∈ before, ¬ P y

theorem IsFirst.holds {α : Type} {P : α → Prop} {xs : List α} {x : α} (h : IsFirst P xs x) : P x :=
  let ⟨_, _, _, hx, _⟩ := h
  hx

theorem isFirst_cons {α : Type} {P : α → Prop} {xs : List α} {x y : α} :
    IsFirst P (x :: xs) y ↔ P x ∧ y = x ∨ ¬ P x ∧ IsFirst P xs y := by
  constructor
  · rintro ⟨before, after, heq, hy, hbefore⟩
    cases before with
    | nil =>
      obtain ⟨rfl, rfl⟩ := List.cons.inj heq
      exact .inl ⟨hy, rfl⟩
    | cons z before =>
      obtain ⟨rfl, rfl⟩ := List.cons.inj heq
      obtain ⟨hx, hbefore⟩ := List.forall_mem_cons.mp hbefore
      exact .inr ⟨hx, before, after, rfl, hy, hbefore⟩
  · rintro (⟨hx, rfl⟩ | ⟨hx, before, after, rfl, hy, hbefore⟩)
    · exact ⟨[], xs, rfl, hx, nofun⟩
    · exact ⟨x :: before, after, rfl, hy, List.forall_mem_cons.mpr ⟨hx, hbefore⟩⟩

theorem find?_eq_some_iff_isFirst {α : Type} {p : α → Bool} {xs : List α} {x : α} :
    xs.find? p = some x ↔ IsFirst (fun x => p x = true) xs x := by
  rw [List.find?_eq_some_iff_append, IsFirst]
  constructor
  · rintro ⟨hx, before, after, rfl, hbefore⟩
    exact ⟨before, after, rfl, hx, fun y hy => by simpa using hbefore y hy⟩
  · rintro ⟨before, after, rfl, hx, hbefore⟩
    exact ⟨hx, before, after, rfl, fun y hy => by simpa using hbefore y hy⟩

theorem exists_isFirst_iff {α : Type} {P : α → Prop} {xs : List α} :
    (∃ x, IsFirst P xs x) ↔ ∃ x ∈ xs, P x := by
  constructor
  · rintro ⟨x, before, after, rfl, hx, _⟩
    exact ⟨x, by simp, hx⟩
  · intro h
    classical
    obtain ⟨x, hx⟩ := Option.isSome_iff_exists.mp
      (List.find?_isSome.mpr (by simpa using h) : (xs.find? (P ·)).isSome)
    exact ⟨x, by simpa using find?_eq_some_iff_isFirst.mp hx⟩

/-! ## Lists of results -/

section List

variable {g : α → Except ε β} {xs : List α} {ys : List β}

theorem mapM_cons_eq_ok {x : α} :
    (x :: xs).mapM g = .ok ys ↔
      ∃ y, g x = .ok y ∧ ∃ zs, xs.mapM g = .ok zs ∧ y :: zs = ys := by
  simp only [List.mapM_cons, bind_eq_ok, pure_eq_ok]

/-- A list of results has a value just when each member has one. -/
theorem mapM_eq_ok_iff_forall₂ :
    xs.mapM g = .ok ys ↔ List.Forall₂ (fun x y => g x = .ok y) xs ys := by
  induction xs generalizing ys with
  | nil =>
    rw [List.mapM_nil, pure_eq_ok, List.forall₂_nil_left_iff, eq_comm]
  | cons x xs ih =>
    rw [mapM_cons_eq_ok, List.forall₂_cons_left_iff]
    constructor
    · rintro ⟨y, hy, zs, hzs, rfl⟩
      exact ⟨y, zs, hy, ih.mp hzs, rfl⟩
    · rintro ⟨y, zs, hy, hzs, rfl⟩
      exact ⟨y, hy, zs, ih.mpr hzs, rfl⟩

theorem exists_mapM_eq_ok (h : ∀ x ∈ xs, ∃ y, g x = .ok y) : ∃ ys, xs.mapM g = .ok ys := by
  induction xs with
  | nil => exact ⟨[], rfl⟩
  | cons x xs ih =>
    obtain ⟨y, hy⟩ := h x (List.mem_cons_self ..)
    obtain ⟨ys, hys⟩ := ih fun x hx => h x (List.mem_cons_of_mem _ hx)
    exact ⟨y :: ys, mapM_cons_eq_ok.mpr ⟨y, hy, ys, hys, rfl⟩⟩

theorem mem_of_mapM_eq_ok (h : xs.mapM g = .ok ys) : ∀ y ∈ ys, ∃ x ∈ xs, g x = .ok y := by
  induction xs generalizing ys with
  | nil =>
    obtain rfl := pure_eq_ok.mp h
    intro y hy
    cases hy
  | cons x xs ih =>
    obtain ⟨z, hz, zs, hzs, rfl⟩ := mapM_cons_eq_ok.mp h
    intro y hy
    rcases List.mem_cons.mp hy with rfl | hy
    · exact ⟨x, List.mem_cons_self .., hz⟩
    · obtain ⟨w, hw, hy⟩ := ih hzs y hy
      exact ⟨w, List.mem_cons_of_mem _ hw, hy⟩

theorem exists_mem_of_mapM_eq_ok (h : xs.mapM g = .ok ys) :
    ∀ x ∈ xs, ∃ y ∈ ys, g x = .ok y := by
  induction xs generalizing ys with
  | nil =>
    intro x hx
    cases hx
  | cons w ws ih =>
    obtain ⟨z, hz, zs, hzs, rfl⟩ := mapM_cons_eq_ok.mp h
    intro x hx
    rcases List.mem_cons.mp hx with rfl | hx
    · exact ⟨z, List.mem_cons_self .., hz⟩
    · obtain ⟨y, hy, hx⟩ := ih hzs x hx
      exact ⟨y, List.mem_cons_of_mem _ hy, hx⟩

/-- **A list of results is at fault** with the first fault in it. -/
theorem mapM_eq_error_iff {e : ε} :
    xs.mapM g = .error e ↔
      ∃ x, IsFirst (fun x => ∃ e', g x = .error e') xs x ∧ g x = .error e := by
  induction xs with
  | nil => simp [IsFirst, pure_ne_error]
  | cons x xs ih =>
    rw [List.mapM_cons, bind_eq_error]
    simp only [bind_eq_error, pure_ne_error, and_false, exists_false, or_false, ih, isFirst_cons]
    cases hx : g x with
    | error e' => simp [hx]
    | ok y => simp

end List

end TypedClient
