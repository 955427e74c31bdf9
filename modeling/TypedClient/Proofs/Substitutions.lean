import TypedClient.Proofs.Address

/-!
# Substitutions of an address

With names free of braces, what an address substitutes is exactly what stands in the operation's
address as a placeholder of a path parameter: one substitution for each occurrence, from left to
right. So the order in which the parameters are declared can keep an operation from having an
address, but it cannot change the address.

## Main definitions

* `Text.OccursAt`: a text is a part of another one, at a given place
* `spelling`: a text and substitutions, each written as the placeholder of its name
* `substitutionPlaces`: the places at which the placeholders stand in this text

## Main results

* `exists_eq_append_of_occurs`: no placeholder begins in a text that contains none
* `mem_substitutionPlaces_iff`: the places of the substitutions are those of the placeholders
* `spelling_inj`: a text is spelled in one way only
* `url_substitutes_occurrences`: what the address of an operation substitutes
-/

namespace TypedClient

open Text TypeScript

/-- One text is a part of another one, after `i` characters. -/
def Text.OccursAt (part s : String) (i : Nat) : Prop :=
  ∃ before after, before.length = i ∧ s.toList = before ++ part.toList ++ after

/-! ## Texts and placeholders in turn -/

/-- A text and then substitutions with the texts behind them, each substitution written as the
placeholder of its name. -/
def spelling (text : String) : List (String × String) → List Char
  | [] => text.toList
  | (name, next) :: ss => text.toList ++ (placeholder name).toList ++ spelling next ss

/-- The places at which substitutions stand, the first of them after `i` characters. -/
def substitutionPlaces (i : Nat) : List (String × String) → List (Nat × String)
  | [] => []
  | (name, next) :: ss =>
    (i, name) :: substitutionPlaces (i + (placeholder name).length + next.length) ss

theorem toList_spelling (text : String) (ss : List (String × String)) :
    (text ++ String.join (ss.map fun s => placeholder s.1 ++ s.2)).toList = spelling text ss := by
  induction ss generalizing text with
  | nil => simp [spelling]
  | cons s ss ih =>
    obtain ⟨name, next⟩ := s
    rw [spelling, ← ih next]
    simp

theorem le_of_mem_substitutionPlaces {i : Nat} {ss : List (String × String)} :
    ∀ place ∈ substitutionPlaces i ss, i ≤ place.1 := by
  induction ss generalizing i with
  | nil => exact nofun
  | cons s ss ih =>
    obtain ⟨name, next⟩ := s
    refine List.forall_mem_cons.mpr ⟨Nat.le_refl i, fun place hplace => ?_⟩
    have h := ih place hplace
    omega

theorem exists_mem_of_mem_substitutionPlaces {i k : Nat} {name : String}
    {ss : List (String × String)} (h : (i, name) ∈ substitutionPlaces k ss) :
    ∃ next, (name, next) ∈ ss := by
  induction ss generalizing k with
  | nil => cases h
  | cons s ss ih =>
    obtain ⟨first, next⟩ := s
    rcases List.mem_cons.mp h with h | h
    · obtain ⟨_, rfl⟩ := Prod.mk.inj h
      exact ⟨next, List.mem_cons_self ..⟩
    · exact (ih h).imp fun next hmem => List.mem_cons_of_mem _ hmem

/-- The places come from left to right. -/
theorem substitutionPlaces_increasing (i : Nat) (ss : List (String × String)) :
    (substitutionPlaces i ss).Pairwise fun a b => a.1 < b.1 := by
  induction ss generalizing i with
  | nil => exact .nil
  | cons s ss ih =>
    obtain ⟨name, next⟩ := s
    refine List.pairwise_cons.mpr ⟨fun place hplace => ?_, ih _⟩
    have h := le_of_mem_substitutionPlaces place hplace
    have hlength : 0 < (placeholder name).length := by simp [← String.length_toList]
    change i < place.1
    omega

/-! ## Where placeholders stand -/

section Places

variable {a n text : String} {before after rest : List Char} {names : List String}
  {ss ss' : List (String × String)}

/-- **No placeholder begins in a text that contains none**, as long as another placeholder comes
behind the text. -/
theorem exists_eq_append_of_occurs (hn : BraceFree n) (htext : ¬ Occurs (placeholder n) text)
    (h : text.toList ++ (placeholder a).toList ++ rest =
      before ++ (placeholder n).toList ++ after) :
    ∃ between, before = text.toList ++ between ∧
      (placeholder a).toList ++ rest = between ++ (placeholder n).toList ++ after := by
  rw [List.append_assoc, List.append_assoc] at h
  rcases List.append_eq_append_iff.mp h with ⟨between, hbefore, hrest⟩ | ⟨inside, hinside, hafter⟩
  · exact ⟨between, hbefore, by rw [hrest, List.append_assoc]⟩
  -- the placeholder of `n` begins before the end of the text, if `inside` is not empty
  cases inside with
  | nil => exact ⟨[], by simpa using hinside.symm, by simpa using hafter.symm⟩
  | cons c inside =>
    rcases List.append_eq_append_iff.mp hafter with ⟨left, hleft, _⟩ | ⟨left, hleft, hright⟩
    · -- it ends there as well
      refine absurd ?_ htext
      rw [Occurs, hinside, hleft, ← List.append_assoc]
      exact List.infix_append ..
    · -- it reaches into the other placeholder, and the brace of this one is in the name
      cases left with
      | nil =>
        refine absurd ?_ htext
        rw [Occurs, hinside, hleft, List.append_nil]
        exact (List.suffix_append ..).isInfix
      | cons d left =>
        rw [toList_placeholder] at hleft hright
        obtain ⟨rfl, _⟩ := List.cons.inj hright
        obtain ⟨_, hname⟩ := List.cons.inj hleft
        have hmem : '\x7b' ∈ n.toList ++ ['\x7d'] := by
          rw [hname]
          simp
        exact absurd (by simpa using hmem) hn.1

/-- **The places of the substitutions are those of the placeholders** of the given names, if no
text contains one of these. -/
theorem mem_substitutionPlaces_iff (hfree : ∀ n ∈ names, BraceFree n)
    (hnames : ∀ s ∈ ss, s.1 ∈ names)
    (htexts : ∀ x ∈ text :: ss.map Prod.snd, ∀ n ∈ names, ¬ Occurs (placeholder n) x)
    (k : Nat) {i : Nat} :
    (i, n) ∈ substitutionPlaces (k + text.length) ss ↔
      n ∈ names ∧ ∃ before after, k + before.length = i ∧
        spelling text ss = before ++ (placeholder n).toList ++ after := by
  induction ss generalizing text k with
  | nil =>
    simp only [substitutionPlaces, List.not_mem_nil, false_iff, not_and]
    rintro hn ⟨before, after, _, h⟩
    exact htexts text (List.mem_cons_self ..) n hn ⟨before, after, h.symm⟩
  | cons s ss ih =>
    obtain ⟨a, next⟩ := s
    obtain ⟨ha, hnames⟩ := List.forall_mem_cons.mp hnames
    obtain ⟨htext, htexts⟩ := List.forall_mem_cons.mp htexts
    have hlengths : k + text.length + (placeholder a).length + next.length =
        (k + (text.toList ++ (placeholder a).toList).length) + next.length := by
      simp only [List.length_append, String.length_toList]
      omega
    rw [substitutionPlaces, List.mem_cons, hlengths, ih hnames htexts, spelling]
    constructor
    · rintro (hhead | ⟨hn, before, after, rfl, h⟩)
      · obtain ⟨rfl, rfl⟩ := Prod.mk.inj hhead
        exact ⟨ha, text.toList, _, by rw [String.length_toList], rfl⟩
      · refine ⟨hn, text.toList ++ (placeholder a).toList ++ before, after, ?_, ?_⟩
        · simp only [List.length_append]
          omega
        · rw [h]
          simp only [List.append_assoc]
    · rintro ⟨hn, before, after, rfl, h⟩
      obtain ⟨between, rfl, hbetween⟩ := exists_eq_append_of_occurs (hfree n hn) (htext n hn) h
      -- the placeholder is the next one, or comes behind it
      rcases placeholder_append_cases (hfree a ha) (hfree n hn) hbetween with
        ⟨rfl, rfl⟩ | ⟨u, rfl, hu⟩
      · left
        rw [List.append_nil, String.length_toList]
      · refine Or.inr ⟨hn, u, after, ?_, hu⟩
        simp only [List.length_append]
        omega

/-- **A text is spelled in one way only**, if no text between the substitutions contains a
placeholder. -/
theorem spelling_inj {text text' : String} (hfree : ∀ n ∈ names, BraceFree n)
    (hnames : ∀ s ∈ ss, s.1 ∈ names) (hnames' : ∀ s ∈ ss', s.1 ∈ names)
    (htexts : ∀ x ∈ text :: ss.map Prod.snd, ∀ n ∈ names, ¬ Occurs (placeholder n) x)
    (htexts' : ∀ x ∈ text' :: ss'.map Prod.snd, ∀ n ∈ names, ¬ Occurs (placeholder n) x)
    (h : spelling text ss = spelling text' ss') : text = text' ∧ ss = ss' := by
  induction ss generalizing text text' ss' with
  | nil =>
    cases ss' with
    | nil => exact ⟨String.toList_injective h, rfl⟩
    | cons s ss' =>
      obtain ⟨b, next'⟩ := s
      have hb : b ∈ names := hnames' _ (List.mem_cons_self ..)
      exact absurd ⟨text'.toList, _, h.symm⟩ (htexts text (List.mem_cons_self ..) b hb)
  | cons s ss ih =>
    obtain ⟨a, next⟩ := s
    obtain ⟨ha, hss⟩ := List.forall_mem_cons.mp hnames
    obtain ⟨htext, hrest⟩ := List.forall_mem_cons.mp htexts
    obtain ⟨htext', hrest'⟩ := List.forall_mem_cons.mp htexts'
    cases ss' with
    | nil => exact absurd ⟨text.toList, _, h⟩ (htext' a ha)
    | cons s ss' =>
      obtain ⟨b, next'⟩ := s
      obtain ⟨hb, hss'⟩ := List.forall_mem_cons.mp hnames'
      obtain ⟨between, hbetween, heq⟩ := exists_eq_append_of_occurs (hfree b hb) (htext b hb) h
      rcases placeholder_append_cases (hfree a ha) (hfree b hb) heq with ⟨rfl, hab⟩ | ⟨u, rfl, _⟩
      · subst hab
        rw [List.append_nil] at hbetween
        have hnext : spelling next ss = spelling next' ss' := List.append_cancel_left heq
        obtain ⟨rfl, rfl⟩ := ih hss hss' hrest hrest' hnext
        exact ⟨(String.toList_injective hbetween).symm, rfl⟩
      · -- the second text would contain the first placeholder
        refine absurd ?_ (htext' a ha)
        rw [Occurs, hbetween, ← List.append_assoc]
        exact List.infix_append ..

end Places

/-! ## The address of an operation -/

section Url

variable {op op' : Operation} {e e' : Expr}

/-- The names of the path parameters of an operation. -/
def Operation.pathNames (op : Operation) : List String :=
  (op.parametersIn .path).map (·.name)

theorem mem_pathNames {n : String} :
    n ∈ op.pathNames ↔ ∃ p ∈ op.parametersIn .path, p.name = n :=
  List.mem_map

theorem forall_mem_pathNames {P : String → Prop} :
    (∀ n ∈ op.pathNames, P n) ↔ ∀ p ∈ op.parametersIn .path, P p.name :=
  List.forall_mem_map

/-- What the address of an operation spells, in terms of the names of the path parameters. -/
theorem exists_spelling_of_url (h : op.url = .ok e) :
    ∃ (text : String) (ss : List (String × String)),
      e = .plus (.member .this "baseUrl")
        (.template ⟨text, ss.map fun s => ⟨parameterReference s.1, s.2⟩⟩) ∧
      (∀ s ∈ ss, s.1 ∈ op.pathNames) ∧
      text ++ String.join (ss.map fun s => placeholder s.1 ++ s.2) = op.uri ∧
      ∀ x ∈ text :: ss.map Prod.snd, ∀ n ∈ op.pathNames, ¬ Occurs (placeholder n) x := by
  obtain ⟨t, ht, rfl⟩ := exists_uriTemplate_of_url h
  obtain ⟨ss, hspans, hnames, hspelling, htexts⟩ := exists_substitutions ht
  refine ⟨t.head, ss, ?_, fun s hs => mem_pathNames.mpr (hnames s hs), hspelling,
    fun x hx => forall_mem_pathNames.mpr (htexts x hx)⟩
  rw [← hspans]

/-- Operations with the same address and path parameters of the same names have the same address,
as far as they have one. -/
theorem url_eq_of_pathNames (hfree : ∀ n ∈ op.pathNames, BraceFree n) (huri : op'.uri = op.uri)
    (hnames : ∀ n, n ∈ op'.pathNames ↔ n ∈ op.pathNames) (h : op.url = .ok e)
    (h' : op'.url = .ok e') : e' = e := by
  obtain ⟨text, ss, rfl, hss, hspelling, htexts⟩ := exists_spelling_of_url h
  obtain ⟨text', ss', rfl, hss', hspelling', htexts'⟩ := exists_spelling_of_url h'
  have hsame : spelling text' ss' = spelling text ss := by
    rw [← toList_spelling, ← toList_spelling, hspelling, hspelling', huri]
  obtain ⟨rfl, rfl⟩ := spelling_inj hfree (fun s hs => (hnames _).mp (hss' s hs)) hss
    (fun x hx n hn => htexts' x hx n ((hnames n).mpr hn)) htexts hsame
  rfl

/-- **What an address substitutes**, with names free of braces: the substitutions stand, from left
to right, at the places at which the operation's address has a placeholder of a path parameter.
Another order of the path parameters gives the same address or none. -/
theorem url_substitutes_occurrences (hfree : ∀ p ∈ op.parametersIn .path, BraceFree p.name)
    (h : op.url = .ok e) :
    ∃ (text : String) (ss : List (String × String)),
      e = .plus (.member .this "baseUrl")
        (.template ⟨text, ss.map fun s => ⟨parameterReference s.1, s.2⟩⟩) ∧
      text ++ String.join (ss.map fun s => placeholder s.1 ++ s.2) = op.uri ∧
      (substitutionPlaces text.length ss).Pairwise (fun a b => a.1 < b.1) ∧
      (∀ i n, (i, n) ∈ substitutionPlaces text.length ss ↔
        (∃ p ∈ op.parametersIn .path, p.name = n) ∧ OccursAt (placeholder n) op.uri i) ∧
      ∀ (op' : Operation) (e' : Expr), op'.uri = op.uri →
        (op'.parametersIn .path).Perm (op.parametersIn .path) → op'.url = .ok e' → e' = e := by
  have hnames : ∀ n ∈ op.pathNames, BraceFree n := forall_mem_pathNames.mpr hfree
  obtain ⟨text, ss, he, hss, hspelling, htexts⟩ := exists_spelling_of_url h
  refine ⟨text, ss, he, hspelling, substitutionPlaces_increasing .., fun i n => ?_,
    fun op' e' huri hperm h' => ?_⟩
  · have hplaces := mem_substitutionPlaces_iff hnames hss htexts 0 (i := i) (n := n)
    simp only [Nat.zero_add] at hplaces
    rw [hplaces, mem_pathNames, OccursAt, ← hspelling, toList_spelling]
  · exact url_eq_of_pathNames hnames huri (fun n => (hperm.map _).mem_iff) h h'

/-- An operation with parameters of given names in its address, two of which are next to each
other there. One placeholder occurs twice, and one may be of no parameter. -/
def Operation.neighbours (names : List String) : Operation where
  id := "file"
  httpMethod := .get
  uri := "/\x7ba\x7d\x7bb\x7d/\x7bc\x7d/\x7ba\x7d"
  parameters := names.map fun name => { name, location := .path }

/-- Both orders of the parameters give the same address. -/
theorem neighbours_substitutes_occurrences :
    ∃ e, (Operation.neighbours ["a", "b"]).url = .ok e ∧
      (Operation.neighbours ["b", "a"]).url = .ok e ∧
      ∃ (text : String) (ss : List (String × String)),
        e = .plus (.member .this "baseUrl")
          (.template ⟨text, ss.map fun s => ⟨parameterReference s.1, s.2⟩⟩) ∧
        ∀ i n, (i, n) ∈ substitutionPlaces text.length ss ↔
          (∃ p ∈ (Operation.neighbours ["a", "b"]).parametersIn .path, p.name = n) ∧
            OccursAt (placeholder n) (Operation.neighbours ["a", "b"]).uri i := by
  have hfree : ∀ p ∈ (Operation.neighbours ["a", "b"]).parametersIn .path, BraceFree p.name := by
    decide
  obtain ⟨e, he⟩ : ∃ e, (Operation.neighbours ["a", "b"]).url = .ok e := ⟨_, rfl⟩
  obtain ⟨e', he'⟩ : ∃ e, (Operation.neighbours ["b", "a"]).url = .ok e := ⟨_, rfl⟩
  obtain ⟨text, ss, hexpr, _, _, hplaces, hsame⟩ := url_substitutes_occurrences hfree he
  obtain rfl := hsame (.neighbours ["b", "a"]) e' rfl (.swap ..) he'
  exact ⟨e', he, he', text, ss, hexpr, hplaces⟩

end Url

end TypedClient
