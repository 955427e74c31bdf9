import TypedClient.Proofs.TypeScript.TypeForm

/-!
# Grouping

The text of a type says its form just where its parentheses are those that the form needs.

## Main definitions

* `TypeExpr.groupsRight`, `TypeExpr.Faithful`: where the parentheses of a type, and of all types
  in it, are those its form needs
* `TypeExpr.followed`: the members of a form, with what follows them
* `TypeForm.operands`: how many operands a form has

## Main results

* `TypeExpr.operandsOfAll_written`: no operand is lost or won when a text is read
* `TypeExpr.saysFormIff`: when a text with suffixes and members after it says what it should
* `TypeExpr.writtenForm_eq_form_iff`: the text of a type says its form just if the type is
  faithful
-/

namespace TypedClient.TypeScript

open TypeForm (ofMembers keyofFirst)

/-! ## Faithful types -/

theorem all_attach (o : Option TypeExpr) (f : TypeExpr → Bool) :
    (o.attach.all fun ⟨t, _⟩ => f t) = o.all f := by
  cases o <;> rfl

namespace TypeExpr

/-- Whether members that follow the text of a type are not taken into it. -/
def endsClosed : TypeExpr → Bool
  | .union members => members.getLast?.attach.all fun ⟨t, _⟩ => endsClosed t
  | .keyof base => base.isCompound || endsClosed base
  | .function .. => false
  | _ => true
termination_by t => sizeOf t
decreasing_by
  · exact sizeOf_lt_union (List.mem_of_getLast? ‹_›)
  · simp

/-- Whether the text of a type is grouped as its form is, as far as its outermost kind goes: an
operand that needs parentheses in its form has them, a function is no member of a union but the
last, and a number is not written like a name. -/
def groupsRight : TypeExpr → Prop
  | .literal (.number value) => value ≠ .nan ∧ value ≠ .infinite false
  | .union members => ∀ t ∈ members.dropLast, t.endsClosed
  | .array element => element.form.needsParens → element.needsParens
  | .indexed base _ => base.form.needsParens → base.needsParens
  | .keyof base => base.form.isUnion → base.isCompound
  | _ => True

/-- A type is faithful if all types in it are grouped as their forms are. -/
def Faithful (t : TypeExpr) : Prop :=
  ∀ u ∈ t.parts, u.groupsRight

@[simp]
theorem endsClosed_union (members : List TypeExpr) :
    (union members).endsClosed = members.getLast?.all endsClosed := by
  rw [endsClosed]
  exact all_attach _ endsClosed

/-- What is an operand without parentheses takes nothing in. -/
theorem endsClosed_of_needsParens_form {t : TypeExpr} (h : t.form.needsParens = false) :
    t.endsClosed := by
  induction t using TypeExpr.induction with
  | union_nil => simp
  | union_singleton t ih => simpa using ih (by simpa using h)
  | union_cons t u ts _ _ => simp [form_union_cons, TypeForm.needsParens] at h
  | keyof base _ => simp [form, alternatives, ofMembers, TypeForm.needsParens] at h
  | function typeParams params result _ _ _ => simp [form, ofMembers, TypeForm.needsParens] at h
  | _ => simp [endsClosed]

end TypeExpr

theorem literalWrittenForm_eq_iff (value : Literal) :
    literalWrittenForm value = literalForm value ↔ (TypeExpr.literal value).groupsRight := by
  match value with
  | .number .nan => simp [literalWrittenForm, literalForm, TypeExpr.groupsRight]
  | .number (.infinite false) => simp [literalWrittenForm, literalForm, TypeExpr.groupsRight]
  | .number (.infinite true) => exact iff_of_true rfl (by simp [TypeExpr.groupsRight])
  | .number (.finite ..) => exact iff_of_true rfl (by simp [TypeExpr.groupsRight])
  | .string _ => exact iff_of_true rfl trivial
  | .integer _ => exact iff_of_true rfl trivial
  | .bool _ => exact iff_of_true rfl trivial
  | .null => exact iff_of_true rfl trivial

/-! ## Suffixes -/

theorem Suffix.on_inj {s s' : Suffix} {v w : TypeForm} : s.on v = s'.on w ↔ s = s' ∧ v = w := by
  cases s <;> cases s' <;> simp [on, and_comm]

theorem suffixed_inj {suffixes suffixes' : List Suffix} (h : suffixes.length = suffixes'.length)
    (v w : TypeForm) :
    suffixed suffixes v = suffixed suffixes' w ↔ suffixes = suffixes' ∧ v = w := by
  induction suffixes generalizing suffixes' v w with
  | nil => simp [List.length_eq_zero_iff.mp h.symm, suffixed]
  | cons s suffixes ih =>
    obtain _ | ⟨s', suffixes'⟩ := suffixes'
    · cases h
    · rw [suffixed, suffixed, ih (Nat.succ.inj h), Suffix.on_inj, List.cons.injEq]
      tauto

/-- An operand with a suffix is neither a union, nor does it begin with more than an operand. -/
theorem suffixed_shape (suffixes : List Suffix) {v : TypeForm} (hunion : v.isUnion = false)
    (hprefixed : v.isPrefixed = false) :
    (suffixed suffixes v).isUnion = false ∧ (suffixed suffixes v).isPrefixed = false := by
  induction suffixes generalizing v with
  | nil => exact ⟨hunion, hprefixed⟩
  | cons s suffixes ih => cases s <;> exact ih rfl rfl

theorem suffixed_cons_shape (s : Suffix) (suffixes : List Suffix) (v : TypeForm) :
    (suffixed (s :: suffixes) v).isUnion = false ∧
      (suffixed (s :: suffixes) v).isPrefixed = false := by
  cases s <;> exact suffixed_shape suffixes rfl rfl

/-! ## Operands are kept

What is read from a text has the operands of the type it was printed from, in whatever way they
are grouped. -/

namespace TypeForm

mutual

/-- How many operands a form has at its front: those of all members of a union. -/
def operands : TypeForm → Nat
  | .union members => operandsOfAll members
  | .array element => operands element
  | .indexed base _ => operands base
  | .keyof base => operands base
  | .function _ _ result => operands result
  | _ => 1

/-- How many operands several forms have. -/
def operandsOfAll : List TypeForm → Nat
  | [] => 0
  | v :: vs => v.operands + operandsOfAll vs

end

end TypeForm

open TypeForm (operands operandsOfAll)

@[simp]
theorem operandsOfAll_append (vs ws : List TypeForm) :
    operandsOfAll (vs ++ ws) = operandsOfAll vs + operandsOfAll ws := by
  induction vs with
  | nil => simp [operandsOfAll]
  | cons v vs ih => rw [List.cons_append, operandsOfAll, operandsOfAll, ih, Nat.add_assoc]

@[simp]
theorem operands_ofMembers (vs : List TypeForm) : (ofMembers vs).operands = operandsOfAll vs := by
  match vs with
  | [] => simp [ofMembers, operands]
  | [v] => simp [ofMembers, operandsOfAll]
  | v :: w :: vs => simp [ofMembers, operands]

@[simp]
theorem operands_suffixed (suffixes : List Suffix) (v : TypeForm) :
    (suffixed suffixes v).operands = v.operands := by
  induction suffixes generalizing v with
  | nil => rfl
  | cons s suffixes ih => cases s <;> simp [suffixed, Suffix.on, ih, operands]

@[simp]
theorem operandsOfAll_keyofFirst (vs : List TypeForm) :
    operandsOfAll (keyofFirst vs) = operandsOfAll vs := by
  cases vs <;> simp [keyofFirst, operandsOfAll, operands]

theorem operands_literalForm (value : Literal) : (literalForm value).operands = 1 := by
  cases value <;> rfl

/-- What the text of a constant says is an operand. -/
theorem literalWrittenForm_shape (value : Literal) :
    (literalWrittenForm value).isUnion = false ∧ (literalWrittenForm value).isPrefixed = false ∧
      (literalWrittenForm value).operands = 1 := by
  unfold literalWrittenForm
  split
  · exact ⟨rfl, rfl, rfl⟩
  · exact ⟨rfl, rfl, rfl⟩
  · cases value <;> exact ⟨rfl, rfl, rfl⟩

namespace TypeExpr

theorem operandsOfAll_grouped {parens : Bool} {text : List Suffix → List TypeForm → List TypeForm}
    {n : Nat} (h : ∀ suffixes others, operandsOfAll (text suffixes others) =
      n + operandsOfAll others) (suffixes : List Suffix) (others : List TypeForm) :
    operandsOfAll (grouped parens text suffixes others) = n + operandsOfAll others := by
  cases parens with
  | false => exact h suffixes others
  | true => simp [grouped, operandsOfAll, h]

/-- **No operand is lost or won** when a text is read. -/
theorem operandsOfAll_written (t : TypeExpr) (suffixes : List Suffix) (others : List TypeForm) :
    operandsOfAll (t.written suffixes others) =
      operandsOfAll t.alternatives + operandsOfAll others := by
  induction t using TypeExpr.induction generalizing suffixes others with
  | primitive keyword => simp [written, alternatives, operandsOfAll, operands]
  | literal value =>
    simp [written, alternatives, operandsOfAll, operands_literalForm, literalWrittenForm_shape]
  | union_nil => simp [written, chain, alternatives, operandsOfAll, operands]
  | union_singleton t ih => simpa using ih suffixes others
  | union_cons t u ts iht ihts =>
    rw [written_union_cons, iht, ihts, alternatives_union_cons, operandsOfAll_append,
      Nat.add_assoc]
  | array element ih =>
    rw [written, operandsOfAll_grouped ih]
    simp [alternatives, operandsOfAll, operands]
  | object properties _ => simp [written, operandsOfAll, operands]
  | named name arguments _ => simp [written, operandsOfAll, operands]
  | indexed base index ih _ =>
    rw [written, operandsOfAll_grouped ih]
    simp [alternatives, operandsOfAll, operands]
  | keyof base ih =>
    rw [written, operandsOfAll_keyofFirst, operandsOfAll_grouped ih]
    simp [alternatives, operandsOfAll, operands]
  | function typeParams params result _ _ ih =>
    simp [written_function, operandsOfAll, operands, ih, form]

theorem operandsOfAll_alternatives_pos (t : TypeExpr) : 0 < operandsOfAll t.alternatives := by
  induction t using TypeExpr.induction with
  | literal value => simp [alternatives, operandsOfAll, operands_literalForm]
  | union_singleton t ih => simpa using ih
  | union_cons t u ts iht _ =>
    rw [alternatives_union_cons, operandsOfAll_append]
    omega
  | function typeParams params result _ _ ih =>
    simpa [operandsOfAll, operands, form] using ih
  | _ => simp_all [alternatives, operandsOfAll, operands]

/-- Members the first of which is no union, and has no more than so many operands unless it
begins with more than an operand. -/
def BeginsWithin (n : Nat) (vs : List TypeForm) : Prop :=
  ∃ v ws, vs = v :: ws ∧ v.isUnion = false ∧ (v.isPrefixed = false → v.operands ≤ n)

theorem BeginsWithin.mono {n m : Nat} {vs : List TypeForm} (h : BeginsWithin n vs) (hnm : n ≤ m) :
    BeginsWithin m vs := by
  obtain ⟨v, ws, rfl, hunion, hn⟩ := h
  exact ⟨v, ws, rfl, hunion, fun hprefixed => Nat.le_trans (hn hprefixed) hnm⟩

theorem BeginsWithin.isUnion_head? {n : Nat} {vs : List TypeForm} (h : BeginsWithin n vs) :
    ∀ v ∈ vs.head?, v.isUnion = false := by
  obtain ⟨v, ws, rfl, hunion, -⟩ := h
  simpa using hunion

theorem beginsWithin_suffixed {n : Nat} {v : TypeForm} (hunion : v.isUnion = false)
    (hprefixed : v.isPrefixed = false) (hn : v.operands ≤ n) (suffixes : List Suffix)
    (others : List TypeForm) : BeginsWithin n (suffixed suffixes v :: others) :=
  ⟨_, _, rfl, (suffixed_shape suffixes hunion hprefixed).1, fun _ => by simpa using hn⟩

/-- An operand with a suffix, in parentheses or not. -/
theorem beginsWithin_grouped {t : TypeExpr} {n : Nat} (parens : Bool)
    (hn : operandsOfAll t.alternatives ≤ n)
    (h : ∀ suffixes others, BeginsWithin n (t.written suffixes others)) (s : Suffix)
    (suffixes : List Suffix) (others : List TypeForm) :
    BeginsWithin n (grouped parens t.written (s :: suffixes) others) := by
  cases parens with
  | false => exact h (s :: suffixes) others
  | true =>
    refine ⟨_, _, rfl, (suffixed_cons_shape s suffixes _).1, fun _ => ?_⟩
    rw [operands_suffixed, operands_ofMembers, operandsOfAll_written]
    exact hn

/-- The first member read from a text is no union, and it has no more operands than the type. -/
theorem beginsWithin_written (t : TypeExpr) (suffixes : List Suffix) (others : List TypeForm) :
    BeginsWithin (operandsOfAll t.alternatives) (t.written suffixes others) := by
  induction t using TypeExpr.induction generalizing suffixes others with
  | literal value =>
    obtain ⟨hunion, hprefixed, hone⟩ := literalWrittenForm_shape value
    rw [written]
    refine beginsWithin_suffixed hunion hprefixed ?_ suffixes others
    simp [alternatives, operandsOfAll, operands_literalForm, hone]
  | union_singleton t ih => simpa using ih suffixes others
  | union_cons t u ts ih _ =>
    rw [written_union_cons, alternatives_union_cons, operandsOfAll_append]
    exact (ih [] _).mono (Nat.le_add_right _ _)
  | array element ih =>
    have hn : operandsOfAll element.array.alternatives = operandsOfAll element.alternatives := by
      simp [alternatives, operandsOfAll, operands]
    rw [written, hn]
    exact beginsWithin_grouped _ (Nat.le_refl _) ih .array suffixes others
  | indexed base index ih _ =>
    have hn : operandsOfAll (base.indexed index).alternatives =
        operandsOfAll base.alternatives := by
      simp [alternatives, operandsOfAll, operands]
    rw [written, hn]
    exact beginsWithin_grouped _ (Nat.le_refl _) ih _ suffixes others
  | keyof base ih =>
    -- the first member that is read is a `keyof`, with or without parentheses after it
    obtain ⟨v, vs, hvs⟩ :
        ∃ v vs, grouped base.isCompound base.written suffixes others = v :: vs := by
      cases base.isCompound with
      | true => exact ⟨_, _, rfl⟩
      | false =>
        obtain ⟨v, vs, hvs, -, -⟩ := ih suffixes others
        exact ⟨v, vs, hvs⟩
    rw [written, hvs]
    exact ⟨_, _, rfl, rfl, fun h => absurd h.symm Bool.false_ne_true⟩
  | function typeParams params result _ _ _ =>
    rw [written_function]
    exact ⟨_, _, rfl, rfl, fun h => absurd h.symm Bool.false_ne_true⟩
  | _ =>
    rw [written]
    exact beginsWithin_suffixed rfl rfl (by simp [alternatives, operandsOfAll, operands]) _ _

/-! ## When a text says what it should -/

/-- The members of the form of a type followed by suffixes and further members. -/
def followed (t : TypeExpr) : List Suffix → List TypeForm → List TypeForm
  | [], others => t.alternatives ++ others
  | s :: suffixes, others => suffixed (s :: suffixes) t.form :: others

/-- A type can be followed by suffixes if its form is an operand, and by further members if it
does not take them in. -/
structure Fits (t : TypeExpr) (suffixes : List Suffix) (others : List TypeForm) : Prop where
  operand : suffixes ≠ [] → t.form.needsParens = false
  closed : others ≠ [] → t.endsClosed

theorem fits_of_needsParens_form {t : TypeExpr} (h : t.form.needsParens = false)
    (suffixes : List Suffix) (others : List TypeForm) : t.Fits suffixes others :=
  ⟨fun _ => h, fun _ => endsClosed_of_needsParens_form h⟩

theorem fits_cons_iff {t : TypeExpr} {s : Suffix} {suffixes : List Suffix}
    {others : List TypeForm} : t.Fits (s :: suffixes) others ↔ t.form.needsParens = false :=
  ⟨fun h => h.operand (List.cons_ne_nil _ _), fun h => fits_of_needsParens_form h _ _⟩

theorem fits_nil_iff {t : TypeExpr} {others : List TypeForm} :
    t.Fits [] others ↔ (others ≠ [] → t.endsClosed) :=
  ⟨fun h => h.closed, fun h => ⟨fun h => absurd rfl h, h⟩⟩

theorem followed_eq {t : TypeExpr} (h : t.form.isUnion = false) (suffixes : List Suffix)
    (others : List TypeForm) : t.followed suffixes others = suffixed suffixes t.form :: others := by
  cases suffixes with
  | nil => rw [followed, alternatives_eq_singleton h]; rfl
  | cons s suffixes => rfl

theorem isUnion_of_needsParens {v : TypeForm} (h : v.needsParens = false) : v.isUnion = false := by
  cases v <;> first | rfl | cases h

/-- That the text of a type, followed by suffixes and further members, says the form of the type
followed by as many suffixes and by further members just if the type is faithful and can be
followed by them, and the suffixes and members are those. -/
def SaysFormIff (t : TypeExpr) : Prop :=
  ∀ ⦃suffixes suffixes' : List Suffix⦄, suffixes.length = suffixes'.length →
    ∀ others others', t.written suffixes others = t.followed suffixes' others' ↔
      t.Faithful ∧ t.Fits suffixes others ∧ suffixes = suffixes' ∧ others = others'

section Faithful

variable {t : TypeExpr}

theorem SaysFormIff.nil (h : t.SaysFormIff) (others others' : List TypeForm) :
    t.written [] others = t.alternatives ++ others' ↔
      t.Faithful ∧ (others ≠ [] → t.endsClosed) ∧ others = others' := by
  have hlen : ([] : List Suffix).length = ([] : List Suffix).length := rfl
  have hiff := h hlen others others'
  rw [followed, fits_nil_iff] at hiff
  rw [hiff]
  simp

/-- The form that the text says without anything after it, and what is taken into it. -/
theorem SaysFormIff.ofMembers_eq_iff (h : t.SaysFormIff) (others : List TypeForm) :
    ofMembers (t.written [] others) = t.form ↔ t.Faithful ∧ others = [] := by
  have hinj : ofMembers (t.written [] others) = t.form ↔
      t.written [] others = t.alternatives ++ [] := by
    rw [List.append_nil]
    exact TypeForm.ofMembers_inj (t.beginsWithin_written [] others).isUnion_head? fun v hv =>
      t.isUnion_of_mem_alternatives v (List.mem_of_mem_head? hv)
  rw [hinj, h.nil]
  simp +contextual

theorem SaysFormIff.writtenForm_eq_iff (h : t.SaysFormIff) :
    t.writtenForm = t.form ↔ t.Faithful := by
  rw [writtenForm, h.ofMembers_eq_iff]
  simp

theorem map_writtenForm_eq_iff {o : Option TypeExpr} (h : ∀ u ∈ o, u.SaysFormIff) :
    o.map writtenForm = o.map form ↔ ∀ u ∈ o, u.Faithful := by
  cases o with
  | none => simp
  | some u => simpa using (h u rfl).writtenForm_eq_iff

theorem saysFormIff_operand {v : TypeForm} (hparens : t.form.needsParens = false)
    (hwritten : ∀ suffixes others, t.written suffixes others = suffixed suffixes v :: others)
    (hv : v = t.form ↔ t.Faithful) : t.SaysFormIff := by
  intro suffixes suffixes' h others others'
  have hfits := fits_of_needsParens_form hparens suffixes others
  rw [hwritten, followed_eq (isUnion_of_needsParens hparens), List.cons.injEq, suffixed_inj h, hv]
  tauto

theorem SaysFormIff.union_singleton (h : t.SaysFormIff) : (union [t]).SaysFormIff := by
  intro suffixes suffixes' hlen others others'
  have hfollowed : (union [t]).followed suffixes' others' = t.followed suffixes' others' := by
    cases suffixes' <;> simp [followed]
  have hfaithful : (union [t]).Faithful ↔ t.Faithful := by simp [Faithful, groupsRight]
  have hfits : (union [t]).Fits suffixes others ↔ t.Fits suffixes others :=
    ⟨fun h => ⟨by simpa using h.operand, by simpa using h.closed⟩,
      fun h => ⟨by simpa using h.operand, by simpa using h.closed⟩⟩
  rw [written_union_singleton, hfollowed, h hlen, hfaithful, hfits]

/-- A type that needs parentheses before a suffix does not say its form with one. -/
theorem saysFormIff_of_needsParens (hparens : t.form.needsParens = true)
    (hsuffix : ∀ suffixes others s suffixes' others',
      t.written suffixes others ≠ suffixed (s :: suffixes') t.form :: others')
    (h : ∀ others others', t.written [] others = t.alternatives ++ others' ↔
      t.Faithful ∧ (others ≠ [] → t.endsClosed) ∧ others = others') : t.SaysFormIff := by
  intro suffixes suffixes' hlen others others'
  obtain _ | ⟨s, suffixes⟩ := suffixes
  · obtain rfl := List.length_eq_zero_iff.mp hlen.symm
    rw [fits_nil_iff, followed, h]
    tauto
  · obtain _ | ⟨s', suffixes'⟩ := suffixes'
    · cases hlen
    refine iff_of_false (hsuffix _ others s' suffixes' others') fun h => ?_
    have hoperand := fits_cons_iff.mp h.2.1
    rw [hparens] at hoperand
    cases hoperand

theorem SaysFormIff.union_cons {u : TypeExpr} {ts : List TypeExpr} (ht : t.SaysFormIff)
    (hrest : (union (u :: ts)).SaysFormIff) : (union (t :: u :: ts)).SaysFormIff := by
  have hfaithful : (union (t :: u :: ts)).Faithful ↔
      t.Faithful ∧ t.endsClosed ∧ (union (u :: ts)).Faithful := by
    simp only [Faithful, forall_parts_union, List.forall_mem_cons, groupsRight,
      List.dropLast_cons_cons]
    tauto
  apply saysFormIff_of_needsParens
  · rw [form_union_cons]
    rfl
  · -- the suffixes go to the last member, so the first has too few operands for the whole
    intro suffixes others s suffixes' others' h
    obtain ⟨v, ws, hvs, -, hn⟩ :=
      t.beginsWithin_written [] ((union (u :: ts)).written suffixes others)
    rw [written_union_cons, hvs] at h
    obtain rfl := (List.cons.inj h).1
    have hle := hn (suffixed_cons_shape s suffixes' _).2
    have hpos := (union (u :: ts)).operandsOfAll_alternatives_pos
    rw [operands_suffixed, form, operands_ofMembers, alternatives_union_cons,
      operandsOfAll_append] at hle
    omega
  · -- each part of the text says its part of the form
    intro others others'
    have hne : (union (u :: ts)).written [] others ≠ [] := by
      obtain ⟨v, ws, hvs, -⟩ := (union (u :: ts)).beginsWithin_written [] others
      simp [hvs]
    have hlast : (union (t :: u :: ts)).endsClosed = (union (u :: ts)).endsClosed := by simp
    rw [written_union_cons, alternatives_union_cons, List.append_assoc, ht.nil, hrest.nil,
      hfaithful, hlast]
    simp [hne, and_assoc]

/-- An operand with a suffix: the parentheses are there if the form needs them. -/
theorem SaysFormIff.grouped (h : t.SaysFormIff) (s s' : Suffix) {suffixes suffixes' : List Suffix}
    (hlen : suffixes.length = suffixes'.length) (others others' : List TypeForm) :
    TypeExpr.grouped t.needsParens t.written (s :: suffixes) others =
        suffixed (s' :: suffixes') t.form :: others' ↔
      t.Faithful ∧ (t.form.needsParens → t.needsParens) ∧
        s :: suffixes = s' :: suffixes' ∧ others = others' := by
  have hlen' : (s :: suffixes).length = (s' :: suffixes').length := congrArg Nat.succ hlen
  cases hparens : t.needsParens with
  | false =>
    -- the suffix is read with the text of the type, which must be an operand by itself
    have hiff := h hlen' others others'
    rw [fits_cons_iff] at hiff
    simpa [TypeExpr.grouped, followed] using hiff
  | true =>
    -- the parentheses close the text, so it says its form with nothing after it
    rw [TypeExpr.grouped, if_pos rfl, List.cons.injEq, suffixed_inj hlen', h.ofMembers_eq_iff]
    tauto

/-- A type that is an operand with one suffix more than another. -/
theorem SaysFormIff.suffix {u : TypeExpr} (s s' : Suffix) (h : t.SaysFormIff)
    (hform : u.form = s'.on t.form)
    (hwritten : ∀ suffixes others, u.written suffixes others =
      TypeExpr.grouped t.needsParens t.written (s :: suffixes) others)
    (hfaithful : u.Faithful ↔ (t.form.needsParens → t.needsParens) ∧ t.Faithful ∧ s = s') :
    u.SaysFormIff := by
  intro suffixes suffixes' hlen others others'
  have hparens : u.form.needsParens = false := by
    rw [hform]
    cases s' <;> rfl
  have hgrouped := h.grouped s s' hlen others others'
  rw [suffixed, List.cons.injEq] at hgrouped
  rw [hwritten, followed_eq (isUnion_of_needsParens hparens), hform, hgrouped, hfaithful]
  constructor
  · rintro ⟨ht, hneeds, ⟨hs, hsuffixes⟩, hothers⟩
    exact ⟨⟨hneeds, ht, hs⟩, fits_of_needsParens_form hparens _ _, hsuffixes, hothers⟩
  · rintro ⟨⟨hneeds, ht, hs⟩, -, hsuffixes, hothers⟩
    exact ⟨ht, hneeds, ⟨hs, hsuffixes⟩, hothers⟩

theorem SaysFormIff.array (h : t.SaysFormIff) : (array t).SaysFormIff := by
  have hfaithful : (TypeExpr.array t).Faithful ↔
      (t.form.needsParens → t.needsParens) ∧ t.Faithful := forall_parts_array
  refine h.suffix .array .array ?_ (fun suffixes others => ?_) ?_
  · simp [form, alternatives, ofMembers, Suffix.on]
  · rw [written]
  · simpa using hfaithful

theorem SaysFormIff.indexed {index : TypeExpr} (h : t.SaysFormIff) (hindex : index.SaysFormIff) :
    (indexed t index).SaysFormIff := by
  have hfaithful : (TypeExpr.indexed t index).Faithful ↔
      (t.form.needsParens → t.needsParens) ∧ t.Faithful ∧ index.Faithful := forall_parts_indexed
  refine h.suffix (.index index.writtenForm) (.index index.form) ?_
    (fun suffixes others => ?_) ?_
  · simp [form, alternatives, ofMembers, Suffix.on]
  · rw [written]
    rfl
  · rw [hfaithful, Suffix.index.injEq, hindex.writtenForm_eq_iff]

theorem SaysFormIff.keyof (h : t.SaysFormIff) : (keyof t).SaysFormIff := by
  have hform : (TypeExpr.keyof t).form = .keyof t.form := by simp [form, alternatives, ofMembers]
  have hfaithful : (TypeExpr.keyof t).Faithful ↔
      (t.form.isUnion → t.isCompound) ∧ t.Faithful := forall_parts_keyof
  apply saysFormIff_of_needsParens
  · rw [hform]
    rfl
  · -- the suffixes go to the base, and a `keyof` remains
    intro suffixes others s suffixes' others' he
    rw [written] at he
    obtain ⟨v, hv⟩ := TypeForm.isKeyof_of_keyofFirst he
    have hshape := (suffixed_cons_shape s suffixes' (TypeExpr.keyof t).form).2
    rw [hv] at hshape
    cases hshape
  · intro others others'
    have hclosed : (TypeExpr.keyof t).endsClosed ↔ t.isCompound ∨ t.endsClosed := by
      simp [endsClosed]
    have halternatives : (TypeExpr.keyof t).alternatives = [.keyof t.form] := by
      simp [alternatives, form]
    rw [written, halternatives, List.singleton_append, TypeForm.keyofFirst_eq_cons, hfaithful,
      hclosed]
    cases hcompound : t.isCompound with
    | true =>
      -- nothing gets into the parentheses
      rw [TypeExpr.grouped, if_pos rfl, suffixed, List.cons.injEq, h.ofMembers_eq_iff]
      simp
    | false =>
      rw [TypeExpr.grouped, if_neg (by simp)]
      cases hunion : t.form.isUnion with
      | true =>
        -- no member that is read is a union
        obtain ⟨v, ws, hvs, hv, -⟩ := t.beginsWithin_written [] others
        refine iff_of_false (fun he => ?_) (by simp)
        rw [hvs] at he
        rw [(List.cons.inj he).1, hunion] at hv
        cases hv
      | false =>
        have hnil := h.nil others others'
        rw [alternatives_eq_singleton hunion, List.singleton_append] at hnil
        rw [hnil]
        simp

theorem SaysFormIff.function {typeParams : List (TypeParam TypeExpr)}
    {params : List (Param TypeExpr)} (hbounds : ∀ p ∈ typeParams, ∀ u ∈ p.bound, u.SaysFormIff)
    (hparams : ∀ p ∈ params, ∀ u ∈ p.type, u.SaysFormIff) (h : t.SaysFormIff) :
    (function typeParams params t).SaysFormIff := by
  have hform : (TypeExpr.function typeParams params t).form =
      .function (typeParams.map fun p => ⟨p.name, p.bound.map form⟩)
        (params.map fun p => ⟨p.name, p.type.map form, p.optional⟩) t.form := by
    simp [form, ofMembers]
  apply saysFormIff_of_needsParens
  · rw [hform]
    rfl
  · -- the suffixes go to the result, and a function remains
    intro suffixes others s suffixes' others' he
    rw [written_function] at he
    have hshape := (suffixed_cons_shape s suffixes' (TypeExpr.function typeParams params t).form).2
    rw [← (List.cons.inj he).1] at hshape
    cases hshape
  · intro others others'
    have hfaithful : (TypeExpr.function typeParams params t).Faithful ↔
        True ∧ (∀ p ∈ typeParams, ∀ u ∈ p.bound, u.Faithful) ∧
          (∀ p ∈ params, ∀ u ∈ p.type, u.Faithful) ∧ t.Faithful := forall_parts_function
    have hopen : (TypeExpr.function typeParams params t).endsClosed = false := by
      simp [endsClosed]
    have htypeParams : (typeParams.map fun p => TypeParam.mk p.name (p.bound.map writtenForm)) =
        (typeParams.map fun p => ⟨p.name, p.bound.map form⟩) ↔
          ∀ p ∈ typeParams, ∀ u ∈ p.bound, u.Faithful := by
      rw [List.map_inj_left]
      refine forall₂_congr fun p hp => ?_
      rw [TypeParam.mk.injEq, map_writtenForm_eq_iff (hbounds p hp)]
      simp
    have hparams' : (params.map fun p => Param.mk p.name (p.type.map writtenForm) p.optional) =
        (params.map fun p => ⟨p.name, p.type.map form, p.optional⟩) ↔
          ∀ p ∈ params, ∀ u ∈ p.type, u.Faithful := by
      rw [List.map_inj_left]
      refine forall₂_congr fun p hp => ?_
      rw [Param.mk.injEq, map_writtenForm_eq_iff (hparams p hp)]
      simp
    rw [written_function, alternatives_function, List.singleton_append, List.cons.injEq,
      TypeForm.function.injEq, h.ofMembers_eq_iff, hfaithful, hopen, htypeParams, hparams']
    -- the function takes in all that follows, so there may be nothing
    constructor
    · rintro ⟨⟨ht, hp, hfaithful, rfl⟩, rfl⟩
      exact ⟨⟨trivial, ht, hp, hfaithful⟩, fun h => absurd rfl h, rfl⟩
    · rintro ⟨⟨-, ht, hp, hfaithful⟩, hnone, rfl⟩
      obtain rfl : others = [] := by simpa using hnone
      exact ⟨⟨ht, hp, hfaithful, rfl⟩, rfl⟩

theorem saysFormIff_object {properties : List (Property TypeExpr)}
    (h : ∀ p ∈ properties, p.type.SaysFormIff) : (object properties).SaysFormIff := by
  have hform : (object properties).form =
      .object (properties.map fun p => ⟨p.name, p.type.form, p.optional⟩) := by
    simp [form, ofMembers]
  have hfaithful : (object properties).Faithful ↔ True ∧ ∀ p ∈ properties, p.type.Faithful :=
    forall_parts_object
  apply saysFormIff_operand
  · rw [hform]
    rfl
  · intro suffixes others
    rw [written]
  · rw [hform, hfaithful, TypeForm.object.injEq, List.map_inj_left, true_and]
    refine forall₂_congr fun p hp => ?_
    rw [Property.mk.injEq, ← writtenForm, (h p hp).writtenForm_eq_iff]
    simp

theorem saysFormIff_named (name : String) {arguments : List TypeExpr}
    (h : ∀ u ∈ arguments, u.SaysFormIff) : (named name arguments).SaysFormIff := by
  have hform : (named name arguments).form = .named name (arguments.map form) := by
    simp [form, ofMembers]
  have hfaithful : (named name arguments).Faithful ↔ True ∧ ∀ u ∈ arguments, u.Faithful :=
    forall_parts_named
  apply saysFormIff_operand
  · rw [hform]
    rfl
  · intro suffixes others
    rw [written]
  · rw [hform, hfaithful, TypeForm.named.injEq, List.map_inj_left, true_and]
    simp only [eq_self, true_and]
    exact forall₂_congr fun u hu => (h u hu).writtenForm_eq_iff

theorem saysFormIff_primitive (keyword : Primitive) : (primitive keyword).SaysFormIff := by
  have hform : (primitive keyword).form = .primitive keyword := by
    simp [form, alternatives, ofMembers]
  apply saysFormIff_operand
  · rw [hform]
    rfl
  · intro suffixes others
    rw [written]
  · rw [hform]
    simp [Faithful, groupsRight]

theorem saysFormIff_literal (value : Literal) : (literal value).SaysFormIff := by
  have hform : (literal value).form = literalForm value := by
    simp [form, alternatives, ofMembers]
  apply saysFormIff_operand
  · rw [hform]
    cases value <;> rfl
  · intro suffixes others
    rw [written]
  · rw [hform, literalWrittenForm_eq_iff]
    simp [Faithful]

theorem saysFormIff_union_nil : (union []).SaysFormIff := by
  have hform : (union []).form = .primitive .never := by simp [form, alternatives, ofMembers]
  apply saysFormIff_operand
  · rw [hform]
    rfl
  · intro suffixes others
    rw [written]
    rfl
  · rw [hform]
    simp [Faithful, groupsRight]

end Faithful

/-- **When a text says what it should**: just if the type is faithful and what follows is not
taken into it. -/
theorem saysFormIff (t : TypeExpr) : t.SaysFormIff := by
  induction t using TypeExpr.induction with
  | primitive keyword => exact saysFormIff_primitive keyword
  | literal value => exact saysFormIff_literal value
  | union_nil => exact saysFormIff_union_nil
  | union_singleton t ih => exact ih.union_singleton
  | union_cons t u ts iht ihts => exact iht.union_cons ihts
  | array element ih => exact ih.array
  | object properties ih => exact saysFormIff_object ih
  | named name arguments ih => exact saysFormIff_named name ih
  | indexed base index ihbase ihindex => exact ihbase.indexed ihindex
  | keyof base ih => exact ih.keyof
  | function typeParams params result ihbounds ihparams ih =>
    exact ih.function ihbounds ihparams

/-- **The text of a type says its form** just if the type is faithful. -/
theorem writtenForm_eq_form_iff (t : TypeExpr) : t.writtenForm = t.form ↔ t.Faithful :=
  t.saysFormIff.writtenForm_eq_iff

end TypeExpr

end TypedClient.TypeScript
