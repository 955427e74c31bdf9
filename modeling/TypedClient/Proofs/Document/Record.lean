import Mathlib.Data.List.Nodup
import TypedClient.Json.Format
import TypedClient.Proofs.Document.Spelling
import TypedClient.Proofs.Outcome

/-!
# Reading the parts of documents from JSON

What the readers of the basic shapes make of the trees that stand for a value. A record is read in
the order of its members: a member that is not known is passed over, a known one adds its value,
so that the values of the record are found whatever the order is and whatever stands between them.

## Main definitions

* `Reads`: a reader that takes the trees of a value for this value
* `FieldsRead`: the readers of the known fields of a record, with what they give
* `RecordHolds`: the values of the fields that a record gives

## Main results

* `Reads.list`, `Reads.option`: lists, and values that may be absent
* `exists_readNamed`: the members of a record give the values of its known fields and no others
* `Reads.recordOf`: a record that is made from these values
-/

namespace TypedClient

open Json (format)

/-- A reader takes every tree that stands for a value for this value. -/
def Reads {α : Type} (spells : Json → Prop) (read : Reader (Except ReadFault) Json α) (a : α) :
    Prop :=
  ∀ v, v.isWhole = true → spells v → read v = .ok a

/-! ## Basic shapes -/

section Shapes

variable {α β : Type} {read : Reader (Except ReadFault) Json α} {a : α}

theorem Reads.map {spells : Json → Prop} (h : Reads spells read a) (g : α → β) :
    Reads spells (fun v => g <$> read v) (g a) := by
  intro v hwhole hv
  exact map_eq_ok.mpr ⟨a, h v hwhole hv, rfl⟩

theorem Reads.text (text : String) : Reads (TextSpelled text) format.text text := by
  rintro v - rfl
  rfl

theorem Reads.flag (value : Bool) : Reads (· = .bool value) format.flag value := by
  rintro v - rfl
  rfl

/-- A value by its name. -/
theorem Reads.oneOf {ofName? : String → Option α} {name : String} (h : ofName? name = some a) :
    Reads (TextSpelled name) (format.oneOf ofName?) a := by
  rintro v - rfl
  refine bind_eq_ok.mpr ⟨name, rfl, ?_⟩
  rw [h]
  rfl

/-- A value under either of two names. -/
theorem Reads.or {spells spells' : Json → Prop} (h : Reads spells read a)
    (h' : Reads spells' read a) : Reads (fun v => spells v ∨ spells' v) read a :=
  fun v hwhole hv => hv.elim (h v hwhole) (h' v hwhole)

theorem option_eq_ok {v : Json} (h : read v = .ok a) (hnull : v ≠ .null) :
    format.option read v = .ok (some a) := by
  have hread : some <$> read v = .ok (some a) := map_eq_ok.mpr ⟨a, h, rfl⟩
  cases v with
  | null => exact absurd rfl hnull
  | _ => exact hread

/-- A value that may be absent. -/
theorem Reads.option {spells : α → Json → Prop} {value : Option α}
    (h : ∀ a, Reads (spells a) read a) (hnull : ∀ a, ¬ spells a .null) :
    Reads (fun v => (value = none ∧ v = .null) ∨ ∃ a, value = some a ∧ spells a v)
      (format.option read) value := by
  rintro v hwhole (⟨rfl, rfl⟩ | ⟨a, rfl, hv⟩)
  · rfl
  · exact option_eq_ok (h a v hwhole hv) fun he => hnull a (he ▸ hv)

/-! ### Lists -/

theorem allWhole_iff {vs : List Json} : Json.allWhole vs = true ↔ ∀ v ∈ vs, v.isWhole = true := by
  induction vs with
  | nil => simp [Json.allWhole]
  | cons v vs ih => simp [Json.allWhole, ih]

theorem membersWhole_iff {ms : List (Option String × Json)} :
    Json.membersWhole ms = true ↔ ∀ m ∈ ms, m.2.isWhole = true := by
  induction ms with
  | nil => simp [Json.membersWhole]
  | cons m ms ih =>
    obtain ⟨key, v⟩ := m
    simp [Json.membersWhole, Json.memberWhole, ih]

theorem readAll_eq_ok {xs : List α} {vs : List Json}
    (h : List.Forall₂ (fun x v => read v = .ok x) xs vs) : readAll read vs = .ok xs := by
  induction h with
  | nil => rfl
  | cons hx _ ih => exact bind_eq_ok.mpr ⟨_, hx, bind_eq_ok.mpr ⟨_, ih, rfl⟩⟩

/-- A list whose items are read one level down. -/
theorem Reads.list {spells : α → Nat → Json → Prop}
    {read : Nat → Reader (Except ReadFault) Json α} {xs : List α}
    (h : ∀ x ∈ xs, ∀ d, Reads (spells x d) (read d) x) (depth : Nat) :
    Reads (ListSpelled spells xs depth) (format.list depth read) xs := by
  intro v hwhole hv
  cases depth with
  | zero => exact hv.elim
  | succ d =>
    obtain ⟨items, rfl, hitems⟩ := hv
    refine readAll_eq_ok (List.forall₂_iff_zip.mpr ⟨hitems.length_eq, fun {x w} hxw => ?_⟩)
    exact h x (List.of_mem_zip hxw).1 d w (allWhole_iff.mp hwhole w (List.of_mem_zip hxw).2)
      ((List.forall₂_iff_zip.mp hitems).2 hxw)

theorem not_listSpelled_null {spells : α → Nat → Json → Prop} {xs : List α} {depth : Nat} :
    ¬ ListSpelled spells xs depth .null := by
  cases depth with
  | zero => exact id
  | succ d =>
    rintro ⟨items, hitems, -⟩
    cases hitems

end Shapes

/-! ## Records -/

section Records

variable {φ α : Type} {known : List FieldSpelling}
  {readers : FieldReaders (Except ReadFault) Json φ} {xs ys : List φ}

/-- The readers of the known fields of a record, each with the value it gives. -/
inductive FieldsRead :
    List FieldSpelling → FieldReaders (Except ReadFault) Json φ → List φ → Prop
  | nil : FieldsRead [] [] []
  | cons {field : FieldSpelling} {fields : List FieldSpelling}
      {read : Reader (Except ReadFault) Json φ}
      {readers : FieldReaders (Except ReadFault) Json φ} {x : φ} {xs : List φ}
      (h : Reads field.spells read x) (hs : FieldsRead fields readers xs) :
      FieldsRead (field :: fields) ((field.name, read) :: readers) (x :: xs)

theorem FieldsRead.length_eq (h : FieldsRead known readers xs) : known.length = xs.length := by
  induction h with
  | nil => rfl
  | cons _ _ ih => rw [List.length_cons, List.length_cons, ih]

/-- A name is that of a known field, with its reader and its value, or of none. -/
theorem FieldsRead.lookup_cases (h : FieldsRead known readers xs) (name : String) :
    (readers.lookup name = none ∧ ∀ field ∈ known, field.name ≠ name) ∨
      ∃ field x read, (field, x) ∈ known.zip xs ∧ field.name = name ∧
        readers.lookup name = some read ∧ Reads field.spells read x := by
  induction h with
  | nil => exact .inl ⟨rfl, nofun⟩
  | @cons field fields read readers x xs hread _ ih =>
    by_cases hname : field.name = name
    · refine .inr ⟨field, x, read, List.mem_cons_self .., hname, ?_, hread⟩
      rw [← hname, List.lookup_cons_self]
    · have hlookup : ((field.name, read) :: readers).lookup name = readers.lookup name := by
        rw [List.lookup_cons, beq_false_of_ne (Ne.symm hname)]
      rw [hlookup]
      rcases ih with ⟨hnone, hunknown⟩ | ⟨field', y, read', hmem, hfound⟩
      · exact .inl ⟨hnone, List.forall_mem_cons.mpr ⟨hname, hunknown⟩⟩
      · exact .inr ⟨field', y, read', List.mem_cons_of_mem _ hmem, hfound⟩

/-- Known fields of one name are one field. -/
theorem eq_of_mem_zip_of_name (hnames : (known.map FieldSpelling.name).Nodup)
    (hlength : known.length = xs.length) {p q : FieldSpelling × φ} (hp : p ∈ known.zip xs)
    (hq : q ∈ known.zip xs) (h : p.1.name = q.1.name) : p = q := by
  have hzip : ((known.zip xs).map (FieldSpelling.name ∘ Prod.fst)).Nodup := by
    rw [← List.map_map, List.map_fst_zip (Nat.le_of_eq hlength)]
    exact hnames
  exact List.inj_on_of_nodup_map hzip hp hq h

section Members

variable {name : String} {v : Json} {seen : List String}
  {entries : List (Except ReadFault String × Json)}

/-- A member that is not known is passed over. -/
theorem readNamed_of_lookup_eq_none (hlookup : readers.lookup name = none)
    (hwhole : v.isWhole = true) :
    readNamed format.skip readers seen ((.ok name, v) :: entries) =
      readNamed format.skip readers seen entries := by
  simp only [readNamed, bind, Except.bind, hlookup, format, if_pos hwhole]

/-- A known member that is no repetition adds its value. -/
theorem readNamed_of_lookup_eq_some {read : Reader (Except ReadFault) Json φ} {x : φ}
    (hlookup : readers.lookup name = some read) (hseen : name ∉ seen) (hx : read v = .ok x)
    (hys : readNamed format.skip readers (name :: seen) entries = .ok ys) :
    readNamed format.skip readers seen ((.ok name, v) :: entries) = .ok (x :: ys) := by
  simp only [readNamed, bind, Except.bind, hlookup, if_neg hseen, hx, hys, pure, Except.pure]

end Members

/-- **The members of a record give the values of its known fields** and nothing else: the members
that are not known are passed over, and none of the known ones is a repetition. -/
theorem exists_readNamed (hread : FieldsRead known readers xs)
    (hnames : (known.map FieldSpelling.name).Nodup) {fields : List (String × Json)}
    {seen : List String}
    (hgiven : ∀ field ∈ known, ∀ v, (field.name, v) ∈ fields → field.spells v)
    (honce : ∀ field ∈ known, (seen ++ fields.map Prod.fst).count field.name ≤ 1)
    (hwhole : ∀ p ∈ fields, p.2.isWhole = true) :
    ∃ ys, readNamed format.skip readers seen (fields.map fun p => (.ok p.1, p.2)) = .ok ys ∧
      ys ⊆ xs ∧ ∀ p ∈ known.zip xs, p.1.name ∈ fields.map Prod.fst → p.2 ∈ ys := by
  induction fields generalizing seen with
  | nil => exact ⟨[], rfl, List.nil_subset _, nofun⟩
  | cons member fields ih =>
    obtain ⟨name, v⟩ := member
    obtain ⟨hv, hrest⟩ := List.forall_mem_cons.mp hwhole
    have hgiven' : ∀ field ∈ known, ∀ w, (field.name, w) ∈ fields → field.spells w :=
      fun field hfield w hw => hgiven field hfield w (List.mem_cons_of_mem _ hw)
    rcases hread.lookup_cases name with ⟨hnone, hunknown⟩ | ⟨field, x, read, hmem, rfl, hsome, hx⟩
    · -- a member that is not known adds nothing
      have honce' : ∀ field ∈ known, (seen ++ fields.map Prod.fst).count field.name ≤ 1 := by
        intro field hfield
        have := honce field hfield
        rwa [List.map_cons, List.count_append, List.count_cons_of_ne (hunknown field hfield).symm,
          ← List.count_append] at this
      obtain ⟨ys, hys, hsubset, hfound⟩ := ih hgiven' honce' hrest
      refine ⟨ys, (readNamed_of_lookup_eq_none hnone hv).trans hys, hsubset, fun p hp hname => ?_⟩
      refine hfound p hp ((List.mem_cons.mp hname).resolve_left ?_)
      exact hunknown p.1 (List.of_mem_zip hp).1
    · -- a known member adds its value, and its name counts as seen from here on
      have hfield : field ∈ known := (List.of_mem_zip hmem).1
      have honce' : ∀ other ∈ known,
          (field.name :: seen ++ fields.map Prod.fst).count other.name ≤ 1 := by
        intro other hother
        rw [List.cons_append, ← List.perm_middle.count_eq]
        exact honce other hother
      have hseen : field.name ∉ seen := by
        intro hmem
        have hcount := honce field hfield
        rw [List.map_cons, List.count_append, List.count_cons_self] at hcount
        have := List.count_pos_iff.mpr hmem
        omega
      obtain ⟨ys, hys, hsubset, hfound⟩ := ih hgiven' honce' hrest
      have hvalue : read v = .ok x :=
        hx v hv (hgiven field hfield v (List.mem_cons_self ..))
      refine ⟨x :: ys, readNamed_of_lookup_eq_some hsome hseen hvalue hys,
        List.cons_subset.mpr ⟨(List.of_mem_zip hmem).2, hsubset⟩, fun p hp hname => ?_⟩
      rcases List.mem_cons.mp hname with hname | hname
      · have := eq_of_mem_zip_of_name hnames hread.length_eq hp hmem hname
        rw [this]
        exact List.mem_cons_self ..
      · exact List.mem_cons_of_mem _ (hfound p hp hname)

/-- The values of the known fields of a record that are given, where every other field has its
default. -/
structure RecordHolds (known : List FieldSpelling) (xs ys : List φ) : Prop where
  subset : ys ⊆ xs
  given : List.Forall₂ (fun field x => x ∈ ys ∨ field.isDefault) known xs

/-- A tree of a record is read for the values of its fields. -/
theorem exists_record {readers : Nat → FieldReaders (Except ReadFault) Json φ} {v : Json}
    {depth : Nat} (hread : FieldsRead known (readers depth) xs)
    (hnames : (known.map FieldSpelling.name).Nodup) (hwhole : v.isWhole = true)
    (hv : RecordSpelled known v) (least : Nat) :
    ∃ ys, format.record (depth + 1) least readers v = .ok ys ∧ RecordHolds known xs ys := by
  obtain ⟨fields, rfl, hfields⟩ := hv
  have hmembers : ∀ p ∈ fields, p.2.isWhole = true := fun p hp =>
    membersWhole_iff.mp hwhole _ (List.mem_map.mpr ⟨p, hp, rfl⟩)
  have honce : ∀ field ∈ known, ([] ++ fields.map Prod.fst).count field.name ≤ 1 := hfields.once
  obtain ⟨ys, hys, hsubset, hfound⟩ :=
    exists_readNamed hread hnames hfields.given honce hmembers
  refine ⟨ys, ?_, hsubset, List.forall₂_iff_zip.mpr ⟨hread.length_eq, fun {field x} hmem => ?_⟩⟩
  · rw [← hys]
    change readNamed format.skip (readers depth) []
      ((fields.map fun p => (some p.1, p.2)).map fun p => (Json.keyOf p.1, p.2)) = _
    rw [List.map_map]
    rfl
  · by_cases hname : field.name ∈ fields.map Prod.fst
    · exact .inl (hfound (field, x) hmem hname)
    · exact .inr (hfields.absent field (List.of_mem_zip hmem).1 hname)

/-- A record that is made from the values of its fields. -/
theorem Reads.recordOf {readers : Nat → FieldReaders (Except ReadFault) Json φ}
    {ofFields : List φ → Except ReadFault α} {a : α} {depth least : Nat}
    (hread : FieldsRead known (readers depth) xs) (hnames : (known.map FieldSpelling.name).Nodup)
    (hof : ∀ ys, RecordHolds known xs ys → ofFields ys = .ok a) :
    Reads (RecordSpelled known) (format.recordOf (depth + 1) least readers ofFields) a := by
  intro v hwhole hv
  obtain ⟨ys, hys, hholds⟩ := exists_record hread hnames hwhole hv least
  refine bind_eq_ok.mpr ⟨ys, hys, ?_⟩
  rw [hof ys hholds]
  rfl

theorem not_recordSpelled_null : ¬ RecordSpelled known .null := by
  rintro ⟨fields, hfields, -⟩
  cases hfields

end Records

/-! ## Fields of records -/

section Fields

variable {φ α : Type} {xs ys : List φ} {select : φ → Option α} {x : φ} {a : α}

/-- A field that selects one value of those there can be. -/
theorem optionalField_of_subset (hys : ys ⊆ xs) (hselect : ∀ y ∈ xs, select y = none ∨ y = x)
    (hx : select x = some a) :
    optionalField select ys = none ∧ x ∉ ys ∨ optionalField select ys = some a := by
  cases h : optionalField select ys with
  | none =>
    refine .inl ⟨rfl, fun hmem => ?_⟩
    rw [List.findSome?_eq_none_iff.mp h x hmem] at hx
    cases hx
  | some b =>
    obtain ⟨y, hmem, hy⟩ := List.exists_of_findSome?_eq_some h
    rcases hselect y (hys hmem) with hnone | rfl
    · rw [hnone] at hy
      cases hy
    · exact .inr (hy.symm.trans hx)

theorem requiredField_eq_ok {name : String} (hys : ys ⊆ xs)
    (hselect : ∀ y ∈ xs, select y = none ∨ y = x) (hmem : x ∈ ys ∨ False)
    (hx : select x = some a) : requiredField name select ys = .ok a := by
  rcases optionalField_of_subset hys hselect hx with ⟨-, hnot⟩ | hsome
  · exact absurd (hmem.resolve_right id) hnot
  · rw [optionalField] at hsome
    rw [requiredField, hsome]

theorem getD_optionalField {d : α} (hys : ys ⊆ xs) (hselect : ∀ y ∈ xs, select y = none ∨ y = x)
    (hmem : x ∈ ys ∨ a = d) (hx : select x = some a) : (optionalField select ys).getD d = a := by
  rcases optionalField_of_subset hys hselect hx with ⟨hnone, hnot⟩ | hsome
  · rw [hnone]
    exact (hmem.resolve_left hnot).symm
  · rw [hsome, Option.getD_some]

theorem join_optionalField {select : φ → Option (Option α)} {value : Option α} (hys : ys ⊆ xs)
    (hselect : ∀ y ∈ xs, select y = none ∨ y = x) (hmem : x ∈ ys ∨ value = none)
    (hx : select x = some value) : (optionalField select ys).join = value := by
  rcases optionalField_of_subset hys hselect hx with ⟨hnone, hnot⟩ | hsome
  · rw [hnone]
    exact (hmem.resolve_left hnot).symm
  · rw [hsome, Option.join_some]

end Fields

end TypedClient
