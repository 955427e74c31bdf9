import TypedClient.Proofs.TypeScript.FormReader
import TypedClient.Proofs.TypeScript.Grouping

/-!
# Types with the same text

The text of a type determines what it says: every type whose names are no words of their own is
read back as its written form. So two types with the same text have the same written form, and
they have the same form if both are faithful. If only one of them is, the parentheses are missing
in the other, and they are different types.

## Main definitions

* `TypeExpr.PlainNames`: a type whose names cannot be taken for keywords
* `IsFormWord`: a word that says a form

## Main results

* `startsParams_type`, `startsParams_needsParens`: a type in parentheses is not taken for
  parameters
* `reads_print`: a printed type is read back as its text says
* `TypeExpr.writtenForm_eq_of_print_eq`: the text of a type determines its written form
* `TypeExpr.form_eq_iff_of_print_eq`: which types with the text of a faithful type have its form
-/

namespace TypedClient.TypeScript

open Text
open TypeForm (ofMembers keyofFirst)

/-! ## Words -/

/-- The words that types are written with. -/
def typeWords : List String :=
  "keyof" :: wordForms.map Prod.fst

theorem wordForm_of_notMem {word : String} (h : word ∉ typeWords) :
    wordForm word = if Identifier.isValid word then .named word [] else .numeral word := by
  have hnone : wordForms.lookup word = none := by
    rw [List.lookup_eq_none_iff]
    intro p hp
    refine bne_iff_ne.mpr fun he => h ?_
    rw [he]
    exact List.mem_cons_of_mem _ (List.mem_map_of_mem hp)
  rw [wordForm, hnone]
  rfl

/-- A word that says a form and is no operator. -/
structure IsFormWord (word : String) (v : TypeForm) : Prop where
  ne_nil : word.toList ≠ []
  isFormChar : ∀ c ∈ word.toList, isFormChar c
  ne_keyof : word ≠ "keyof"
  form : wordForm word = v

theorem IsFormWord.isOperand {word : String} {v : TypeForm} (h : IsFormWord word v) :
    IsOperand word.toList v := by
  rw [← h.form]
  exact isOperand_word h.ne_nil h.isFormChar h.ne_keyof

/-- No mark of a parameter comes after a word in a type. -/
theorem startsParams_word {word s : List Char} (hword : ∀ c ∈ word, isFormChar c)
    (hs : ∀ c ∈ s.head?, c ∈ [' ', '[', '<']) : startsParams (word ++ s) = false := by
  induction word with
  | nil =>
    cases s with
    | nil => rfl
    | cons c s =>
      have hall : [' ', '[', '<'].all fun d =>
          !Identifier.isPart d && !paramMarks.contains d := by decide
      obtain ⟨hpart, hmark⟩ := Bool.and_eq_true_iff.mp (List.all_eq_true.mp hall c (hs c rfl))
      rw [Bool.not_eq_true'] at hpart hmark
      rw [List.nil_append, startsParams, List.dropWhile_cons, hpart, if_neg (by simp)]
      exact hmark
  | cons c word ih =>
    obtain ⟨hc, hword⟩ := List.forall_mem_cons.mp hword
    rw [List.cons_append, startsParams, List.dropWhile_cons]
    split
    · exact ih hword
    · next hpart =>
      -- a point or a minus sign, which is no mark
      simp only [isFormChar, Bool.or_eq_true, beq_iff_eq] at hc
      rcases hc with (hc | rfl) | rfl
      · exact absurd hc hpart
      · rfl
      · rfl

theorem isFormWord_of_all {word : String} {v : TypeForm} (hform : wordForm word = v)
    (hne : word.toList ≠ []) (hchars : word.toList.all isFormChar) (hkeyof : word ≠ "keyof") :
    IsFormWord word v :=
  ⟨hne, List.all_eq_true.mp hchars, hkeyof, hform⟩

theorem isFormWord_primitive (keyword : Primitive) :
    IsFormWord keyword.print (.primitive keyword) := by
  cases keyword <;> exact isFormWord_of_all rfl (by decide) (by decide) (by decide)

theorem isFormChar_of_isName {name : String} (hname : Identifier.isValid name) :
    ∀ c ∈ name.toList, isFormChar c := fun c hc => by
  simp [isFormChar, Identifier.isPart_of_isName hname c hc]

/-- A plain name says itself. -/
theorem isFormWord_name {name : String} (hname : Identifier.isValid name)
    (hplain : name ∉ typeWords) : IsFormWord name (.named name []) := by
  refine ⟨fun hnil => ?_, isFormChar_of_isName hname, ?_, ?_⟩
  · rw [Identifier.isValid, hnil] at hname
    cases hname
  · rintro rfl
    exact hplain List.mem_cons_self
  · rw [wordForm_of_notMem hplain, if_pos hname]

/-- The characters of a numeral begin no name. -/
theorem isStart_of_isNumeralChar {c : Char} (h : Decimal.isNumeralChar c) :
    Identifier.isStart c = false := by
  by_contra hstart
  rw [Bool.not_eq_false] at hstart
  simp only [Decimal.isNumeralChar, Identifier.isDigit_of_isStart hstart, Bool.false_or,
    Bool.or_eq_true, beq_iff_eq] at h
  rcases h with rfl | rfl
  · exact absurd hstart (by decide)
  · exact absurd hstart (by decide)

/-- A numeral says itself: it is no name, and no keyword looks like a number. -/
theorem isFormWord_numeral {word : String} (hne : word.toList ≠ [])
    (hchars : ∀ c ∈ word.toList, Decimal.isNumeralChar c) : IsFormWord word (.numeral word) := by
  have hplain : word ∉ typeWords := by
    have hletter : ∀ w ∈ typeWords, w.toList.all Decimal.isNumeralChar = false := by decide
    intro hword
    have hall := hletter word hword
    rw [List.all_eq_true.mpr hchars] at hall
    cases hall
  have hinvalid : Identifier.isValid word = false := by
    obtain ⟨c, cs, hcs⟩ := List.exists_cons_of_ne_nil hne
    rw [Identifier.isValid, hcs, Identifier.isName,
      isStart_of_isNumeralChar (hchars c (by simp [hcs])), Bool.false_and]
  refine ⟨hne, fun c hc => ?_, ?_, ?_⟩
  · have hnumeral := hchars c hc
    simp only [Decimal.isNumeralChar, Bool.or_eq_true] at hnumeral
    simp only [isFormChar, Identifier.isPart, Char.isAlphanum, Bool.or_eq_true]
    tauto
  · rintro rfl
    exact hplain List.mem_cons_self
  · rw [wordForm_of_notMem hplain, if_neg (by simp [hinvalid])]

/-- A constant is a string or a word. -/
theorem literal_cases (value : Literal) :
    (∃ text, value = .string text) ∨
      IsFormWord (printLiteral value) (literalWrittenForm value) := by
  match value with
  | .string text => exact .inl ⟨text, rfl⟩
  | .number .nan => exact .inr (isFormWord_of_all rfl (by decide) (by decide) (by decide))
  | .number (.infinite false) =>
    exact .inr (isFormWord_of_all rfl (by decide) (by decide) (by decide))
  | .number (.infinite true) =>
    exact .inr (isFormWord_of_all rfl (by decide) (by decide) (by decide))
  | .number (.finite negative significand exponent) =>
    obtain ⟨hne, hchars⟩ := Decimal.isNumeralChar_text_finite negative significand exponent
    exact .inr (isFormWord_numeral hne hchars)
  | .integer i =>
    obtain ⟨hne, hchars⟩ := Decimal.isNumeralChar_integerText i
    exact .inr (isFormWord_numeral hne hchars)
  | .bool b => cases b <;> exact .inr (isFormWord_of_all rfl (by decide) (by decide) (by decide))
  | .null => exact .inr (isFormWord_of_all rfl (by decide) (by decide) (by decide))

theorem isOperand_literal (value : Literal) :
    IsOperand (printLiteral value).toList (literalWrittenForm value) := by
  obtain ⟨text, rfl⟩ | hword := literal_cases value
  · exact isOperand_quoted text
  · exact hword.isOperand

/-! ## Plain names -/

namespace TypeExpr

/-- Whether the names that a type is written with, as far as its outermost kind goes, are names,
and a name that stands for a type is no word that types are written with. -/
def namesPlain : TypeExpr → Prop
  | .named name _ => Identifier.isValid name ∧ name ∉ typeWords
  | .function typeParams params _ =>
    (∀ p ∈ typeParams, Identifier.isValid p.name) ∧ ∀ p ∈ params, Identifier.isValid p.name
  | _ => True

instance : DecidablePred namesPlain
  | .named name _ => inferInstanceAs (Decidable (Identifier.isValid name ∧ name ∉ typeWords))
  | .function typeParams params _ =>
    inferInstanceAs (Decidable ((∀ p ∈ typeParams, Identifier.isValid p.name) ∧
      ∀ p ∈ params, Identifier.isValid p.name))
  | .primitive _ | .literal _ | .union _ | .array _ | .object _ | .indexed _ _ | .keyof _ =>
    isTrue trivial

/-- A type has plain names if all types in it have. -/
def PlainNames (t : TypeExpr) : Prop :=
  ∀ u ∈ t.parts, u.namesPlain

instance : DecidablePred PlainNames :=
  fun t => inferInstanceAs (Decidable (∀ u ∈ t.parts, u.namesPlain))

theorem plainNames_union_cons {t u : TypeExpr} {ts : List TypeExpr} :
    (union (t :: u :: ts)).PlainNames ↔ t.PlainNames ∧ (union (u :: ts)).PlainNames := by
  simp only [PlainNames, forall_parts_union, List.forall_mem_cons, namesPlain, true_and]

theorem plainNames_union_singleton {t : TypeExpr} :
    (union [t]).PlainNames ↔ t.PlainNames := by
  simp [PlainNames, namesPlain]

end TypeExpr

/-! ## Types after an opening parenthesis -/

theorem print_union_singleton (t : TypeExpr) :
    (TypeExpr.union [t]).print = t.print := by
  simp [TypeExpr.print, TypeExpr.printAll]

theorem toList_print_union_cons (t u : TypeExpr) (ts : List TypeExpr) :
    (TypeExpr.union (t :: u :: ts)).print.toList =
      t.print.toList ++ ' ' :: '|' :: ' ' :: (TypeExpr.union (u :: ts)).print.toList := by
  simp [TypeExpr.print, TypeExpr.printAll, toList_separated_cons]

/-- A text between parentheses does not look like parameters, and one without is left. -/
theorem startsParams_parenthesizeIf {parens : Bool} {text : String} {s : List Char}
    (h : parens = false → startsParams (text.toList ++ s) = false) :
    startsParams ((parenthesizeIf parens text).toList ++ s) = false := by
  cases parens with
  | false => exact h rfl
  | true =>
    have htext : (parenthesizeIf true text).toList ++ s = '(' :: (text.toList ++ ')' :: s) := by
      simp [parenthesizeIf]
    rw [htext]
    rfl

theorem startsParams_keyof (t : TypeExpr) (s : List Char) :
    startsParams ((TypeExpr.keyof t).print.toList ++ s) = false := by
  have htext : (TypeExpr.keyof t).print.toList ++ s =
      "keyof".toList ++ ' ' :: ((parenthesizeIf t.isCompound t.print).toList ++ s) := by
    simp [TypeExpr.print]
  rw [htext]
  exact startsParams_word (List.all_eq_true.mp (by decide)) (by simp)

theorem startsParams_function (typeParams : List (TypeParam TypeExpr))
    (params : List (Param TypeExpr)) (result : TypeExpr) (s : List Char) :
    startsParams ((TypeExpr.function typeParams params result).print.toList ++ s) = false := by
  cases typeParams with
  | nil =>
    rw [toList_print_function_nil]
    rfl
  | cons p ps =>
    rw [toList_print_function_cons]
    rfl

/-- A type after an opening parenthesis does not look like parameters, if an operator or a suffix
comes after it. -/
theorem startsParams_type (t : TypeExpr) (h : t.PlainNames) {s : List Char}
    (hs : ∀ c ∈ s.head?, c ∈ [' ', '[']) : startsParams (t.print.toList ++ s) = false := by
  have hangle {s : List Char} (hs : ∀ c ∈ s.head?, c ∈ [' ', '[']) :
      ∀ c ∈ s.head?, c ∈ [' ', '[', '<'] :=
    fun c hc => List.mem_append_left ['<'] (hs c hc)
  induction t using TypeExpr.induction generalizing s with
  | primitive keyword =>
    exact startsParams_word (isFormWord_primitive keyword).isFormChar (hangle hs)
  | literal value =>
    obtain ⟨text, rfl⟩ | hword := literal_cases value
    · have htext : (TypeExpr.literal (.string text)).print.toList ++ s =
          '"' :: (escapeQuoted text.toList ++ '"' :: s) := by
        simp [TypeExpr.print, printLiteral, quoted]
      rw [htext]
      rfl
    · exact startsParams_word hword.isFormChar (hangle hs)
  | union_nil => exact startsParams_word (isFormWord_primitive .never).isFormChar (hangle hs)
  | union_singleton t ih =>
    rw [print_union_singleton]
    exact ih (TypeExpr.plainNames_union_singleton.mp h) hs
  | union_cons t u ts ih _ =>
    -- the first member stands before a space
    rw [toList_print_union_cons, List.append_assoc, List.cons_append]
    exact ih (TypeExpr.plainNames_union_cons.mp h).1 (by simp)
  | array element ih =>
    rw [TypeExpr.print, String.toList_append, List.append_assoc]
    exact startsParams_parenthesizeIf fun _ => ih (TypeExpr.forall_parts_array.mp h).2 (by simp)
  | object properties _ =>
    rw [TypeExpr.print]
    split
    · rfl
    · rw [String.toList_append, String.toList_append, List.append_assoc, List.append_assoc]
      rfl
  | named name arguments _ =>
    have hname := isFormChar_of_isName (TypeExpr.forall_parts_named.mp h).1.1
    rw [TypeExpr.print, String.toList_append, List.append_assoc]
    apply startsParams_word hname
    unfold enclosedIf
    split
    · exact hangle hs
    · simp
  | indexed base index ih _ =>
    rw [TypeExpr.print, String.toList_append, String.toList_append, String.toList_append,
      List.append_assoc, List.append_assoc, List.append_assoc]
    exact startsParams_parenthesizeIf fun _ => ih (TypeExpr.forall_parts_indexed.mp h).2.1 (by simp)
  | keyof base _ => exact startsParams_keyof base s
  | function typeParams params result _ _ _ =>
    exact startsParams_function typeParams params result s

/-- What stands in parentheses does not look like parameters. -/
theorem startsParams_needsParens {t : TypeExpr} (h : t.PlainNames) (hparens : t.needsParens)
    (s : List Char) : startsParams (t.print.toList ++ s) = false := by
  match t with
  | .union (t :: u :: ts) =>
    rw [toList_print_union_cons, List.append_assoc, List.cons_append]
    exact startsParams_type t (TypeExpr.plainNames_union_cons.mp h).1 (by simp)
  | .keyof t => exact startsParams_keyof t s
  | .function typeParams params result => exact startsParams_function typeParams params result s

/-! ## Printed types are read back -/

theorem reads_grouped {t : TypeExpr} (h : t.PlainNames) {parens : Bool}
    (hparens : parens → t.needsParens)
    (ih : ∀ {tail suffixes others}, ReadsTail tail suffixes others →
      Reads (t.print.toList ++ tail) (t.written suffixes others))
    {tail : List Char} {suffixes : List Suffix} {others : List TypeForm}
    (htail : ReadsTail tail suffixes others) :
    Reads ((parenthesizeIf parens t.print).toList ++ tail)
      (TypeExpr.grouped parens t.written suffixes others) := by
  cases parens with
  | false => exact ih htail
  | true =>
    have htext : (parenthesizeIf true t.print).toList ++ tail =
        '(' :: (t.print.toList ++ [')']) ++ tail := by
      simp [parenthesizeIf]
    have hinner := ih readsTail_nil
    rw [List.append_nil] at hinner
    rw [htext]
    exact (isOperand_parenthesized hinner fun s =>
      startsParams_needsParens h (hparens rfl) _).reads htail

/-- **A printed type is read back** with what follows it, as its text says. -/
theorem reads_print (t : TypeExpr) (h : t.PlainNames) {tail : List Char}
    {suffixes : List Suffix} {others : List TypeForm} (htail : ReadsTail tail suffixes others) :
    Reads (t.print.toList ++ tail) (t.written suffixes others) := by
  induction t using TypeExpr.induction generalizing tail suffixes others with
  | primitive keyword =>
    rw [TypeExpr.print, TypeExpr.written]
    exact (isFormWord_primitive keyword).isOperand.reads htail
  | literal value =>
    rw [TypeExpr.print, TypeExpr.written]
    exact (isOperand_literal value).reads htail
  | union_nil =>
    rw [TypeExpr.written]
    exact (isFormWord_primitive .never).isOperand.reads htail
  | union_singleton t ih =>
    rw [print_union_singleton, TypeExpr.written_union_singleton]
    exact ih (TypeExpr.plainNames_union_singleton.mp h) htail
  | union_cons t u ts iht ihts =>
    obtain ⟨ht, hts⟩ := TypeExpr.plainNames_union_cons.mp h
    -- to the first member, the others are a part of what follows
    rw [toList_print_union_cons, TypeExpr.written_union_cons, List.append_assoc]
    exact iht ht (ihts hts htail).readsTail
  | array element ih =>
    obtain ⟨-, helement⟩ := TypeExpr.forall_parts_array.mp h
    rw [TypeExpr.print, String.toList_append, List.append_assoc, TypeExpr.written]
    exact reads_grouped helement id (ih helement) htail.array
  | object properties ih =>
    obtain ⟨-, hproperties⟩ := TypeExpr.forall_parts_object.mp h
    rw [TypeExpr.written]
    refine (isOperand_object (f := fun t => t.written [] []) properties fun p hp => ?_).reads htail
    simpa using ih p hp (hproperties p hp) readsTail_nil
  | named name arguments ih =>
    obtain ⟨⟨hname, hplain⟩, harguments⟩ := TypeExpr.forall_parts_named.mp h
    rw [TypeExpr.written]
    obtain rfl | hne := eq_or_ne arguments []
    · have htext : (TypeExpr.named name []).print = name := by
        simp [TypeExpr.print, TypeExpr.printAll, enclosedIf]
      rw [htext]
      exact (isFormWord_name hname hplain).isOperand.reads htail
    · refine (isOperand_named (f := fun t => t.written [] []) hname hne fun t ht => ?_).reads htail
      simpa using ih t ht (harguments t ht) readsTail_nil
  | indexed base index ihbase ihindex =>
    obtain ⟨-, hbase, hindex⟩ := TypeExpr.forall_parts_indexed.mp h
    have hread := ihindex hindex readsTail_nil
    rw [List.append_nil] at hread
    have htext : (TypeExpr.indexed base index).print.toList ++ tail =
        (parenthesizeIf base.needsParens base.print).toList ++
          ('[' :: (index.print.toList ++ ']' :: tail)) := by
      simp [TypeExpr.print]
    rw [htext, TypeExpr.written]
    exact reads_grouped hbase id (ihbase hbase) (htail.index hread)
  | keyof base ih =>
    obtain ⟨-, hbase⟩ := TypeExpr.forall_parts_keyof.mp h
    have hparens : base.isCompound → base.needsParens := by
      cases base <;> simp [TypeExpr.needsParens, TypeExpr.isCompound]
    rw [TypeExpr.print, String.toList_append, List.append_assoc, TypeExpr.written]
    exact (reads_grouped hbase hparens (ih hbase) htail).keyof
  | function typeParams params result ihbounds ihparams ih =>
    obtain ⟨⟨hbounds, hnames⟩, htypeParams, hparams, hresult⟩ := TypeExpr.forall_parts_function.mp h
    rw [TypeExpr.written_function]
    -- to the result, all that follows the function is what follows the result
    refine reads_function (f := fun t => t.written [] []) hbounds hnames (fun p hp t ht => ?_)
      (fun p hp t ht => ?_) (ih hresult htail)
    · simpa using ihbounds p hp t ht (htypeParams p hp t ht) readsTail_nil
    · simpa using ihparams p hp t ht (hparams p hp t ht) readsTail_nil

/-! ## Types with the same text -/

namespace TypeExpr

variable {t u : TypeExpr}

/-- **The text of a type determines its written form.** -/
theorem writtenForm_eq_of_print_eq (ht : t.PlainNames) (hu : u.PlainNames)
    (h : t.print = u.print) : t.writtenForm = u.writtenForm := by
  -- a reader that is given enough steps gets the written form of either from the same text
  have hread {t : TypeExpr} (ht : t.PlainNames) :
      readMembers (t.print.toList.length + 1) t.print.toList = some (t.written [] [], []) := by
    simpa using reads_print t ht readsTail_nil (t.print.toList.length + 1) (by simp) [] .nil
  have hsame := hread ht
  rw [h, hread hu] at hsame
  rw [writtenForm, writtenForm, (Prod.mk.inj (Option.some.inj hsame)).1]

/-- **Two types with the same text** say the same, and those that have the form of a faithful type
are the faithful ones. -/
theorem form_eq_iff_of_print_eq (ht : t.PlainNames) (hu : u.PlainNames) (h : t.print = u.print) :
    t.writtenForm = u.writtenForm ∧ (t.Faithful → (t.form = u.form ↔ u.Faithful)) := by
  have hwritten := writtenForm_eq_of_print_eq ht hu h
  refine ⟨hwritten, fun hfaithful => ?_⟩
  have hform : t.form = u.writtenForm :=
    ((writtenForm_eq_form_iff t).mpr hfaithful).symm.trans hwritten
  rw [hform]
  exact writtenForm_eq_form_iff u

/-- The type of a parameter and of its readers, with a union in a union. -/
def nestedUnion : TypeExpr :=
  .union [.keyof (.ref "Book"), .union [.array (.union [string, boolean]),
    .function [] [⟨"id", some string, true⟩] any]]

/-- The same type, with its members grouped in another way. -/
def regroupedUnion : TypeExpr :=
  .union [.union [.keyof (.ref "Book"), .array (.union [.union [string], boolean])],
    .union [.function [] [⟨"id", some (.union [string]), true⟩] any]]

theorem nestedUnion_form_eq :
    (nestedUnion.PlainNames ∧ regroupedUnion.PlainNames ∧ nestedUnion.Faithful ∧
      regroupedUnion.Faithful ∧ nestedUnion.print = regroupedUnion.print) ∧
    nestedUnion.writtenForm = regroupedUnion.writtenForm ∧
      nestedUnion.form = regroupedUnion.form := by
  have ht : nestedUnion.PlainNames := by decide
  have hu : regroupedUnion.PlainNames := by decide
  have hfaithful : nestedUnion.Faithful := by
    simp [Faithful, nestedUnion, groupsRight, form, alternatives, ofMembers, endsClosed, ref,
      string, boolean, any, isCompound, needsParens, TypeForm.isUnion]
  have hfaithful' : regroupedUnion.Faithful := by
    simp [Faithful, regroupedUnion, groupsRight, form, alternatives, ofMembers, endsClosed, ref,
      string, boolean, any, isCompound, needsParens, TypeForm.isUnion]
  have h : nestedUnion.print = regroupedUnion.print := by decide
  obtain ⟨hwritten, hform⟩ := form_eq_iff_of_print_eq ht hu h
  exact ⟨⟨ht, hu, hfaithful, hfaithful', h⟩, hwritten, (hform hfaithful).mpr hfaithful'⟩

/-- Two different types with plain names have the same text. -/
def Confused (t u : TypeExpr) : Prop :=
  t.PlainNames ∧ u.PlainNames ∧ t.print = u.print ∧ t.form ≠ u.form

/-- **Different types may have the same text**: a function or a `keyof` that is the only member of
a union gets no parentheses before a suffix, a function gets none before another member, and the
number that is no number is written like a name. -/
theorem confused_types :
    Confused (.array (.union [.function [] [] string])) (.function [] [] (.array string)) ∧
      Confused (.array (.union [.keyof (.ref "Book")])) (.keyof (.array (.ref "Book"))) ∧
      Confused (.union [.function [] [] string, boolean])
        (.function [] [] (.union [string, boolean])) ∧
      Confused (.literal (.number .nan)) (.ref "NaN") := by
  refine ⟨⟨by decide, by decide, by decide, ?_⟩, ⟨by decide, by decide, by decide, ?_⟩,
    ⟨by decide, by decide, by decide, ?_⟩, ⟨by decide, by decide, by decide, ?_⟩⟩
  · simp [form, alternatives, ofMembers]
  · simp [form, alternatives, ofMembers]
  · simp [form, alternatives, ofMembers, string, boolean]
  · simp [form, alternatives, ofMembers, literalForm, ref]

end TypeExpr

end TypedClient.TypeScript
