import TypedClient.Proofs.Declarations
import TypedClient.Proofs.Text.Split
import TypedClient.Proofs.TypeScript.TypeText

/-!
# Reading interfaces

An interface that was made from schemas stands on lines: one for its name, one for each
member, and one for its closing brace. The members are read back line by line, and so the text
says which schemas it was made from, as far as their types go.

## Main definitions

* `interfaceReading?`: what the members of an interface say
* `readInterface`: the reader of an interface

## Main results

* `exists_reading_of_toType`: every schema's type says something that is read back
* `lineBreak_notMem_print`: no line break stands in it
* `interfaceText_determined`: the text determines the members
-/

namespace TypedClient

open TypeScript

/-! ## Types of schemas -/

theorem TypeScript.TypeExpr.mapM_literal? (values : List Literal) :
    (values.map TypeExpr.literal).mapM TypeExpr.literal? = some values := by
  induction values with
  | nil => rfl
  | cons value values ih =>
    rw [List.map_cons, List.mapM_cons, ih]
    rfl

mutual

/-- **Every schema's type says something** that is read back. -/
theorem exists_reading_of_toType (s : Schema) {t : TypeExpr} (h : s.toType = .ok t) :
    ∃ v, t.reading? = some v := by
  match s with
  | .mk name values members items =>
    rw [Schema.toType] at h
    split at h
    · cases h
    · next kind _ =>
      split at h
      · -- the values of an enumeration are constants
        next vs _ =>
        obtain rfl := Except.ok.inj h
        rw [Schema.unionOf, TypeExpr.reading?, TypeExpr.mapM_literal?]
        exact ⟨_, rfl⟩
      · cases kind with
        | object =>
          obtain ⟨ps, hps, h⟩ := bind_eq_ok.mp h
          obtain rfl := pure_eq_ok.mp h
          obtain ⟨vs, hvs⟩ := exists_reading_of_memberTypes members hps
          rw [TypeExpr.reading?, hvs]
          exact ⟨_, rfl⟩
        | array =>
          obtain ⟨e, he, h⟩ := bind_eq_ok.mp h
          obtain rfl := pure_eq_ok.mp h
          obtain ⟨v, hv⟩ := exists_reading_of_elementType items he
          rw [TypeExpr.reading?, hv]
          exact ⟨_, rfl⟩
        | _ =>
          obtain rfl := Except.ok.inj h
          exact ⟨_, rfl⟩

theorem exists_reading_of_memberTypes (ms : List (Member Schema)) {ps : List (Property TypeExpr)}
    (h : Schema.memberTypes ms = .ok ps) : ∃ vs, TypeExpr.propertyReadings? ps = some vs := by
  match ms with
  | [] =>
    obtain rfl := Except.ok.inj h
    exact ⟨[], rfl⟩
  | ⟨name, required, schema⟩ :: ms =>
    obtain ⟨q, hq, h⟩ := bind_eq_ok.mp h
    obtain ⟨qs, hqs, h⟩ := bind_eq_ok.mp h
    obtain rfl := pure_eq_ok.mp h
    obtain ⟨t, ht, hq⟩ := bind_eq_ok.mp hq
    obtain rfl := pure_eq_ok.mp hq
    obtain ⟨v, hv⟩ := exists_reading_of_toType schema ht
    obtain ⟨vs, hvs⟩ := exists_reading_of_memberTypes ms hqs
    exact ⟨_, TypeExpr.propertyReadings?_cons.mpr ⟨v, vs, hv, hvs, rfl⟩⟩

theorem exists_reading_of_elementType (s? : Option Schema) {t : TypeExpr}
    (h : Schema.elementType s? = .ok t) : ∃ v, t.reading? = some v := by
  match s? with
  | none =>
    obtain rfl := Except.ok.inj h
    exact ⟨_, rfl⟩
  | some s => exact exists_reading_of_toType s h

end

/-! ## No line breaks -/

namespace TypeScript

open Text

/-- A text without line breaks. -/
def NoLineBreak (s : String) : Prop :=
  ∀ c ∈ s.toList, isLineBreak c = false

instance (s : String) : Decidable (NoLineBreak s) :=
  decidable_of_iff (s.toList.all fun c => !isLineBreak c) (by simp [NoLineBreak])

section NoLineBreak

variable {s t : String}

theorem NoLineBreak.append (hs : NoLineBreak s) (ht : NoLineBreak t) : NoLineBreak (s ++ t) := by
  intro c hc
  rw [String.toList_append] at hc
  exact (List.mem_append.mp hc).elim (hs c) (ht c)

theorem NoLineBreak.parenthesizeIf (hs : NoLineBreak s) (needed : Bool) :
    NoLineBreak (parenthesizeIf needed s) := by
  rw [TypeScript.parenthesizeIf]
  split
  · exact (NoLineBreak.append (by decide) hs).append (by decide)
  · exact hs

theorem noLineBreak_separated {separator : String} (hsep : NoLineBreak separator)
    {texts : List String} (h : ∀ u ∈ texts, NoLineBreak u) :
    NoLineBreak (separated separator texts) := by
  match texts with
  | [] => exact fun c hc => absurd hc List.not_mem_nil
  | [u] =>
    rw [separated_singleton]
    exact h u (List.mem_cons_self ..)
  | u :: next :: texts =>
    have hmore := noLineBreak_separated hsep fun w hw => h w (List.mem_cons_of_mem u hw)
    intro c hc
    rw [toList_separated_cons] at hc
    simp only [List.mem_append] at hc
    rcases hc with hc | hc | hc
    · exact h u (List.mem_cons_self ..) c hc
    · exact hsep c hc
    · exact hmore c hc

theorem noLineBreak_quoted (text : String) : NoLineBreak (quoted text) := by
  refine .append (.append (by decide) ?_) (by decide)
  rw [NoLineBreak, String.toList_ofList]
  exact lineBreak_notMem_escapeQuoted text.toList

theorem noLineBreak_keyText (key : String) : NoLineBreak (keyText key) := by
  rw [keyText]
  split
  · next h =>
    have hpart := Identifier.isPart_of_isName h
    exact fun c hc => isLineBreak_of_class rfl rfl (hpart c hc)
  · exact noLineBreak_quoted key

theorem IsWord.noLineBreak {v : TypeReading} (h : IsWord s v) : NoLineBreak s :=
  fun c hc => isLineBreak_of_class rfl rfl (h.isWordChar c hc)

theorem noLineBreak_printLiteral (value : Literal) : NoLineBreak (printLiteral value) := by
  cases value with
  | string text => exact noLineBreak_quoted text
  | number value => exact (isWord_numeral (Decimal.isNumeral_text value)).noLineBreak
  | integer value => exact (isWord_numeral (Decimal.isNumeral_integerText value)).noLineBreak
  | bool value => exact (isWord_bool value).noLineBreak
  | null => exact isWord_null.noLineBreak

end NoLineBreak

mutual

/-- **No line break stands in a type** that says something, whatever its keys and its constants
are. -/
theorem lineBreak_notMem_print (t : TypeExpr) {v : TypeReading} (h : t.reading? = some v) :
    NoLineBreak t.print := by
  match t with
  | .primitive keyword => exact (isWord_primitive keyword).noLineBreak
  | .literal value => exact noLineBreak_printLiteral value
  | .union members =>
    obtain ⟨values, hvalues, rfl⟩ := Option.map_eq_some_iff.mp h
    obtain rfl := TypeExpr.eq_map_literal hvalues
    rw [print_constants]
    split
    · decide
    · refine noLineBreak_separated (by decide) fun u hu => ?_
      obtain ⟨value, _, rfl⟩ := List.mem_map.mp hu
      exact noLineBreak_printLiteral value
  | .array element =>
    obtain ⟨w, hw, rfl⟩ := Option.map_eq_some_iff.mp h
    rw [TypeExpr.print]
    exact ((lineBreak_notMem_print element hw).parenthesizeIf _).append (by decide)
  | .object properties =>
    obtain ⟨ws, hws, rfl⟩ := Option.map_eq_some_iff.mp h
    rw [TypeExpr.print]
    split
    · decide
    · have hmembers := noLineBreak_separated (by decide : NoLineBreak "; ")
        (lineBreak_notMem_printProperties properties hws)
      exact (NoLineBreak.append (by decide) hmembers).append (by decide)

theorem lineBreak_notMem_printProperties (ps : List (Property TypeExpr))
    {vs : List (Property TypeReading)} (h : TypeExpr.propertyReadings? ps = some vs) :
    ∀ u ∈ TypeExpr.printProperties ps, NoLineBreak u := by
  match ps with
  | [] => exact fun u hu => absurd hu List.not_mem_nil
  | ⟨name, type, optional⟩ :: ps =>
    obtain ⟨v, vs, hv, hvs, rfl⟩ := TypeExpr.propertyReadings?_cons.mp h
    have htype := lineBreak_notMem_print type hv
    intro u hu
    rw [TypeExpr.printProperties] at hu
    rcases List.mem_cons.mp hu with rfl | hu
    · have hmark : NoLineBreak (optionalMark optional) := by cases optional <;> decide
      exact (((noLineBreak_keyText name).append hmark).append (by decide)).append htype
    · exact lineBreak_notMem_printProperties ps hvs u hu

end

end TypeScript

/-! ## The lines of an interface -/

section Lines

open Text

/-- The first line of an interface. -/
def interfaceHeader (name : String) : String :=
  "interface " ++ name ++ " \x7b"

/-- The line of a member. -/
def memberText (p : Property TypeExpr) : String :=
  "  " ++ TypeExpr.printProperty p ++ ";"

/-- The lines after the first one. -/
def interfaceRest (ps : List (Property TypeExpr)) : List (List Char) :=
  ps.map (fun p => (memberText p).toList) ++ [['\x7d']]

/-- An interface is its lines. -/
theorem toList_print_interface (name : String) (ps : List (Property TypeExpr)) :
    (TypeDecl.print { name, body := .interfaceOf ps }).toList =
      (interfaceHeader name).toList ++ '\n' :: (interfaceRest ps).flatMap (· ++ ['\n']) := by
  have hmembers : (String.join (ps.map memberLine)).toList =
      (ps.map fun p => (memberText p).toList).flatMap (· ++ ['\n']) := by
    induction ps with
    | nil => rfl
    | cons p ps ih =>
      have hline : (memberLine p).toList = (memberText p).toList ++ ['\n'] := by
        simp [memberLine, memberText, indentation]
      rw [List.map_cons, String.join_cons, String.toList_append, ih, hline]
      rfl
  simp [TypeDecl.print, exportMark, typeParamsText, enclosedIf, hmembers, interfaceHeader,
    interfaceRest]

theorem TypeScript.NoLineBreak.isLine {s : String} (h : NoLineBreak s) : IsLine s.toList := by
  constructor
  · intro hn
    exact absurd (h '\n' hn) (by decide)
  · intro hr
    exact absurd (h '\r' (List.mem_of_getLast? hr)) (by decide)

theorem isLine_interfaceHeader {name : String} (h : '\n' ∉ name.toList) :
    IsLine (interfaceHeader name).toList := by
  have htext : (interfaceHeader name).toList =
      "interface ".toList ++ name.toList ++ [' '] ++ ['\x7b'] := by simp [interfaceHeader]
  rw [htext]
  constructor
  · simp only [List.mem_append, not_or]
    exact ⟨⟨⟨by decide, h⟩, by decide⟩, by decide⟩
  · rw [List.getLast?_concat]
    decide

theorem isLine_interfaceRest {ps : List (Property TypeExpr)}
    (h : ∀ p ∈ ps, NoLineBreak (TypeExpr.printProperty p)) : ∀ l ∈ interfaceRest ps, IsLine l := by
  intro l hl
  rcases List.mem_append.mp hl with hl | hl
  · obtain ⟨p, hp, rfl⟩ := List.mem_map.mp hl
    have htext : NoLineBreak (memberText p) :=
      (NoLineBreak.append (by decide) (h p hp)).append (by decide)
    exact htext.isLine
  · rw [List.mem_singleton.mp hl]
    exact (by decide : NoLineBreak "\x7d").isLine

/-! ## Reading the lines -/

/-- The member on a line. -/
def readMember : List Char → Option (Property TypeReading)
  | ' ' :: ' ' :: s =>
    (readPropertyWith (readType (3 * s.length)) s).bind fun r =>
      if r.2 = [';'] then some r.1 else none
  | _ => none

/-- The members of an interface with a given name. -/
def readInterface (name : String) (s : List Char) : Option (List (Property TypeReading)) :=
  (lines (s.drop ((interfaceHeader name).toList.length + 1))).dropLast.mapM readMember

theorem readMember_memberText (name : String) {type : TypeExpr} (optional : Bool)
    {v : TypeReading} (h : type.reading? = some v) :
    readMember (memberText ⟨name, type, optional⟩).toList = some ⟨name, v, optional⟩ := by
  have htext : (memberText ⟨name, type, optional⟩).toList =
      ' ' :: ' ' :: ((TypeExpr.printProperty ⟨name, type, optional⟩).toList ++ [';']) := by
    simp [memberText]
  have hlen := length_print_lt_printProperty name type optional
  obtain ⟨-, htype⟩ := read_print type h
  -- the line is longer than the type in it, so its length is steps enough
  have hread := htype (3 * ((TypeExpr.printProperty ⟨name, type, optional⟩).toList ++ [';']).length)
    (by rw [List.length_append]; omega) [';'] (.semicolon [])
  rw [htext, readMember, readPropertyWith_print name optional hread, Option.bind_some, if_pos rfl]

/-- The lines of members are read back, one after another. -/
theorem readMembers_memberText {ps : List (Property TypeExpr)} {vs : List (Property TypeReading)}
    (h : TypeExpr.propertyReadings? ps = some vs) :
    (ps.map fun p => (memberText p).toList).mapM readMember = some vs := by
  induction ps generalizing vs with
  | nil => exact h
  | cons p ps ih =>
    obtain ⟨name, type, optional⟩ := p
    obtain ⟨v, ws, hv, hws, rfl⟩ := TypeExpr.propertyReadings?_cons.mp h
    rw [List.map_cons, List.mapM_cons, readMember_memberText name optional hv, ih hws]
    rfl

theorem noLineBreak_of_propertyReadings? {ps : List (Property TypeExpr)}
    {vs : List (Property TypeReading)} (h : TypeExpr.propertyReadings? ps = some vs) :
    ∀ p ∈ ps, NoLineBreak (TypeExpr.printProperty p) := by
  intro p hp
  refine lineBreak_notMem_printProperties ps h _ ?_
  rw [TypeExpr.printProperties_eq]
  exact List.mem_map_of_mem hp

/-- **The members of an interface are read back** from its text. -/
theorem readInterface_print (name : String) {ps : List (Property TypeExpr)}
    {vs : List (Property TypeReading)} (h : TypeExpr.propertyReadings? ps = some vs) :
    readInterface name (TypeDecl.print { name, body := .interfaceOf ps }).toList = some vs := by
  -- after its first line an interface is a list of lines and nothing else
  have hdrop : (TypeDecl.print { name, body := .interfaceOf ps }).toList.drop
      ((interfaceHeader name).toList.length + 1) = (interfaceRest ps).flatMap (· ++ ['\n']) := by
    rw [toList_print_interface, ← List.singleton_append, ← List.append_assoc]
    exact List.drop_left' (by simp)
  rw [readInterface, hdrop,
    lines_flatMap (isLine_interfaceRest (noLineBreak_of_propertyReadings? h)), interfaceRest,
    List.dropLast_concat, readMembers_memberText h]

/-- An interface whose name has no line feed has one line for each member and two others. -/
theorem length_lines_print {name : String} (hname : '\n' ∉ name.toList)
    {ps : List (Property TypeExpr)} {vs : List (Property TypeReading)}
    (h : TypeExpr.propertyReadings? ps = some vs) :
    (lines (TypeDecl.print { name, body := .interfaceOf ps }).toList).length = ps.length + 2 := by
  rw [toList_print_interface, lines_append (isLine_interfaceHeader hname),
    lines_flatMap (isLine_interfaceRest (noLineBreak_of_propertyReadings? h))]
  simp [interfaceRest]

end Lines

/-! ## What an interface says -/

/-- What the members of the interface for a map say. -/
def interfaceReading? (m : OrderedMap Schema) : Option (List (Property TypeReading)) :=
  (contentProperties m.entries).toOption.bind TypeExpr.propertyReadings?

theorem exists_reading_of_contentProperties {es : List (String × Schema)}
    {ps : List (Property TypeExpr)} (h : contentProperties es = .ok ps) :
    ∃ vs, TypeExpr.propertyReadings? ps = some vs := by
  induction es generalizing ps with
  | nil =>
    obtain rfl := Except.ok.inj h
    exact ⟨[], rfl⟩
  | cons e es ih =>
    obtain ⟨key, schema⟩ := e
    obtain ⟨t, ht, h⟩ := bind_eq_ok.mp h
    obtain ⟨qs, hqs, h⟩ := bind_eq_ok.mp h
    obtain rfl := pure_eq_ok.mp h
    obtain ⟨v, hv⟩ := exists_reading_of_toType schema ht
    obtain ⟨vs, hvs⟩ := ih hqs
    exact ⟨_, TypeExpr.propertyReadings?_cons.mpr ⟨v, vs, hv, hvs, rfl⟩⟩

theorem map_name_of_propertyReadings? {ps : List (Property TypeExpr)}
    {vs : List (Property TypeReading)} (h : TypeExpr.propertyReadings? ps = some vs) :
    vs.map Property.name = ps.map Property.name := by
  induction ps generalizing vs with
  | nil =>
    obtain rfl := Option.some.inj h
    rfl
  | cons p ps ih =>
    obtain ⟨name, type, optional⟩ := p
    obtain ⟨v, ws, _, hws, rfl⟩ := TypeExpr.propertyReadings?_cons.mp h
    rw [List.map_cons, List.map_cons, ih hws]

theorem interfaceText_eq_ok {name text : String} {m : OrderedMap Schema} :
    interfaceText name m = .ok text ↔ ∃ ps, contentProperties m.entries = .ok ps ∧
      TypeDecl.print { name, body := .interfaceOf ps } = text := by
  simp only [interfaceText, bind_eq_ok, pure_eq_ok]

/-- What is read back from the text of an interface is what its members say, in their order
and under their keys. -/
theorem readInterface_interfaceText {name text : String} {m : OrderedMap Schema}
    (h : interfaceText name m = .ok text) :
    ∃ vs, interfaceReading? m = some vs ∧ vs.map Property.name = m.keys ∧
      readInterface name text.toList = some vs := by
  obtain ⟨ps, hps, rfl⟩ := interfaceText_eq_ok.mp h
  obtain ⟨vs, hvs⟩ := exists_reading_of_contentProperties hps
  refine ⟨vs, ?_, ?_, readInterface_print name hvs⟩
  · rw [interfaceReading?, hps]
    exact hvs
  · rw [map_name_of_propertyReadings? hvs, map_name_of_contentProperties hps]
    rfl

/-- **The text of an interface determines its members**, their keys and their order, and of
each type what it says: its members are read back from the text. No member has a line break in
it, so the interface has one line for each member and two others. -/
theorem interfaceText_determined {name text : String} {m : OrderedMap Schema}
    (h : interfaceText name m = .ok text) :
    (∃ vs, interfaceReading? m = some vs ∧ readInterface name text.toList = some vs) ∧
    (∀ m' : OrderedMap Schema, interfaceText name m' = .ok text →
      m'.keys = m.keys ∧ interfaceReading? m' = interfaceReading? m) ∧
    (∀ ps, contentProperties m.entries = .ok ps →
      ∀ p ∈ ps, NoLineBreak (TypeExpr.printProperty p)) ∧
    ('\n' ∉ name.toList → (Text.lines text.toList).length = m.size + 2) := by
  obtain ⟨vs, hvs, hkeys, hread⟩ := readInterface_interfaceText h
  refine ⟨⟨vs, hvs, hread⟩, fun m' h' => ?_, fun ps hps => ?_, fun hname => ?_⟩
  · obtain ⟨vs', hvs', hkeys', hread'⟩ := readInterface_interfaceText h'
    -- both maps were read from the same text
    obtain rfl : vs' = vs := Option.some.inj (hread'.symm.trans hread)
    exact ⟨hkeys'.symm.trans hkeys, hvs'.trans hvs.symm⟩
  · obtain ⟨ws, hws⟩ := exists_reading_of_contentProperties hps
    exact noLineBreak_of_propertyReadings? hws
  · obtain ⟨ps, hps, rfl⟩ := interfaceText_eq_ok.mp h
    obtain ⟨ws, hws⟩ := exists_reading_of_contentProperties hps
    have hsize : ps.length = m.size := by
      have hlength := congrArg List.length (map_name_of_contentProperties hps)
      rwa [List.length_map, List.length_map] at hlength
    rw [length_lines_print hname hws, hsize]

/-- Two content types, one of them with keys and constants that look like the text around
them. -/
def separatorSchemas : OrderedMap Schema :=
  .ofList [
    ("a; b: string", .mk "object" none
      [⟨"?: never", false, .mk "array" none []
        (some (.mk "string" (some [.string "x\" | \"y", .string "\n"]) [] none))⟩] none),
    ("text/plain", .mk "string" (some []) [] none)]

theorem separatorSchemas_determined :
    ∃ text, interfaceText "Answer" separatorSchemas = .ok text ∧
      (∃ vs, interfaceReading? separatorSchemas = some vs ∧
        readInterface "Answer" text.toList = some vs) ∧
      (∀ m' : OrderedMap Schema, interfaceText "Answer" m' = .ok text →
        m'.keys = separatorSchemas.keys ∧
          interfaceReading? m' = interfaceReading? separatorSchemas) ∧
      (∀ ps, contentProperties separatorSchemas.entries = .ok ps →
        ∀ p ∈ ps, NoLineBreak (TypeExpr.printProperty p)) ∧
      ('\n' ∉ "Answer".toList →
        (Text.lines text.toList).length = separatorSchemas.size + 2) :=
  ⟨_, rfl, interfaceText_determined rfl⟩

end TypedClient
