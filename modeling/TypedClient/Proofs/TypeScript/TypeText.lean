import TypedClient.Proofs.Identifier
import TypedClient.Proofs.Number.Decimal
import TypedClient.Proofs.Text.Quoted
import TypedClient.TypeScript.Printer.Type

/-!
# Reading types

The types of schemas are objects, arrays, enumerations of constants and types with a keyword,
nested in any way. Their text is read from left to right, and what it says is all there is to
such a type: an enumeration without values is the type without values, one with a single value
is that value, and a number is its numeral.

## Main definitions

* `TypeReading`, `TypeExpr.reading?`: what a type says
* `readType`, `readPropertyWith`: the readers of a type and of a member

## Main results

* `read_print`: a type is read back up to where its text ends
-/

namespace TypedClient.TypeScript

open Text

/-! ## What a type says -/

/-- What the text of a type says. A union has two or more members. -/
inductive TypeReading
  | primitive (keyword : Primitive)
  | string (text : String)
  | numeral (text : String)
  | bool (value : Bool)
  | null
  | union (members : List TypeReading)
  | array (element : TypeReading)
  | object (properties : List (Property TypeReading))
  deriving Repr

/-- The union of what several members say. -/
def TypeReading.ofMembers : List TypeReading → TypeReading
  | [] => .primitive .never
  | [v] => v
  | vs => .union vs

/-- The union of a first member with what comes after it. -/
def TypeReading.or (v : TypeReading) : TypeReading → TypeReading
  | .union vs => .union (v :: vs)
  | w => .union [v, w]

/-- What a constant says. -/
def literalReading : Literal → TypeReading
  | .string text => .string text
  | .number value => .numeral (Decimal.text value)
  | .integer value => .numeral (Decimal.integerText value)
  | .bool value => .bool value
  | .null => .null

namespace TypeExpr

/-- The constant that is the only value of a type. -/
def literal? : TypeExpr → Option Literal
  | .literal value => some value
  | _ => none

mutual

/-- What a type says, if it is made of objects, arrays, enumerations of constants and types
with a keyword. -/
def reading? : TypeExpr → Option TypeReading
  | .primitive keyword => some (.primitive keyword)
  | .literal value => some (literalReading value)
  | .union members =>
    (members.mapM literal?).map fun values => .ofMembers (values.map literalReading)
  | .array element => (reading? element).map .array
  | .object properties => (propertyReadings? properties).map .object
  | _ => none

/-- What members say. -/
def propertyReadings? : List (Property TypeExpr) → Option (List (Property TypeReading))
  | [] => some []
  | ⟨name, type, optional⟩ :: ps =>
    (reading? type).bind fun v => (propertyReadings? ps).map (⟨name, v, optional⟩ :: ·)

end

/-- What the members of a list with a first member say. -/
theorem propertyReadings?_cons {name : String} {type : TypeExpr} {optional : Bool}
    {ps : List (Property TypeExpr)} {vs : List (Property TypeReading)} :
    propertyReadings? (⟨name, type, optional⟩ :: ps) = some vs ↔
      ∃ v ws, type.reading? = some v ∧ propertyReadings? ps = some ws ∧
        vs = ⟨name, v, optional⟩ :: ws := by
  rw [propertyReadings?, Option.bind_eq_some_iff]
  constructor
  · rintro ⟨v, hv, h⟩
    obtain ⟨ws, hws, rfl⟩ := Option.map_eq_some_iff.mp h
    exact ⟨v, ws, hv, hws, rfl⟩
  · rintro ⟨v, ws, hv, hws, rfl⟩
    exact ⟨v, hv, Option.map_eq_some_iff.mpr ⟨ws, hws, rfl⟩⟩

theorem eq_map_literal {types : List TypeExpr} {values : List Literal}
    (h : types.mapM literal? = some values) : types = values.map .literal := by
  induction types generalizing values with
  | nil =>
    obtain rfl := Option.some.inj h
    rfl
  | cons t ts ih =>
    rw [List.mapM_cons] at h
    obtain ⟨value, hvalue, h⟩ := Option.bind_eq_some_iff.mp h
    obtain ⟨rest, hrest, h⟩ := Option.bind_eq_some_iff.mp h
    obtain rfl := Option.some.inj h
    cases t with
    | literal v =>
      obtain rfl := Option.some.inj hvalue
      rw [List.map_cons, ← ih hrest]
    | _ => cases hvalue

end TypeExpr

/-- Only a union of several members needs parentheses before a suffix. -/
theorem TypeExpr.needsParens_of_reading? {t : TypeExpr} {v : TypeReading}
    (h : t.reading? = some v) : t.needsParens = t.isCompound := by
  cases t with
  | keyof _ => cases h
  | _ => rfl

/-! ## Keys -/

/-- A key of an object and what comes after it. -/
def readKey : List Char → Option (List Char × List Char)
  | '"' :: s => readQuoted s
  | s => Identifier.readName s

/-- **A key is read back** if no character of a name follows it. -/
theorem readKey_keyText (key : String) {rest : List Char}
    (hrest : ∀ c ∈ rest.head?, Identifier.isPart c = false) :
    readKey ((keyText key).toList ++ rest) = some (key.toList, rest) := by
  rw [keyText]
  split
  · next hvalid =>
    have hname := Identifier.readName_append hvalid hrest
    rw [readKey]
    · exact hname
    · -- a name does not begin with a quote
      intro s hs
      rw [hs] at hname
      cases hname
  · simp only [quoted, String.toList_append, String.toList_ofList, List.append_assoc]
    exact readQuoted_escapeQuoted key.toList rest

/-! ## Words -/

/-- The characters of keywords and numerals. -/
def isWordChar (c : Char) : Bool :=
  c.isAlphanum || c == '.' || c == '-'

/-- The words that are no numerals. -/
def keywords : List (String × TypeReading) :=
  ([.string, .number, .boolean, .undefined, .void, .never, .any].map fun k : Primitive =>
      (k.print, .primitive k))
    ++ [("true", .bool true), ("false", .bool false), ("null", .null)]

/-- What a word says. -/
def wordReading (word : String) : TypeReading :=
  (keywords.lookup word).getD (.numeral word)

/-- A word and what comes after it. -/
def readWord (s : List Char) : Option (TypeReading × List Char) :=
  let word := s.takeWhile isWordChar
  if word.isEmpty then none
  else some (wordReading (String.ofList word), s.dropWhile isWordChar)

/-- A word that says something. -/
structure IsWord (word : String) (v : TypeReading) : Prop where
  ne_nil : word.toList ≠ []
  isWordChar : ∀ c ∈ word.toList, isWordChar c
  reading : wordReading word = v

theorem isWord_primitive (k : Primitive) : IsWord k.print (.primitive k) := by
  cases k <;> exact ⟨by decide, List.all_eq_true.mp (by decide), rfl⟩

theorem isWord_bool (b : Bool) : IsWord (if b then "true" else "false") (.bool b) := by
  cases b <;> exact ⟨by decide, List.all_eq_true.mp (by decide), rfl⟩

theorem isWord_null : IsWord "null" .null :=
  ⟨by decide, List.all_eq_true.mp (by decide), rfl⟩

theorem isWordChar_of_isNumeralChar {c : Char} (h : Decimal.isNumeralChar c) : isWordChar c := by
  simp only [Decimal.isNumeralChar, Bool.or_eq_true] at h
  simp only [TypeScript.isWordChar, Char.isAlphanum, Bool.or_eq_true]
  tauto

/-- A numeral is a word of its own: no keyword looks like a number. -/
theorem isWord_numeral {word : String} (h : Decimal.IsNumeral word.toList) :
    IsWord word (.numeral word) := by
  have hkeyword : ∀ p ∈ keywords, word.toList ≠ p.1.toList := by
    intro p hp he
    rw [he] at h
    have hletter : ∀ p ∈ keywords, p.1.toList.all Decimal.isNumeralChar = false := by decide
    have hnan : ∀ p ∈ keywords, p.1.toList ≠ "NaN".toList := by decide
    have hinf : ∀ p ∈ keywords, p.1.toList ≠ "inf".toList := by decide
    have hneg : ∀ p ∈ keywords, p.1.toList ≠ "-inf".toList := by decide
    generalize hs : p.1.toList = s at h
    cases h with
    | finite _ hchars =>
      have hall := hletter p hp
      rw [hs, List.all_eq_true.mpr hchars] at hall
      cases hall
    | nan => exact hnan p hp hs
    | infinite => exact hinf p hp hs
    | negativeInfinite => exact hneg p hp hs
  refine ⟨?_, ?_, ?_⟩
  · generalize word.toList = s at h
    cases h with
    | finite hne _ => exact hne
    | _ => decide
  · generalize word.toList = s at h
    cases h with
    | finite _ hchars => exact fun c hc => isWordChar_of_isNumeralChar (hchars c hc)
    | _ => exact List.all_eq_true.mp (by decide)
  · have hnone : keywords.lookup word = none := by
      rw [List.lookup_eq_none_iff]
      intro p hp
      exact bne_iff_ne.mpr fun he => hkeyword p hp (congrArg String.toList he)
    rw [wordReading, hnone]
    rfl

theorem readWord_append {word : String} {v : TypeReading} (h : IsWord word v) {rest : List Char}
    (hrest : ∀ c ∈ rest.head?, isWordChar c = false) :
    readWord (word.toList ++ rest) = some (v, rest) := by
  rw [readWord]
  simp only [takeWhile_append h.isWordChar hrest, dropWhile_append h.isWordChar hrest]
  rw [if_neg (by simpa using h.ne_nil), String.ofList_toList, h.reading]

/-! ## Readers of types

The readers call each other, and every call has one step less to make than the one it comes
from. -/

/-- The array suffixes after a type. -/
def readSuffixes : TypeReading → List Char → TypeReading × List Char
  | v, '[' :: ']' :: s => readSuffixes (.array v) s
  | v, s => (v, s)

/-- The mark of an optional member. -/
def readMark : List Char → Bool × List Char
  | '?' :: s => (true, s)
  | s => (false, s)

/-- A member and what comes after it, by a reader of its type. -/
def readPropertyWith (readType : List Char → Option (TypeReading × List Char)) (s : List Char) :
    Option (Property TypeReading × List Char) :=
  (readKey s).bind fun key =>
    match readMark key.2 with
    | (optional, ':' :: ' ' :: s) =>
      (readType s).map (Prod.map (⟨String.ofList key.1, ·, optional⟩) id)
    | _ => none

mutual

/-- A type and what comes after it. -/
def readType : Nat → List Char → Option (TypeReading × List Char)
  | 0, _ => none
  | n + 1, s =>
    (readOperand n s).bind fun r =>
      match r.2 with
      | ' ' :: '|' :: ' ' :: s => (readType n s).map (Prod.map r.1.or id)
      | _ => some r

/-- A type that is no union, and what comes after it. -/
def readOperand : Nat → List Char → Option (TypeReading × List Char)
  | 0, _ => none
  | n + 1, s => (readAtom n s).map fun r => readSuffixes r.1 r.2

/-- A type without suffixes, and what comes after it. -/
def readAtom : Nat → List Char → Option (TypeReading × List Char)
  | 0, _ => none
  | _ + 1, '"' :: s => (readQuoted s).map (Prod.map (.string ∘ String.ofList) id)
  | n + 1, '(' :: s =>
    (readType n s).bind fun r =>
      match r.2 with
      | ')' :: s => some (r.1, s)
      | _ => none
  | _ + 1, '\x7b' :: '\x7d' :: s => some (.object [], s)
  | n + 1, '\x7b' :: ' ' :: s => (readProperties n s).map (Prod.map .object id)
  | _ + 1, s => readWord s

/-- The members of an object type up to its closing brace, and what comes after it. -/
def readProperties : Nat → List Char → Option (List (Property TypeReading) × List Char)
  | 0, _ => none
  | n + 1, s =>
    (readPropertyWith (readType n) s).bind fun r =>
      match r.2 with
      | ';' :: ' ' :: s => (readProperties n s).map (Prod.map (r.1 :: ·) id)
      | ' ' :: '\x7d' :: s => some ([r.1], s)
      | _ => none

end

theorem head?_cons {c : Char} (h : isWordChar c = false) {s : List Char} :
    ∀ d ∈ (c :: s).head?, isWordChar d = false := by
  simpa using h

/-- A text at the beginning of which a type ends. -/
inductive EndsType : List Char → Prop
  | nil : EndsType []
  | semicolon (s : List Char) : EndsType (';' :: s)
  | brace (s : List Char) : EndsType (' ' :: '\x7d' :: s)
  | parenthesis (s : List Char) : EndsType (')' :: s)

theorem EndsType.head? {rest : List Char} (h : EndsType rest) :
    ∀ c ∈ rest.head?, isWordChar c = false := by
  cases h with
  | nil => simp
  | semicolon s => exact head?_cons rfl
  | brace s => exact head?_cons rfl
  | parenthesis s => exact head?_cons rfl

theorem EndsType.readSuffixes {rest : List Char} (h : EndsType rest) (v : TypeReading) :
    readSuffixes v rest = (v, rest) := by
  cases h <;> rfl

theorem readAtom_word {word : String} {v : TypeReading} (h : IsWord word v) (n : Nat)
    {rest : List Char} (hrest : ∀ c ∈ rest.head?, isWordChar c = false) :
    readAtom (n + 1) (word.toList ++ rest) = some (v, rest) := by
  have hread := readWord_append h hrest
  obtain ⟨c, s, hs⟩ := List.exists_cons_of_ne_nil h.ne_nil
  have hc : isWordChar c := h.isWordChar c (by simp [hs])
  rw [hs] at hread ⊢
  rw [List.cons_append, readAtom]
  · exact hread
  -- no other type begins with a character of a word
  all_goals
    intro t ht
    obtain rfl := (List.cons.inj ht).1
    exact absurd hc (by decide)

theorem readAtom_quoted (text : String) (n : Nat) (rest : List Char) :
    readAtom (n + 1) ((quoted text).toList ++ rest) = some (.string text, rest) := by
  have htext : (quoted text).toList ++ rest = '"' :: (escapeQuoted text.toList ++ '"' :: rest) := by
    simp [quoted]
  rw [htext, readAtom, readQuoted_escapeQuoted]
  simp

/-- **A constant is read back.** -/
theorem readAtom_literal (value : Literal) (n : Nat) {rest : List Char}
    (hrest : ∀ c ∈ rest.head?, isWordChar c = false) :
    readAtom (n + 1) ((printLiteral value).toList ++ rest) = some (literalReading value, rest) := by
  cases value with
  | string text => exact readAtom_quoted text n rest
  | number value => exact readAtom_word (isWord_numeral (Decimal.isNumeral_text value)) n hrest
  | integer value =>
    exact readAtom_word (isWord_numeral (Decimal.isNumeral_integerText value)) n hrest
  | bool value => exact readAtom_word (isWord_bool value) n hrest
  | null => exact readAtom_word isWord_null n hrest

/-- A type that is no union is read back, with the suffixes that follow it. -/
def ReadsOperand (text : List Char) (v : TypeReading) : Prop :=
  ∀ n, 3 * text.length ≤ n → ∀ rest : List Char, (∀ c ∈ rest.head?, isWordChar c = false) →
    readOperand n (text ++ rest) = some (readSuffixes v rest)

/-- A type is read back up to where its text ends. -/
def ReadsType (text : List Char) (v : TypeReading) : Prop :=
  ∀ n, 3 * text.length < n → ∀ rest, EndsType rest → readType n (text ++ rest) = some (v, rest)

/-- The members of an object type are read back up to its closing brace. -/
def ReadsProperties (text : List Char) (ps : List (Property TypeReading)) : Prop :=
  ∀ n, 3 * text.length ≤ n → ∀ rest,
    readProperties n (text ++ ' ' :: '\x7d' :: rest) = some (ps, rest)

section Steps

variable {text more : List Char} {v w : TypeReading}

theorem readOperand_succ {n : Nat} {s rest : List Char} (h : readAtom n s = some (v, rest)) :
    readOperand (n + 1) s = some (readSuffixes v rest) := by
  rw [readOperand, h]
  rfl

theorem readsOperand_word {word : String} (h : IsWord word v) : ReadsOperand word.toList v := by
  intro n hn rest hrest
  have hlen := List.length_pos_of_ne_nil h.ne_nil
  -- one step for the operand and one for the atom it begins with
  obtain ⟨n, rfl⟩ : ∃ m, n = m + 2 := ⟨n - 2, by omega⟩
  exact readOperand_succ (readAtom_word h n hrest)

theorem length_printLiteral_pos (value : Literal) : 0 < (printLiteral value).toList.length := by
  cases value with
  | string text => simp [printLiteral, quoted]
  | number value =>
    exact List.length_pos_of_ne_nil (isWord_numeral (Decimal.isNumeral_text value)).ne_nil
  | integer value =>
    exact List.length_pos_of_ne_nil (isWord_numeral (Decimal.isNumeral_integerText value)).ne_nil
  | bool value => exact List.length_pos_of_ne_nil (isWord_bool value).ne_nil
  | null => decide

theorem readsOperand_literal (value : Literal) :
    ReadsOperand (printLiteral value).toList (literalReading value) := by
  intro n hn rest hrest
  have hlen := length_printLiteral_pos value
  obtain ⟨n, rfl⟩ : ∃ m, n = m + 2 := ⟨n - 2, by omega⟩
  exact readOperand_succ (readAtom_literal value n hrest)

theorem ReadsOperand.readsType (h : ReadsOperand text v) : ReadsType text v := by
  intro n hn rest hrest
  obtain ⟨n, rfl⟩ : ∃ m, n = m + 1 := ⟨n - 1, by omega⟩
  rw [readType, h n (by omega) rest hrest.head?, hrest.readSuffixes]
  cases hrest <;> rfl

/-- A first member of a union and the members after it. -/
theorem ReadsOperand.or (hv : ReadsOperand text v) (hw : ReadsType more w) :
    ReadsType (text ++ ' ' :: '|' :: ' ' :: more) (v.or w) := by
  intro n hn rest hrest
  obtain ⟨n, rfl⟩ : ∃ m, n = m + 1 := ⟨n - 1, by omega⟩
  simp only [List.length_append, List.length_cons] at hn
  -- the first member ends at the blank, which belongs neither to a word nor to a suffix
  have hfirst := hv n (by omega) (' ' :: '|' :: ' ' :: (more ++ rest)) (head?_cons rfl)
  have hmore := hw n (by omega) rest hrest
  have hstop : readSuffixes v (' ' :: '|' :: ' ' :: (more ++ rest)) =
      (v, ' ' :: '|' :: ' ' :: (more ++ rest)) := rfl
  have htext : text ++ ' ' :: '|' :: ' ' :: more ++ rest =
      text ++ ' ' :: '|' :: ' ' :: (more ++ rest) := by simp
  rw [htext, readType, hfirst, hstop, Option.bind_some]
  simp only [hmore]
  rfl

/-- A suffix after a type that needs no parentheses. -/
theorem ReadsOperand.array (h : ReadsOperand text v) :
    ReadsOperand (text ++ "[]".toList) (.array v) := by
  intro n hn rest _
  simp only [List.length_append] at hn
  have htext : text ++ "[]".toList ++ rest = text ++ '[' :: ']' :: rest := by simp
  rw [htext, h n (by omega) ('[' :: ']' :: rest) (head?_cons rfl)]
  rfl

/-- A suffix after a type in parentheses. -/
theorem ReadsType.array (h : ReadsType text v) :
    ReadsOperand ('(' :: (text ++ ")[]".toList)) (.array v) := by
  intro n hn rest _
  simp only [List.length_cons, List.length_append] at hn
  obtain ⟨n, rfl⟩ : ∃ m, n = m + 2 := ⟨n - 2, by omega⟩
  -- what is between the parentheses is one atom, and the suffix comes after it
  have hinner := h n (by omega) (')' :: '[' :: ']' :: rest) (.parenthesis _)
  have hatom : readAtom (n + 1) ('(' :: (text ++ ')' :: '[' :: ']' :: rest)) =
      some (v, '[' :: ']' :: rest) := by
    rw [readAtom, hinner]
    rfl
  have htext : '(' :: (text ++ ")[]".toList) ++ rest =
      '(' :: (text ++ ')' :: '[' :: ']' :: rest) := by simp
  rw [htext, readOperand_succ hatom]
  rfl

theorem readsOperand_emptyObject : ReadsOperand "\x7b\x7d".toList (.object []) := by
  intro n hn rest _
  have hlen : ("\x7b\x7d".toList).length = 2 := rfl
  obtain ⟨n, rfl⟩ : ∃ m, n = m + 2 := ⟨n - 2, by omega⟩
  exact readOperand_succ rfl

theorem ReadsProperties.object {ps : List (Property TypeReading)} (h : ReadsProperties text ps) :
    ReadsOperand ('\x7b' :: ' ' :: (text ++ " \x7d".toList)) (.object ps) := by
  intro n hn rest _
  simp only [List.length_cons, List.length_append] at hn
  obtain ⟨n, rfl⟩ : ∃ m, n = m + 2 := ⟨n - 2, by omega⟩
  have hinner := h n (by omega) rest
  have hatom : readAtom (n + 1) ('\x7b' :: ' ' :: (text ++ ' ' :: '\x7d' :: rest)) =
      some (.object ps, rest) := by
    rw [readAtom, hinner]
    rfl
  have htext : '\x7b' :: ' ' :: (text ++ " \x7d".toList) ++ rest =
      '\x7b' :: ' ' :: (text ++ ' ' :: '\x7d' :: rest) := by simp
  rw [htext, readOperand_succ hatom]

/-- **A member is read back** by any reader of its type. -/
theorem readPropertyWith_print (name : String) {type : TypeExpr} (optional : Bool)
    {read : List Char → Option (TypeReading × List Char)} {rest : List Char}
    (h : read (type.print.toList ++ rest) = some (v, rest)) :
    readPropertyWith read ((TypeExpr.printProperty ⟨name, type, optional⟩).toList ++ rest) =
      some (⟨name, v, optional⟩, rest) := by
  have hmark : readMark ((optionalMark optional).toList ++
      ':' :: ' ' :: (type.print.toList ++ rest)) =
        (optional, ':' :: ' ' :: (type.print.toList ++ rest)) := by
    cases optional <;> rfl
  have hkey : readKey ((keyText name).toList ++ ((optionalMark optional).toList ++
      ':' :: ' ' :: (type.print.toList ++ rest))) =
        some (name.toList, (optionalMark optional).toList ++
          ':' :: ' ' :: (type.print.toList ++ rest)) :=
    readKey_keyText name (by cases optional <;> simp [optionalMark] <;> decide)
  have htext : (TypeExpr.printProperty ⟨name, type, optional⟩).toList ++ rest =
      (keyText name).toList ++ ((optionalMark optional).toList ++
        ':' :: ' ' :: (type.print.toList ++ rest)) := by
    simp [TypeExpr.printProperty]
  rw [htext, readPropertyWith, hkey, Option.bind_some]
  simp only [hmark, h, Option.map_some, Prod.map_apply, id_eq, String.ofList_toList]

theorem length_print_lt_printProperty (name : String) (type : TypeExpr) (optional : Bool) :
    type.print.toList.length + 2 ≤
      (TypeExpr.printProperty ⟨name, type, optional⟩).toList.length := by
  simp only [TypeExpr.printProperty, String.toList_append, List.length_append]
  have : ": ".toList.length = 2 := rfl
  omega

theorem ReadsProperties.single (name : String) {type : TypeExpr} (optional : Bool)
    (h : ReadsType type.print.toList v) :
    ReadsProperties (TypeExpr.printProperty ⟨name, type, optional⟩).toList
      [⟨name, v, optional⟩] := by
  intro n hn rest
  have hlen := length_print_lt_printProperty name type optional
  obtain ⟨n, rfl⟩ : ∃ m, n = m + 1 := ⟨n - 1, by omega⟩
  have hread := readPropertyWith_print name optional
    (h n (by omega) (' ' :: '\x7d' :: rest) (.brace rest))
  rw [readProperties, hread]
  rfl

/-- A first member of an object type and the members after it. -/
theorem ReadsProperties.cons (name : String) {type : TypeExpr} (optional : Bool)
    {ps : List (Property TypeReading)} (h : ReadsType type.print.toList v)
    (hmore : ReadsProperties more ps) :
    ReadsProperties
      ((TypeExpr.printProperty ⟨name, type, optional⟩).toList ++ ';' :: ' ' :: more)
      (⟨name, v, optional⟩ :: ps) := by
  intro n hn rest
  have hlen := length_print_lt_printProperty name type optional
  simp only [List.length_append, List.length_cons] at hn
  obtain ⟨n, rfl⟩ : ∃ m, n = m + 1 := ⟨n - 1, by omega⟩
  have hread := readPropertyWith_print name optional
    (h n (by omega) (';' :: ' ' :: (more ++ ' ' :: '\x7d' :: rest)) (.semicolon _))
  have htext : (TypeExpr.printProperty ⟨name, type, optional⟩).toList ++ ';' :: ' ' :: more ++
      ' ' :: '\x7d' :: rest = (TypeExpr.printProperty ⟨name, type, optional⟩).toList ++
        ';' :: ' ' :: (more ++ ' ' :: '\x7d' :: rest) := by simp
  rw [htext, readProperties, hread, Option.bind_some]
  simp only [hmore n (by omega) rest]
  rfl

end Steps

/-! ## Printed types are read back -/

@[simp]
theorem separated_singleton (separator text : String) : separated separator [text] = text :=
  String.intercalate_singleton

theorem toList_separated_cons (separator text next : String) (texts : List String) :
    (separated separator (text :: next :: texts)).toList =
      text.toList ++ (separator.toList ++ (separated separator (next :: texts)).toList) := by
  simp [separated, String.intercalate_cons_cons]

theorem or_ofMembers (v : TypeReading) (value : Literal) (values : List Literal) :
    v.or (.ofMembers ((value :: values).map literalReading)) =
      .ofMembers (v :: (value :: values).map literalReading) := by
  cases values with
  | nil => cases value <;> rfl
  | cons next values => rfl

/-- An enumeration of one or more constants is read back. -/
theorem readsType_constants (value : Literal) (values : List Literal) :
    ReadsType (separated " | " ((value :: values).map printLiteral)).toList
      (.ofMembers ((value :: values).map literalReading)) := by
  induction values generalizing value with
  | nil =>
    rw [List.map_singleton, separated_singleton]
    exact (readsOperand_literal value).readsType
  | cons next values ih =>
    have hunion := (readsOperand_literal value).or (ih next)
    rw [or_ofMembers] at hunion
    rw [List.map_cons, List.map_cons, toList_separated_cons]
    exact hunion

theorem print_constants (values : List Literal) :
    (TypeExpr.union (values.map .literal)).print =
      if values.isEmpty then "never" else separated " | " (values.map printLiteral) := by
  rw [TypeExpr.print, TypeExpr.printAll_eq, List.map_map, List.isEmpty_map]
  rfl

theorem read_constants (values : List Literal) :
    ((TypeExpr.union (values.map .literal)).isCompound = false →
      ReadsOperand (TypeExpr.union (values.map .literal)).print.toList
        (.ofMembers (values.map literalReading))) ∧
    ReadsType (TypeExpr.union (values.map .literal)).print.toList
      (.ofMembers (values.map literalReading)) := by
  rw [print_constants]
  match values with
  | [] =>
    have hnever := readsOperand_word (isWord_primitive .never)
    exact ⟨fun _ => hnever, hnever.readsType⟩
  | [value] => exact ⟨fun _ => readsOperand_literal value, readsType_constants value []⟩
  | value :: next :: values =>
    exact ⟨fun h => absurd h (by simp [TypeExpr.isCompound]), readsType_constants value _⟩

mutual

/-- **A printed type is read back** up to where its text ends, and as an operand unless it is a
union of several members. -/
theorem read_print (t : TypeExpr) {v : TypeReading} (h : t.reading? = some v) :
    (t.isCompound = false → ReadsOperand t.print.toList v) ∧ ReadsType t.print.toList v := by
  match t with
  | .primitive keyword =>
    obtain rfl := Option.some.inj h
    have hword := readsOperand_word (isWord_primitive keyword)
    exact ⟨fun _ => hword, hword.readsType⟩
  | .literal value =>
    obtain rfl := Option.some.inj h
    have hvalue := readsOperand_literal value
    exact ⟨fun _ => hvalue, hvalue.readsType⟩
  | .union members =>
    obtain ⟨values, hvalues, rfl⟩ := Option.map_eq_some_iff.mp h
    obtain rfl := TypeExpr.eq_map_literal hvalues
    -- the members are constants, so the union is an enumeration
    exact read_constants values
  | .array element =>
    obtain ⟨w, hw, rfl⟩ := Option.map_eq_some_iff.mp h
    obtain ⟨hoperand, htype⟩ := read_print element hw
    -- the element stands in parentheses just when it is a union of several members
    have harray : ReadsOperand (TypeExpr.array element).print.toList (.array w) := by
      rw [TypeExpr.print, TypeExpr.needsParens_of_reading? hw, parenthesizeIf]
      split
      · simpa using htype.array
      · next hc => simpa using (hoperand (by simpa using hc)).array
    exact ⟨fun _ => harray, harray.readsType⟩
  | .object [] =>
    obtain rfl := Option.some.inj h
    exact ⟨fun _ => readsOperand_emptyObject, readsOperand_emptyObject.readsType⟩
  | .object (p :: ps) =>
    obtain ⟨qs, hqs, rfl⟩ := Option.map_eq_some_iff.mp h
    have hobject : ReadsOperand (TypeExpr.object (p :: ps)).print.toList (.object qs) := by
      have hps := read_printProperties (p :: ps) (List.cons_ne_nil p ps) hqs
      simpa [TypeExpr.print] using hps.object
    exact ⟨fun _ => hobject, hobject.readsType⟩

theorem read_printProperties (ps : List (Property TypeExpr)) (hne : ps ≠ [])
    {qs : List (Property TypeReading)} (h : TypeExpr.propertyReadings? ps = some qs) :
    ReadsProperties (separated "; " (TypeExpr.printProperties ps)).toList qs := by
  match ps with
  | [] => exact absurd rfl hne
  | [⟨name, type, optional⟩] =>
    obtain ⟨v, rest, hv, hrest, rfl⟩ := TypeExpr.propertyReadings?_cons.mp h
    obtain rfl := Option.some.inj hrest
    obtain ⟨-, htype⟩ := read_print type hv
    rw [TypeExpr.printProperties, TypeExpr.printProperties, separated_singleton]
    exact .single name optional htype
  | ⟨name, type, optional⟩ :: next :: ps =>
    obtain ⟨v, rest, hv, hrest, rfl⟩ := TypeExpr.propertyReadings?_cons.mp h
    obtain ⟨-, htype⟩ := read_print type hv
    have hmore := read_printProperties (next :: ps) (List.cons_ne_nil next ps) hrest
    rw [TypeExpr.printProperties, TypeExpr.printProperties, toList_separated_cons]
    exact .cons name optional htype hmore

end

end TypedClient.TypeScript
