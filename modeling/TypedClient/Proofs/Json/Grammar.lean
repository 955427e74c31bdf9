import TypedClient.Json.Text

/-!
# The grammar of JSON texts

Which texts stand for which tree, by the grammar of JSON: blanks may stand around every part, a
character of a string may be written as itself or as an escape, and a numeral is written digit by
digit. A tree has many texts, and nothing here says how one is read.

## Main definitions

* `Json.UnitsWritten`, `Json.Denotes`: the parts of a string, and the characters they stand for
* `Json.NumeralWritten`: the texts of a numeral
* `Json.Written`: the texts of a tree
* `Json.WrittenAs`: the texts of a document, with the blanks around it

## Main results

* `Json.isWhole_of_written`: a tree with a text is JSON to its end
-/

namespace TypedClient.Json

/-- A text of blanks only. -/
def Blanks (cs : List Char) : Prop :=
  ∀ c ∈ cs, c ∈ [' ', '\t', '\n', '\r']

instance (cs : List Char) : Decidable (Blanks cs) :=
  List.decidableBAll _ cs

theorem blanks_nil : Blanks [] := nofun

theorem blanks_space : Blanks [' '] := by decide

/-! ## Strings -/

/-- The escapes with one letter, each with the character it stands for. -/
def escapes : List (Char × Char) :=
  [('"', '"'), ('\\', '\\'), ('/', '/'), ('b', '\x08'), ('f', '\x0c'), ('n', '\n'), ('r', '\r'),
    ('t', '\t')]

/-- The digits of base sixteen, in letters of either case, each with its value. -/
def hexDigits : List (Char × Nat) :=
  "0123456789abcdef".toList.zipIdx ++ "ABCDEF".toList.zipIdx 10

/-- The texts of a part of a string. Quotes, backslashes and control characters are written as
escapes only. -/
inductive UnitWritten : CodeUnit → List Char → Prop
  | char {c : Char} (hquote : c ≠ '"') (hescape : c ≠ '\\') (hcontrol : 0x20 ≤ c.toNat) :
      UnitWritten (.char c) [c]
  | escape {e c : Char} (h : (e, c) ∈ escapes) : UnitWritten (.char c) ['\\', e]
  | code {x y z w : Char} {a b c d : Nat} (ha : (x, a) ∈ hexDigits) (hb : (y, b) ∈ hexDigits)
      (hc : (z, c) ∈ hexDigits) (hd : (w, d) ∈ hexDigits) :
      UnitWritten (.code (0x1000 * a + 0x100 * b + 0x10 * c + d)) ['\\', 'u', x, y, z, w]

/-- The texts of the parts of a string. -/
inductive UnitsWritten : List CodeUnit → List Char → Prop
  | nil : UnitsWritten [] []
  | cons {u : CodeUnit} {us : List CodeUnit} {cs ds : List Char} (h : UnitWritten u cs)
      (hs : UnitsWritten us ds) : UnitsWritten (u :: us) (cs ++ ds)

/-- The characters that the parts of a string stand for. A code stands for the character with this
number, and a character with a larger number takes a pair of codes. -/
inductive Denotes : List CodeUnit → List Char → Prop
  | nil : Denotes [] []
  | char {c : Char} {us : List CodeUnit} {s : List Char} (hs : Denotes us s) :
      Denotes (.char c :: us) (c :: s)
  | code {c : Char} {n : Nat} {us : List CodeUnit} {s : List Char} (hn : n < 0x10000)
      (hc : c.toNat = n) (hs : Denotes us s) : Denotes (.code n :: us) (c :: s)
  | pair {c : Char} {h l : Nat} {us : List CodeUnit} {s : List Char} (hh : h < 0x400)
      (hl : l < 0x400) (hc : c.toNat = 0x10000 + 0x400 * h + l) (hs : Denotes us s) :
      Denotes (.code (0xD800 + h) :: .code (0xDC00 + l) :: us) (c :: s)

/-- The texts of a string. Codes that are half of a pair stand for no text. -/
inductive StringWritten : Option String → List Char → Prop
  | text {us : List CodeUnit} {cs : List Char} {s : String} (h : UnitsWritten us cs)
      (hs : Denotes us s.toList) : StringWritten (some s) ('"' :: (cs ++ ['"']))
  | halfPair {us : List CodeUnit} {cs : List Char} (h : UnitsWritten us cs)
      (hs : ∀ s, ¬ Denotes us s) : StringWritten none ('"' :: (cs ++ ['"']))

/-- The characters that a string may have as they are. -/
def IsPlain (cs : List Char) : Prop :=
  ∀ c ∈ cs, c ≠ '"' ∧ c ≠ '\\' ∧ 0x20 ≤ c.toNat

instance (cs : List Char) : Decidable (IsPlain cs) :=
  List.decidableBAll _ cs

theorem unitsWritten_map_char {cs : List Char} (h : IsPlain cs) :
    UnitsWritten (cs.map .char) cs := by
  induction cs with
  | nil => exact .nil
  | cons c cs ih =>
    obtain ⟨⟨hquote, hescape, hcontrol⟩, hcs⟩ := List.forall_mem_cons.mp h
    exact .cons (.char hquote hescape hcontrol) (ih hcs)

theorem denotes_map_char : ∀ cs : List Char, Denotes (cs.map .char) cs
  | [] => .nil
  | _ :: cs => .char (denotes_map_char cs)

/-- A string written as it is. -/
theorem StringWritten.plain {s : String} (h : IsPlain s.toList) :
    StringWritten (some s) ('"' :: (s.toList ++ ['"'])) :=
  .text (unitsWritten_map_char h) (denotes_map_char s.toList)

/-! ## Numerals -/

/-- One digit or more. -/
def IsDigits (ds : List Char) : Prop :=
  ds ≠ [] ∧ ∀ d ∈ ds, d.isDigit = true

/-- The digits of a whole number, without a zero in front. -/
def IsWholeNumber (ds : List Char) : Prop :=
  IsDigits ds ∧ (ds.head? = some '0' → ds = ['0'])

/-- The texts of what follows a point. -/
inductive FractionWritten : Option (List Char) → List Char → Prop
  | none : FractionWritten none []
  | some {ds : List Char} (h : IsDigits ds) : FractionWritten (some ds) ('.' :: ds)

/-- The texts of the sign of an exponent. -/
inductive SignWritten : Bool → List Char → Prop
  | none : SignWritten false []
  | plus : SignWritten false ['+']
  | minus : SignWritten true ['-']

/-- The texts of an exponent. -/
inductive ExponentWritten : Option (Bool × List Char) → List Char → Prop
  | none : ExponentWritten none []
  | some {e : Char} {negative : Bool} {sign ds : List Char} (he : e = 'e' ∨ e = 'E')
      (hsign : SignWritten negative sign) (h : IsDigits ds) :
      ExponentWritten (some (negative, ds)) (e :: (sign ++ ds))

/-- The texts of a numeral. -/
inductive NumeralWritten : Numeral → List Char → Prop
  | mk {n : Numeral} {fs es : List Char} (hwhole : IsWholeNumber n.whole)
      (hfraction : FractionWritten n.fraction fs) (hexponent : ExponentWritten n.exponent es) :
      NumeralWritten n ((if n.negative then ['-'] else []) ++ (n.whole ++ (fs ++ es)))

/-! ## Values -/

/-- The texts of a key with its colon. -/
inductive KeyWritten : Option String → List Char → Prop
  | mk {key : Option String} {b cs a : List Char} (hb : Blanks b) (h : StringWritten key cs)
      (ha : Blanks a) : KeyWritten key (b ++ (cs ++ (a ++ [':'])))

mutual

/-- The texts of a tree. -/
inductive Written : Json → List Char → Prop
  | null : Written .null "null".toList
  | true : Written (.bool true) "true".toList
  | false : Written (.bool false) "false".toList
  | number {n : Numeral} {cs : List Char} (h : NumeralWritten n cs) : Written (.number n) cs
  | string {s : Option String} {cs : List Char} (h : StringWritten s cs) : Written (.string s) cs
  | emptyArray {b : List Char} (hb : Blanks b) : Written (.array []) ('[' :: (b ++ [']']))
  | array {vs : List Json} {cs : List Char} (h : ItemsWritten vs cs) :
      Written (.array vs) ('[' :: (cs ++ [']']))
  | emptyObject {b : List Char} (hb : Blanks b) : Written (.object []) ('\x7b' :: (b ++ ['\x7d']))
  | object {ms : List (Option String × Json)} {cs : List Char} (h : MembersWritten ms cs) :
      Written (.object ms) ('\x7b' :: (cs ++ ['\x7d']))

/-- The texts of the items of an array, of which there is at least one. -/
inductive ItemsWritten : List Json → List Char → Prop
  | last {v : Json} {b cs a : List Char} (hb : Blanks b) (h : Written v cs) (ha : Blanks a) :
      ItemsWritten [v] (b ++ (cs ++ a))
  | more {v : Json} {vs : List Json} {b cs a r : List Char} (hb : Blanks b) (h : Written v cs)
      (ha : Blanks a) (hrest : ItemsWritten vs r) :
      ItemsWritten (v :: vs) (b ++ (cs ++ (a ++ ',' :: r)))

/-- The texts of the members of an object, of which there is at least one. -/
inductive MembersWritten : List (Option String × Json) → List Char → Prop
  | last {key : Option String} {v : Json} {ks b cs a : List Char} (hkey : KeyWritten key ks)
      (hb : Blanks b) (h : Written v cs) (ha : Blanks a) :
      MembersWritten [(key, v)] (ks ++ (b ++ (cs ++ a)))
  | more {key : Option String} {v : Json} {ms : List (Option String × Json)}
      {ks b cs a r : List Char} (hkey : KeyWritten key ks) (hb : Blanks b) (h : Written v cs)
      (ha : Blanks a) (hrest : MembersWritten ms r) :
      MembersWritten ((key, v) :: ms) (ks ++ (b ++ (cs ++ (a ++ ',' :: r))))

end

section Spaced

variable {key : String} {v : Json} {ms : List (Option String × Json)} {b cs r : List Char}

/-- A member with its key as it is, and one space after the colon. -/
theorem MembersWritten.spaced_more (hb : Blanks b) (hkey : IsPlain key.toList) (h : Written v cs)
    (hrest : MembersWritten ms r) :
    MembersWritten ((some key, v) :: ms)
      ((b ++ ('"' :: (key.toList ++ ['"']) ++ [':'])) ++ ([' '] ++ (cs ++ ',' :: r))) :=
  .more (.mk hb (.plain hkey) blanks_nil) blanks_space h blanks_nil hrest

theorem MembersWritten.spaced_last (hb : Blanks b) (hkey : IsPlain key.toList)
    (h : Written v cs) :
    MembersWritten [(some key, v)]
      ((b ++ ('"' :: (key.toList ++ ['"']) ++ [':'])) ++ ([' '] ++ (cs ++ []))) :=
  .last (.mk hb (.plain hkey) blanks_nil) blanks_space h blanks_nil

end Spaced

/-- The texts of a document of one tree. -/
inductive WrittenAs (v : Json) : String → Prop
  | mk {b cs a : List Char} (hb : Blanks b) (h : Written v cs) (ha : Blanks a) :
      WrittenAs v (String.ofList (b ++ (cs ++ a)))

mutual

/-- **A tree with a text is JSON to its end.** -/
theorem isWhole_of_written : ∀ {v : Json} {cs : List Char}, Written v cs → v.isWhole = true
  | _, _, .null | _, _, .true | _, _, .false | _, _, .number _ | _, _, .string _
  | _, _, .emptyArray _ | _, _, .emptyObject _ => rfl
  | _, _, .array h => allWhole_of_written h
  | _, _, .object h => membersWhole_of_written h

theorem allWhole_of_written :
    ∀ {vs : List Json} {cs : List Char}, ItemsWritten vs cs → allWhole vs = true
  | _, _, .last _ h _ => by rw [allWhole, isWhole_of_written h, allWhole, Bool.and_self]
  | _, _, .more _ h _ hrest => by
    rw [allWhole, isWhole_of_written h, allWhole_of_written hrest, Bool.and_self]

theorem membersWhole_of_written :
    ∀ {ms : List (Option String × Json)} {cs : List Char}, MembersWritten ms cs →
      membersWhole ms = true
  | _, _, .last _ _ h _ => by
    rw [membersWhole, memberWhole, isWhole_of_written h, membersWhole, Bool.and_self]
  | _, _, .more _ _ h _ hrest => by
    rw [membersWhole, memberWhole, isWhole_of_written h, membersWhole_of_written hrest,
      Bool.and_self]

end

end TypedClient.Json
