import Mathlib.Data.List.DropRight
import TypedClient.Json.Format
import TypedClient.Proofs.Json.Grammar

/-!
# Reading JSON texts

Every text of a tree is read as this tree, whatever blanks, escapes and forms of numerals it has.
Each part of the reader takes the text of its part of the tree from the front of a longer text and
leaves the rest; a numeral needs the rest to begin with what ends it.

## Main results

* `Json.readString?_of_written`, `Json.readNumeral?_append`: strings and numerals
* `Json.readValue_of_written`: values, with enough steps
* `Json.ofText_of_writtenAs`, `Json.decode_of_writtenAs`: whole documents
-/

namespace TypedClient.Json

/-! ## Blanks -/

section Blanks

variable {b cs : List Char} {c : Char}

theorem isBlank_iff : isBlank c = true ↔ c ∈ [' ', '\t', '\n', '\r'] := by
  simp [isBlank, or_comm, or_left_comm, or_assoc]

theorem skipBlanks_append (hb : Blanks b) : skipBlanks (b ++ cs) = skipBlanks cs := by
  induction b with
  | nil => rfl
  | cons c b ih =>
    obtain ⟨hc, hb⟩ := List.forall_mem_cons.mp hb
    rw [skipBlanks, List.cons_append, List.dropWhile_cons_of_pos (isBlank_iff.mpr hc)]
    exact ih hb

theorem skipBlanks_cons (hc : isBlank c = false) : skipBlanks (c :: cs) = c :: cs :=
  List.dropWhile_cons_of_neg (by rw [hc]; nofun)

theorem skipBlanks_append_cons (hb : Blanks b) (hc : isBlank c = false) (cs : List Char) :
    skipBlanks (b ++ c :: cs) = c :: cs := by
  rw [skipBlanks_append hb, skipBlanks_cons hc]

theorem skipBlanks_eq_nil (hb : Blanks b) : skipBlanks b = [] := by
  rw [← List.append_nil b, skipBlanks_append hb]
  rfl

end Blanks

/-! ## Strings -/

section Strings

theorem escape?_of_mem {e c : Char} (h : (e, c) ∈ escapes) : escape? e = some c := by
  have hall : ∀ p ∈ escapes, escape? p.1 = some p.2 := by decide
  exact hall _ h

theorem digit?_of_mem {x : Char} {a : Nat} (h : (x, a) ∈ hexDigits) :
    Digits.digit? 16 x = some a := by
  have hall : ∀ p ∈ hexDigits, Digits.digit? 16 p.1 = some p.2 := by decide
  exact hall _ h

theorem lt_of_mem_hexDigits {x : Char} {a : Nat} (h : (x, a) ∈ hexDigits) : a < 16 := by
  have hall : ∀ p ∈ hexDigits, p.2 < 16 := by decide
  exact hall _ h

/-- A part of a string is read, and then the other ones. -/
theorem readUnits?_append {u : CodeUnit} {cs : List Char} (h : UnitWritten u cs)
    (rest : List Char) :
    readUnits? (cs ++ rest) = (fun (us, rest) => (u :: us, rest)) <$> readUnits? rest := by
  cases h with
  | @char c hquote hescape hcontrol =>
    have hc : (c == '\\' || c.toNat < 0x20) = false := by
      rw [beq_false_of_ne hescape, Bool.false_or, decide_eq_false_iff_not]
      omega
    rw [List.singleton_append, readUnits?, hc]
    · cases readUnits? rest <;> rfl
    · exact hquote
    · exact fun _ _ _ _ _ he => absurd he hescape
    · exact fun _ _ he => absurd he hescape
  | @escape e c h =>
    have he : ∀ p ∈ escapes, p.1 ≠ 'u' := by decide
    rw [List.cons_append, List.singleton_append, readUnits?, escape?_of_mem h]
    · cases readUnits? rest <;> rfl
    · exact fun _ _ _ _ _ he' => absurd he' (he _ h)
  | @code x y z w a b c d ha hb hc hd =>
    have hn : Digits.value? 16 [x, y, z, w] = some (0x1000 * a + 0x100 * b + 0x10 * c + d) := by
      simp [Digits.value?, digit?_of_mem ha, digit?_of_mem hb, digit?_of_mem hc, digit?_of_mem hd]
      omega
    simp only [List.cons_append, List.nil_append]
    rw [readUnits?, hn]
    cases readUnits? rest <;> rfl

theorem readUnits?_of_written {us : List CodeUnit} {cs : List Char} (h : UnitsWritten us cs)
    (rest : List Char) : readUnits? (cs ++ '"' :: rest) = some (us, rest) := by
  induction h with
  | nil => rw [List.nil_append, readUnits?]
  | cons h _ ih =>
    rw [List.append_assoc, readUnits?_append h, ih]
    rfl

/-- A code with four digits. -/
theorem lt_of_unitWritten {n : Nat} {cs : List Char} (h : UnitWritten (.code n) cs) :
    n < 0x10000 := by
  cases h with
  | code ha hb hc hd =>
    have ha := lt_of_mem_hexDigits ha
    have hb := lt_of_mem_hexDigits hb
    have hc := lt_of_mem_hexDigits hc
    have hd := lt_of_mem_hexDigits hd
    omega

theorem lt_of_unitsWritten {us : List CodeUnit} {cs : List Char} (h : UnitsWritten us cs) :
    ∀ n, .code n ∈ us → n < 0x10000 := by
  induction h with
  | nil => exact nofun
  | cons h _ ih =>
    intro n hn
    rcases List.mem_cons.mp hn with rfl | hn
    · exact lt_of_unitWritten h
    · exact ih n hn

theorem decodeUnits?_code {n : Nat} {us : List CodeUnit} (hhigh : isHighSurrogate n = false)
    (hlow : isLowSurrogate n = false) :
    decodeUnits? (.code n :: us) = (Char.ofNat n :: ·) <$> decodeUnits? us := by
  cases us with
  | nil => simp [decodeUnits?, hhigh, hlow]
  | cons u us => cases u <;> simp [decodeUnits?, hhigh, hlow]

theorem decodeUnits?_pair {h l : Nat} {us : List CodeUnit} (hh : h < 0x400) (hl : l < 0x400) :
    decodeUnits? (.code (0xD800 + h) :: .code (0xDC00 + l) :: us) =
      (Char.ofNat (0x10000 + 0x400 * h + l) :: ·) <$> decodeUnits? us := by
  have hhigh : isHighSurrogate (0xD800 + h) = true := by
    simp only [isHighSurrogate, Bool.and_eq_true, decide_eq_true_eq]
    omega
  have hlow : isLowSurrogate (0xDC00 + l) = true := by
    simp only [isLowSurrogate, Bool.and_eq_true, decide_eq_true_eq]
    omega
  rw [decodeUnits?, if_pos hhigh, if_pos hlow, Nat.add_sub_cancel_left, Nat.add_sub_cancel_left,
    Nat.mul_comm h]

/-- The number of a character is no half of a pair. -/
theorem isSurrogate_toNat (c : Char) :
    isHighSurrogate c.toNat = false ∧ isLowSurrogate c.toNat = false := by
  have h : c.toNat < 0xD800 ∨ 0xE000 ≤ c.toNat := c.valid.imp id fun h => h.1
  simp only [isHighSurrogate, isLowSurrogate, Bool.and_eq_false_iff, decide_eq_false_iff_not]
  omega

theorem decodeUnits?_of_denotes {us : List CodeUnit} {s : List Char} (h : Denotes us s) :
    decodeUnits? us = some s := by
  induction h with
  | nil => rfl
  | char _ ih =>
    rw [decodeUnits?, ih]
    rfl
  | @code c n us s _ hc _ ih =>
    obtain ⟨hhigh, hlow⟩ := isSurrogate_toNat c
    rw [← hc, decodeUnits?_code hhigh hlow, ih, Char.ofNat_toNat]
    rfl
  | @pair c h l us s hh hl hc _ ih =>
    rw [decodeUnits?_pair hh hl, ih, ← hc, Char.ofNat_toNat]
    rfl

/-- The number of a character without a place among the halves of pairs. -/
theorem toNat_ofNat_of_isSurrogate {n : Nat} (hn : n < 0x110000)
    (hhigh : isHighSurrogate n = false) (hlow : isLowSurrogate n = false) :
    (Char.ofNat n).toNat = n := by
  have hvalid : n.isValidChar := by
    simp only [isHighSurrogate, isLowSurrogate, Bool.and_eq_false_iff, decide_eq_false_iff_not]
      at hhigh hlow
    rw [Nat.isValidChar]
    omega
  rw [Char.ofNat, dif_pos hvalid]
  rfl

/-- A code that is no half of a pair stands for its character. -/
theorem denotes_code {n : Nat} {us : List CodeUnit} {s : List Char} (hn : n < 0x10000)
    (hhigh : isHighSurrogate n = false) (hlow : isLowSurrogate n = false) (hs : Denotes us s) :
    Denotes (.code n :: us) (Char.ofNat n :: s) :=
  .code hn (toNat_ofNat_of_isSurrogate (by omega) hhigh hlow) hs

theorem denotes_pair {n m : Nat} {us : List CodeUnit} {s : List Char}
    (hhigh : isHighSurrogate n = true) (hlow : isLowSurrogate m = true) (hs : Denotes us s) :
    Denotes (.code n :: .code m :: us)
      (Char.ofNat (0x10000 + (n - 0xD800) * 0x400 + (m - 0xDC00)) :: s) := by
  simp only [isHighSurrogate, isLowSurrogate, Bool.and_eq_true, decide_eq_true_eq] at hhigh hlow
  obtain ⟨h, rfl⟩ := Nat.exists_eq_add_of_le hhigh.1
  obtain ⟨l, rfl⟩ := Nat.exists_eq_add_of_le hlow.1
  refine .pair (by omega) (by omega) ?_ hs
  have hvalid : (0x10000 + (0xD800 + h - 0xD800) * 0x400 + (0xDC00 + l - 0xDC00)).isValidChar := by
    rw [Nat.isValidChar]
    omega
  rw [Char.ofNat, dif_pos hvalid]
  change 0x10000 + (0xD800 + h - 0xD800) * 0x400 + (0xDC00 + l - 0xDC00) = _
  omega

theorem denotes_of_decodeUnits? {us : List CodeUnit} {s : List Char}
    (hlt : ∀ n, .code n ∈ us → n < 0x10000) (h : decodeUnits? us = some s) : Denotes us s := by
  induction us using decodeUnits?.induct generalizing s with
  | case1 =>
    obtain rfl := Option.some.inj h
    exact .nil
  | case2 c us ih =>
    obtain ⟨s, hs, rfl⟩ := Option.map_eq_some_iff.mp h
    exact .char (ih (fun n hn => hlt n (.tail _ hn)) hs)
  | case3 n m us hhigh hlow ih =>
    rw [decodeUnits?, if_pos hhigh, if_pos hlow] at h
    obtain ⟨s, hs, rfl⟩ := Option.map_eq_some_iff.mp h
    exact denotes_pair hhigh hlow (ih (fun n hn => hlt n (.tail _ (.tail _ hn))) hs)
  | case4 n m us hhigh hlow =>
    rw [decodeUnits?, if_pos hhigh, if_neg hlow] at h
    cases h
  | case5 n m us hhigh hlow =>
    rw [decodeUnits?, if_neg hhigh, if_pos hlow] at h
    cases h
  | case6 n m us hhigh hlow ih =>
    rw [decodeUnits?_code (Bool.eq_false_iff.mpr hhigh) (Bool.eq_false_iff.mpr hlow)] at h
    obtain ⟨s, hs, rfl⟩ := Option.map_eq_some_iff.mp h
    exact denotes_code (hlt n (.head _)) (Bool.eq_false_iff.mpr hhigh) (Bool.eq_false_iff.mpr hlow)
      (ih (fun n hn => hlt n (.tail _ hn)) hs)
  | case7 n us hnone hsurrogate =>
    rw [decodeUnits?, if_pos hsurrogate] at h
    · cases h
    · exact hnone
  | case8 n us hnone hsurrogate ih =>
    obtain ⟨hhigh, hlow⟩ := Bool.or_eq_false_iff.mp (Bool.eq_false_iff.mpr hsurrogate)
    rw [decodeUnits?_code hhigh hlow] at h
    obtain ⟨s, hs, rfl⟩ := Option.map_eq_some_iff.mp h
    exact denotes_code (hlt n (.head _)) hhigh hlow (ih (fun n hn => hlt n (.tail _ hn)) hs)

/-- **A string is read** up to its closing quote. -/
theorem readString?_of_written {s : Option String} {cs : List Char} (h : StringWritten s cs)
    (rest : List Char) : ∃ ds, cs ++ rest = '"' :: ds ∧ readString? ds = some (s, rest) := by
  cases h with
  | @text us cs s h hs =>
    refine ⟨cs ++ '"' :: rest, by simp, ?_⟩
    rw [readString?, readUnits?_of_written h, Option.bind_eq_bind, Option.bind_some]
    dsimp only
    rw [decodeUnits?_of_denotes hs, Option.map_some, String.ofList_toList]
    rfl
  | @halfPair us cs h hs =>
    refine ⟨cs ++ '"' :: rest, by simp, ?_⟩
    have hnone : decodeUnits? us = none := by
      refine Option.eq_none_iff_forall_not_mem.mpr fun s hmem => ?_
      exact hs s (denotes_of_decodeUnits? (lt_of_unitsWritten h) hmem)
    rw [readString?, readUnits?_of_written h, Option.bind_eq_bind, Option.bind_some]
    dsimp only
    rw [hnone]
    rfl

end Strings

/-! ## Numerals -/

/-- A text that goes on with none of some characters. -/
def StartsWithout (p : Char → Bool) (cs : List Char) : Prop :=
  ∀ c ∈ cs.head?, p c = false

/-- A text after a value. -/
def Delimited (cs : List Char) : Prop :=
  ∀ c ∈ cs.head?, c ∈ [' ', '\t', '\n', '\r', ',', ']', '\x7d']

section Numerals

variable {ds fs es rest : List Char}

theorem Delimited.without (h : Delimited rest) {p : Char → Bool}
    (hp : [' ', '\t', '\n', '\r', ',', ']', '\x7d'].all (!p ·) = true) :
    StartsWithout p rest := by
  intro c hc
  simpa using List.all_eq_true.mp hp c (h c hc)

theorem takeWhile_append_of_startsWithout {p : Char → Bool} (hds : ∀ d ∈ ds, p d = true)
    (h : StartsWithout p rest) :
    (ds ++ rest).takeWhile p = ds ∧ (ds ++ rest).dropWhile p = rest := by
  rw [List.takeWhile_append_of_pos hds, List.dropWhile_append_of_pos hds]
  cases rest with
  | nil => exact ⟨List.append_nil ds, rfl⟩
  | cons c rest =>
    have hc : ¬ p c = true := Bool.eq_false_iff.mp (h c rfl)
    rw [List.takeWhile_cons_of_neg hc, List.dropWhile_cons_of_neg hc]
    exact ⟨List.append_nil ds, rfl⟩

theorem readDigits?_append (hds : IsDigits ds) (h : StartsWithout Char.isDigit rest) :
    readDigits? (ds ++ rest) = some (ds, rest) := by
  obtain ⟨htake, hdrop⟩ := takeWhile_append_of_startsWithout hds.2 h
  rw [readDigits?, htake, hdrop, if_neg (by simpa using hds.1)]

theorem readWhole?_append (hds : IsWholeNumber ds) (h : StartsWithout Char.isDigit rest) :
    readWhole? (ds ++ rest) = some (ds, rest) := by
  obtain ⟨d, ds, rfl⟩ := List.exists_cons_of_ne_nil hds.1.1
  by_cases hd : d = '0'
  · subst hd
    obtain rfl := (List.cons.inj (hds.2 rfl)).2
    have hrest : (rest.head?.map Char.isDigit).getD false = false := by
      cases rest with
      | nil => rfl
      | cons c rest => exact h c rfl
    rw [List.singleton_append, readWhole?, hrest]
    rfl
  · rw [List.cons_append, readWhole?]
    · exact readDigits?_append hds.1 h
    · intro cs he
      exact hd (List.cons.inj he).1

theorem readFraction?_append {fraction : Option (List Char)} (hfs : FractionWritten fraction fs)
    (hdigit : StartsWithout Char.isDigit rest) (hpoint : StartsWithout (· == '.') rest) :
    readFraction? (fs ++ rest) = some (fraction, rest) := by
  cases hfs with
  | none =>
    rw [List.nil_append, readFraction?]
    rintro cs rfl
    exact absurd (hpoint '.' rfl) (by decide)
  | some hds =>
    rw [List.cons_append, readFraction?, readDigits?_append hds hdigit]
    rfl

theorem readExponent?_append {exponent : Option (Bool × List Char)}
    (hes : ExponentWritten exponent es) (hdigit : StartsWithout Char.isDigit rest)
    (hletter : StartsWithout (fun c => c == 'e' || c == 'E') rest) :
    readExponent? (es ++ rest) = some (exponent, rest) := by
  cases hes with
  | none =>
    cases rest with
    | nil => rfl
    | cons c rest =>
      have hc : ¬ (c == 'e' || c == 'E') = true := Bool.eq_false_iff.mp (hletter c rfl)
      rw [List.nil_append]
      unfold readExponent?
      exact if_neg hc
  | @some e negative sign ds he hsign hds =>
    have he : (e == 'e' || e == 'E') = true := by
      rcases he with rfl | rfl <;> rfl
    have hdigits := readDigits?_append hds hdigit
    cases hsign with
    | plus =>
      simp only [List.cons_append, List.nil_append]
      rw [readExponent?, if_pos he, hdigits]
      rfl
    | minus =>
      simp only [List.cons_append, List.nil_append]
      rw [readExponent?, if_pos he, hdigits]
      rfl
    | none =>
      -- the first digit is no sign
      obtain ⟨d, ds, rfl⟩ := List.exists_cons_of_ne_nil hds.1
      have hd := hds.2 d (List.mem_cons_self ..)
      rw [List.nil_append, List.cons_append, List.cons_append, readExponent?, if_pos he]
      · rw [List.cons_append] at hdigits
        rw [hdigits]
        rfl
      · rintro cs he
        obtain rfl := (List.cons.inj he).1
        exact absurd hd (by decide)
      · rintro cs he
        obtain rfl := (List.cons.inj he).1
        exact absurd hd (by decide)

/-- **A numeral is read** up to where it ends. -/
theorem readNumeral?_append {n : Numeral} {cs : List Char} (h : NumeralWritten n cs)
    (hrest : Delimited rest) : readNumeral? (cs ++ rest) = some (n, rest) := by
  obtain ⟨negative, whole, fraction, exponent⟩ := n
  obtain @⟨fs, es, hwhole, hfraction, hexponent⟩ := h
  dsimp only at hwhole hfraction hexponent ⊢
  have hdigit : StartsWithout Char.isDigit rest := hrest.without (by decide)
  -- an exponent begins with a letter, so that the digits before it end there
  have hletters {p : Char → Bool} (he : p 'e' = false) (hE : p 'E' = false)
      (hp : StartsWithout p rest) : StartsWithout p (es ++ rest) := by
    cases hexponent with
    | none => exact hp
    | some h' _ _ =>
      rintro c ⟨⟩
      rcases h' with rfl | rfl
      · exact he
      · exact hE
  have hdigit' : StartsWithout Char.isDigit (es ++ rest) := hletters rfl rfl hdigit
  have hpoint : StartsWithout Char.isDigit (fs ++ (es ++ rest)) := by
    cases hfraction with
    | none => exact hdigit'
    | some _ =>
      rintro c ⟨⟩
      rfl
  have hparts : readWhole? (whole ++ (fs ++ (es ++ rest))) = some (whole, fs ++ (es ++ rest)) ∧
      readFraction? (fs ++ (es ++ rest)) = some (fraction, es ++ rest) ∧
      readExponent? (es ++ rest) = some (exponent, rest) :=
    ⟨readWhole?_append hwhole hpoint,
      readFraction?_append hfraction hdigit' (hletters rfl rfl (hrest.without (by decide))),
      readExponent?_append hexponent hdigit (hrest.without (by decide))⟩
  obtain ⟨hw, hf, he⟩ := hparts
  cases negative with
  | true =>
    simp only [if_true, List.cons_append, List.nil_append, List.append_assoc]
    rw [readNumeral?]
    simp only [hw, hf, he, Option.bind_eq_bind, Option.bind_some]
    rfl
  | false =>
    simp only [Bool.false_eq_true, if_false, List.nil_append, List.append_assoc]
    rw [readNumeral?]
    · simp only [hw, hf, he, Option.bind_eq_bind, Option.bind_some]
      rfl
    · -- the first digit is no sign
      obtain ⟨d, ds, rfl⟩ := List.exists_cons_of_ne_nil hwhole.1.1
      intro cs hsign
      obtain rfl := (List.cons.inj hsign).1
      exact absurd (hwhole.1.2 '-' (List.mem_cons_self ..)) (by decide)

end Numerals
/-! ## Values -/

section Values

variable {v : Json} {b cs rest : List Char} {steps : Nat}

theorem skipBlanks_skipBlanks (cs : List Char) : skipBlanks (skipBlanks cs) = skipBlanks cs :=
  List.dropWhile_idempotent ..

theorem readValue_skipBlanks (steps : Nat) (cs : List Char) :
    readValue steps (skipBlanks cs) = readValue steps cs := by
  cases steps with
  | zero => rw [readValue, readValue]
  | succ steps => rw [readValue, readValue, skipBlanks_skipBlanks]

theorem readItems_skipBlanks (steps : Nat) (cs : List Char) :
    readItems steps (skipBlanks cs) = readItems steps cs := by
  cases steps with
  | zero => rw [readItems, readItems]
  | succ steps => rw [readItems, readItems, readValue_skipBlanks]

theorem readMembers_skipBlanks (steps : Nat) (cs : List Char) :
    readMembers steps (skipBlanks cs) = readMembers steps cs := by
  cases steps with
  | zero => rw [readMembers, readMembers]
  | succ steps => rw [readMembers, readMembers, skipBlanks_skipBlanks]

/-- A character that a numeral begins with. -/
def startsNumeral (c : Char) : Bool :=
  c == '-' || c.isDigit

theorem exists_cons_of_numeralWritten {n : Numeral} (h : NumeralWritten n cs) :
    ∃ c ds, cs = c :: ds ∧ startsNumeral c = true := by
  obtain ⟨negative, whole, fraction, exponent⟩ := n
  obtain @⟨fs, es, hwhole, hfraction, hexponent⟩ := h
  cases negative with
  | true => exact ⟨'-', _, rfl, rfl⟩
  | false =>
    obtain ⟨d, ds, rfl⟩ := List.exists_cons_of_ne_nil hwhole.1.1
    refine ⟨d, _, rfl, ?_⟩
    rw [startsNumeral, hwhole.1.2 d (.head _), Bool.or_true]

theorem ne_of_startsNumeral {c : Char} (h : startsNumeral c = true) :
    ∀ d ∈ [' ', '\t', '\n', '\r', 'n', 't', 'f', '"', '[', ']', '\x7b', '\x7d'], c ≠ d := by
  have hall : [' ', '\t', '\n', '\r', 'n', 't', 'f', '"', '[', ']', '\x7b', '\x7d'].all
      (!startsNumeral ·) = true := by decide
  rintro d hd rfl
  have hd := List.all_eq_true.mp hall c hd
  rw [h] at hd
  cases hd

theorem isBlank_of_startsNumeral {c : Char} (h : startsNumeral c = true) : isBlank c = false := by
  refine Bool.eq_false_iff.mpr fun hblank => ?_
  have hmem : c ∈ [' ', '\t', '\n', '\r'] ++ ['n', 't', 'f', '"', '[', ']', '\x7b', '\x7d'] :=
    List.mem_append_left _ (isBlank_iff.mp hblank)
  exact ne_of_startsNumeral h c hmem rfl

theorem readValue_numeral {n : Numeral} (h : NumeralWritten n cs) (hrest : Delimited rest) :
    readValue (steps + 1) (cs ++ rest) = (.number n, rest) := by
  have hread := readNumeral?_append h hrest
  obtain ⟨c, ds, rfl, hc⟩ := exists_cons_of_numeralWritten h
  rw [List.cons_append] at hread ⊢
  have hne := ne_of_startsNumeral hc
  rw [readValue, skipBlanks_cons (isBlank_of_startsNumeral hc)]
  split
  case h_7 => rw [hread]
  all_goals
    next heq =>
      refine absurd (List.cons.inj heq).1 (hne _ ?_)
      decide

/-- A value begins with a character that ends no list. -/
theorem exists_cons_of_written (h : Written v cs) :
    ∃ c ds, cs = c :: ds ∧ isBlank c = false ∧ c ≠ ']' := by
  cases h with
  | null | true | false | emptyArray | array | emptyObject | object =>
    exact ⟨_, _, rfl, by decide, by decide⟩
  | number h =>
    obtain ⟨c, ds, rfl, hc⟩ := exists_cons_of_numeralWritten h
    exact ⟨c, ds, rfl, isBlank_of_startsNumeral hc, ne_of_startsNumeral hc _ (by decide)⟩
  | string h => cases h <;> exact ⟨_, _, rfl, by decide, by decide⟩

/-- The items of a list begin with a value, after blanks. -/
theorem exists_skipBlanks_of_itemsWritten {vs : List Json} (h : ItemsWritten vs cs)
    (rest : List Char) : ∃ c ds, skipBlanks (cs ++ rest) = c :: ds ∧ c ≠ ']' := by
  obtain ⟨v, b, ds, after, hb, hv, rfl⟩ : ∃ v b ds after, Blanks b ∧ Written v ds ∧
      cs = b ++ (ds ++ after) := by
    cases h with
    | last hb hv _ => exact ⟨_, _, _, _, hb, hv, rfl⟩
    | more hb hv _ _ => exact ⟨_, _, _, _, hb, hv, rfl⟩
  obtain ⟨c, ds, rfl, hblank, hne⟩ := exists_cons_of_written hv
  refine ⟨c, ds ++ (after ++ rest), ?_, hne⟩
  rw [List.append_assoc, skipBlanks_append hb]
  simp only [List.cons_append, List.append_assoc]
  exact skipBlanks_cons hblank

/-- A member is read with the value after its key, up to the end of the object or to the member
after it. -/
theorem readMembers_append {key : Option String} {ks cs rest : List Char} {v : Json}
    (h : KeyWritten key ks) (hread : readValue steps rest = (v, cs)) :
    (∀ r, skipBlanks cs = '\x7d' :: r →
        readMembers (steps + 1) (ks ++ rest) = ([(key, v)], r)) ∧
      ∀ r ms r', skipBlanks cs = ',' :: r → readMembers steps r = (ms, r') →
        readMembers (steps + 1) (ks ++ rest) = ((key, v) :: ms, r') := by
  obtain @⟨b, ks, a, hb, hkey, ha⟩ := h
  obtain ⟨ds, hds, hstring⟩ := readString?_of_written hkey (a ++ (':' :: rest))
  have hcs : b ++ (ks ++ (a ++ [':'])) ++ rest = b ++ ('"' :: ds) := by
    rw [← hds]
    simp
  have hcolon : skipBlanks (a ++ ':' :: rest) = ':' :: rest := by
    rw [skipBlanks_append ha, skipBlanks_cons (by decide)]
  have hquote : skipBlanks (b ++ (ks ++ (a ++ [':'])) ++ rest) = '"' :: ds := by
    rw [hcs, skipBlanks_append hb, skipBlanks_cons (by decide)]
  constructor
  · intro r hend
    simp only [readMembers, hquote, hstring, hcolon, hread, hend]
  · intro r ms r' hend hrest
    simp only [readMembers, hquote, hstring, hcolon, hread, hend, hrest]

theorem exists_skipBlanks_of_membersWritten {ms : List (Option String × Json)}
    (h : MembersWritten ms cs) (rest : List Char) :
    ∃ c ds, skipBlanks (cs ++ rest) = c :: ds ∧ c ≠ '\x7d' := by
  obtain ⟨key, ks, after, hkey, rfl⟩ : ∃ key ks after, KeyWritten key ks ∧ cs = ks ++ after := by
    cases h with
    | last hkey _ _ _ => exact ⟨_, _, _, hkey, rfl⟩
    | more hkey _ _ _ _ => exact ⟨_, _, _, hkey, rfl⟩
  obtain @⟨b, ks, a, hb, hkey, ha⟩ := hkey
  obtain ⟨ds, hds, _⟩ := readString?_of_written hkey (a ++ ([':'] ++ (after ++ rest)))
  refine ⟨'"', ds, ?_, by decide⟩
  simp only [List.append_assoc]
  rw [skipBlanks_append hb, hds, skipBlanks_cons (by decide)]

theorem readValue_append (hb : Blanks b) (steps : Nat) (cs : List Char) :
    readValue steps (b ++ cs) = readValue steps cs := by
  rw [← readValue_skipBlanks, skipBlanks_append hb, readValue_skipBlanks]

theorem delimited_append {c : Char} (hb : Blanks b) (hc : c ∈ [',', ']', '\x7d']) :
    Delimited (b ++ c :: rest) := by
  intro d hd
  cases b with
  | nil =>
    obtain rfl := Option.some.inj hd
    exact List.mem_append_right [' ', '\t', '\n', '\r'] hc
  | cons x b =>
    obtain rfl := Option.some.inj hd
    exact List.mem_append_left [',', ']', '\x7d'] (hb x (.head _))

mutual

/-- **A value is read** up to where it ends. -/
theorem readValue_of_written : ∀ {v : Json} {cs : List Char}, Written v cs →
    ∀ (steps : Nat) (rest : List Char), 2 * cs.length ≤ steps → Delimited rest →
      readValue steps (cs ++ rest) = (v, rest)
  | _, _, .null, steps + 1, rest, _, _ => rfl
  | _, _, .true, steps + 1, rest, _, _ => rfl
  | _, _, .false, steps + 1, rest, _, _ => rfl
  | _, _, .number h, 0, rest, hsteps, _ => by
    obtain ⟨c, ds, rfl, _⟩ := exists_cons_of_numeralWritten h
    cases hsteps
  | _, _, .number h, steps + 1, rest, _, hrest => readValue_numeral h hrest
  | _, _, .string h, 0, rest, hsteps, _ => by cases h <;> cases hsteps
  | _, _, .string h, steps + 1, rest, _, _ => by
    obtain ⟨ds, hds, hread⟩ := readString?_of_written h rest
    rw [hds, readValue, skipBlanks_cons (by decide)]
    simp only [hread]
  | _, _, .emptyArray (b := b) hb, steps + 1, rest, _, _ => by
    have hskip : skipBlanks (b ++ ']' :: rest) = ']' :: rest :=
      skipBlanks_append_cons hb (by decide) rest
    simp only [List.cons_append, List.append_assoc, List.nil_append]
    rw [readValue, skipBlanks_cons (by decide)]
    simp only [hskip]
  | _, _, .array h, steps + 1, rest, hsteps, _ => by
    simp only [List.cons_append, List.append_assoc, List.nil_append, List.length_cons,
      List.length_append, List.length_nil] at hsteps ⊢
    obtain ⟨c, ds, hskip, hne⟩ := exists_skipBlanks_of_itemsWritten h (']' :: rest)
    have hread := readItems_of_written h steps rest (by omega)
    rw [← readItems_skipBlanks, hskip] at hread
    rw [readValue, skipBlanks_cons (by decide)]
    simp only [hskip]
    split
    · next heq => exact absurd (List.cons.inj heq).1 hne
    · rw [hread]
  | _, _, .emptyObject (b := b) hb, steps + 1, rest, _, _ => by
    have hskip : skipBlanks (b ++ '\x7d' :: rest) = '\x7d' :: rest :=
      skipBlanks_append_cons hb (by decide) rest
    simp only [List.cons_append, List.append_assoc, List.nil_append]
    rw [readValue, skipBlanks_cons (by decide)]
    simp only [hskip]
  | _, _, .object h, steps + 1, rest, hsteps, _ => by
    simp only [List.cons_append, List.append_assoc, List.nil_append, List.length_cons,
      List.length_append, List.length_nil] at hsteps ⊢
    obtain ⟨c, ds, hskip, hne⟩ := exists_skipBlanks_of_membersWritten h ('\x7d' :: rest)
    have hread := readMembers_of_written h steps rest (by omega)
    rw [← readMembers_skipBlanks, hskip] at hread
    rw [readValue, skipBlanks_cons (by decide)]
    simp only [hskip]
    split
    · next heq => exact absurd (List.cons.inj heq).1 hne
    · rw [hread]

/-- The items of an array are read up to its end. -/
theorem readItems_of_written : ∀ {vs : List Json} {cs : List Char}, ItemsWritten vs cs →
    ∀ (steps : Nat) (rest : List Char), 2 * cs.length + 1 ≤ steps →
      readItems steps (cs ++ ']' :: rest) = (vs, rest)
  | _, _, .last (a := a) hb h ha, steps + 1, rest, hsteps => by
    simp only [List.append_assoc, List.length_append] at hsteps ⊢
    have hread := readValue_of_written h steps (a ++ ']' :: rest) (by omega)
      (delimited_append ha (by decide))
    rw [readItems, readValue_append hb, hread]
    simp only [skipBlanks_append_cons ha (by decide : isBlank ']' = false)]
  | _, _, .more (a := a) (r := r) hb h ha hrest, steps + 1, rest, hsteps => by
    simp only [List.append_assoc, List.length_append, List.cons_append, List.length_cons]
      at hsteps ⊢
    have hread := readValue_of_written h steps (a ++ ',' :: (r ++ ']' :: rest)) (by omega)
      (delimited_append ha (by decide))
    rw [readItems, readValue_append hb, hread]
    simp only [skipBlanks_append_cons ha (by decide : isBlank ',' = false),
      readItems_of_written hrest steps rest (by omega)]

/-- The members of an object are read up to its end. -/
theorem readMembers_of_written : ∀ {ms : List (Option String × Json)} {cs : List Char},
    MembersWritten ms cs → ∀ (steps : Nat) (rest : List Char), 2 * cs.length + 1 ≤ steps →
      readMembers steps (cs ++ '\x7d' :: rest) = (ms, rest)
  | _, _, .last (a := a) hkey hb h ha, steps + 1, rest, hsteps => by
    simp only [List.append_assoc, List.length_append] at hsteps ⊢
    have hread := readValue_of_written h steps (a ++ '\x7d' :: rest) (by omega)
      (delimited_append ha (by decide))
    refine (readMembers_append hkey ((readValue_append hb _ _).trans hread)).1 rest ?_
    exact skipBlanks_append_cons ha (by decide : isBlank '\x7d' = false) rest
  | _, _, .more (a := a) (r := r) hkey hb h ha hrest, steps + 1, rest, hsteps => by
    simp only [List.append_assoc, List.length_append, List.cons_append, List.length_cons]
      at hsteps ⊢
    have hread := readValue_of_written h steps (a ++ ',' :: (r ++ '\x7d' :: rest)) (by omega)
      (delimited_append ha (by decide))
    refine (readMembers_append hkey ((readValue_append hb _ _).trans hread)).2 _ _ _ ?_
      (readMembers_of_written hrest steps rest (by omega))
    exact skipBlanks_append_cons ha (by decide : isBlank ',' = false) (r ++ '\x7d' :: rest)

end

/-- **The tree of a text is read**, and blanks are left. -/
theorem ofText_of_writtenAs {text : String} (h : WrittenAs v text) :
    ∃ rest, ofText text.toList = (v, rest) ∧ skipBlanks rest = [] := by
  obtain @⟨b, cs, a, hb, h, ha⟩ := h
  refine ⟨a, ?_, skipBlanks_eq_nil ha⟩
  have ha' : Delimited a := fun c hc =>
    List.mem_append_left [',', ']', '\x7d'] (ha c (List.mem_of_mem_head? hc))
  rw [ofText, String.toList_ofList, readValue_append hb]
  refine readValue_of_written h _ a ?_ ha'
  simp only [List.length_append]
  omega

/-- A document is read as the tree that its text stands for. -/
theorem decode_of_writtenAs {α : Type} {read : Reader (Except ReadFault) Json α} {text : String}
    {value : α} (h : WrittenAs v text) (hread : read v = .ok value) :
    decode read text = .ok value := by
  obtain ⟨rest, htext, hrest⟩ := ofText_of_writtenAs h
  rw [decode, htext]
  simp only [hread, hrest]
  rfl

end Values

end TypedClient.Json
