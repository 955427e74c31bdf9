import TypedClient.Proofs.TypeScript.TypeForm
import TypedClient.Proofs.TypeScript.TypeText

/-!
# Reading forms

The text of a type of any kind is read from left to right: operands with their suffixes, members
of a union, functions whose result takes in all that follows. An opening parenthesis begins the
parameters of a function if a mark comes after the name behind it, and a type otherwise.

## Main definitions

* `readMembers`, `readTail`: the readers of a type and of what follows an operand
* `readItems`: the reader of lists with a separator
* `ReadsBack`, `Reads`, `ReadsTail`, `IsOperand`: that a text is read back up to where a type ends

## Main results

* `IsOperand.reads`: an operand is read back with what follows it
* `readItems_separated`: a list is read back if each of its items is
* `isOperand_object`, `isOperand_named`, `reads_function`: types with lists in them are read back
-/

namespace TypedClient.TypeScript

open Text
open TypeForm (ofMembers keyofFirst)

/-- A reader of the beginning of a text, with what comes after it. -/
abbrev Reader (α : Type) :=
  List Char → Option (α × List Char)

/-- Items with a separator between each two, up to what closes them. -/
def readItems {α : Type} (read : Reader α) (separator close : String) : Nat → Reader (List α)
  | 0, _ => none
  | n + 1, s =>
    (read s).bind fun r =>
      match r.2.dropPrefix? separator.toList with
      | some s => (readItems read separator close n s).map (Prod.map (r.1 :: ·) id)
      | none => (r.2.dropPrefix? close.toList).map ([r.1], ·)

/-- A type by a reader of its members. -/
def readOne (read : Reader (List TypeForm)) : Reader TypeForm :=
  fun s => (read s).map (Prod.map ofMembers id)

/-- A member of an object type, by a reader of its type. -/
def readMember (read : Reader TypeForm) : Reader (Property TypeForm) :=
  fun s => (readKey s).bind fun key =>
    match readMark key.2 with
    | (optional, ':' :: ' ' :: s) =>
      (read s).map (Prod.map (⟨String.ofList key.1, ·, optional⟩) id)
    | _ => none

/-- A parameter, by a reader of its type. -/
def readParam (read : Reader TypeForm) : Reader (Param TypeForm) :=
  fun s => (Identifier.readName s).bind fun name =>
    match readMark name.2 with
    | (optional, ':' :: ' ' :: s) =>
      (read s).map (Prod.map (⟨String.ofList name.1, some ·, optional⟩) id)
    | (optional, s) => some (⟨String.ofList name.1, none, optional⟩, s)

/-- A type parameter, by a reader of its bound. -/
def readTypeParam (read : Reader TypeForm) : Reader (TypeParam TypeForm) :=
  fun s => (Identifier.readName s).bind fun name =>
    match name.2.dropPrefix? " extends ".toList with
    | some s => (read s).map (Prod.map (⟨String.ofList name.1, some ·⟩) id)
    | none => some (⟨String.ofList name.1, none⟩, name.2)

/-- Parameters up to the arrow after them, by a reader of their types. -/
def readParams (read : Reader TypeForm) (n : Nat) : Reader (List (Param TypeForm)) :=
  fun s =>
    match s.dropPrefix? ") => ".toList with
    | some s => some ([], s)
    | none => readItems (readParam read) ", " ") => " n s

/-- A function type after its type parameters. The result takes in all that follows. -/
def readSignature (read : Reader (List TypeForm)) (typeParams : List (TypeParam TypeForm))
    (n : Nat) : Reader (List TypeForm) :=
  fun s =>
    (readParams (readOne read) n s).bind fun r =>
      (read r.2).map (Prod.map (fun vs => [.function typeParams r.1 (ofMembers vs)]) id)

/-- The marks that come after the name of a parameter, and not after a name in a type in
parentheses. -/
def paramMarks : List Char :=
  [')', ',', '?', ':']

/-- Whether parameters follow an opening parenthesis: one of their marks comes after a name, or
there are none and the parenthesis is closed. -/
def startsParams (s : List Char) : Bool :=
  (s.dropWhile Identifier.isPart).head?.any paramMarks.contains

/-- The characters of keywords, names and numerals. -/
def isFormChar (c : Char) : Bool :=
  Identifier.isPart c || c == '.' || c == '-'

/-- The words with a form of their own. -/
def wordForms : List (String × TypeForm) :=
  ([.string, .number, .boolean, .undefined, .void, .never, .any].map fun k : Primitive =>
      (k.print, .primitive k))
    ++ [("true", .bool true), ("false", .bool false), ("null", .null)]

/-- The form that a word says. -/
def wordForm (word : String) : TypeForm :=
  (wordForms.lookup word).getD (if Identifier.isValid word then .named word [] else .numeral word)

/-- What comes after a word: arguments, an operand to take the keys of, or neither. -/
def readAfterWord (read : Reader (List TypeForm))
    (readTail : TypeForm → Reader (List TypeForm)) (n : Nat) (word : String) :
    Reader (List TypeForm)
  | '<' :: s =>
    (readItems (readOne read) ", " ">" n s).bind fun r => readTail (.named word r.1) r.2
  | s =>
    if word = "keyof" then (read s.tail).map (Prod.map keyofFirst id)
    else readTail (wordForm word) s

mutual

/-- The members of a type, and what comes after them. -/
def readMembers : Nat → List Char → Option (List TypeForm × List Char)
  | 0, _ => none
  | n + 1, '"' :: s =>
    (readQuoted s).bind fun r => readTail n (.string (String.ofList r.1)) r.2
  | n + 1, '\x7b' :: '\x7d' :: s => readTail n (.object []) s
  | n + 1, '\x7b' :: ' ' :: s =>
    (readItems (readMember (readOne (readMembers n))) "; " " \x7d" n s).bind fun r =>
      readTail n (.object r.1) r.2
  | n + 1, '<' :: s =>
    (readItems (readTypeParam (readOne (readMembers n))) ", " ">(" n s).bind fun r =>
      readSignature (readMembers n) r.1 n r.2
  | n + 1, '(' :: s =>
    if startsParams s then readSignature (readMembers n) [] n s
    else (readMembers n s).bind fun r =>
      match r.2 with
      | ')' :: s => readTail n (ofMembers r.1) s
      | _ => none
  | n + 1, s =>
    let word := s.takeWhile isFormChar
    if word.isEmpty then none
    else readAfterWord (readMembers n) (readTail n) n (String.ofList word) (s.dropWhile isFormChar)

/-- The suffixes of an operand and the members after it, and what comes after them. -/
def readTail : Nat → TypeForm → List Char → Option (List TypeForm × List Char)
  | 0, _, _ => none
  | n + 1, v, '[' :: ']' :: s => readTail n (.array v) s
  | n + 1, v, '[' :: s =>
    (readOne (readMembers n) s).bind fun r =>
      match r.2 with
      | ']' :: s => readTail n (.indexed v r.1) s
      | _ => none
  | n + 1, v, ' ' :: '|' :: ' ' :: s => (readMembers n s).map (Prod.map (v :: ·) id)
  | _ + 1, v, s => some ([v], s)

end

/-! ## What may follow -/

/-- A text at the beginning of which a type ends. -/
inductive EndsForm : List Char → Prop
  | nil : EndsForm []
  | brace (s : List Char) : EndsForm (' ' :: '}' :: s)
  | mark {c : Char} (hc : c ∈ [';', ')', ',', '>', ']']) (s : List Char) : EndsForm (c :: s)

/-- A text at the beginning of which no word goes on. -/
def Stops (s : List Char) : Prop :=
  ∀ c ∈ s.head?, isFormChar c = false ∧ c ≠ '<'

theorem stops_cons {c : Char} (h : c ∈ [' ', '[', ';', ')', ',', '>', ']']) (s : List Char) :
    Stops (c :: s) := by
  have hall : [' ', '[', ';', ')', ',', '>', ']'].all fun d => !isFormChar d && d != '<' := by
    decide
  intro d hd
  obtain rfl := Option.some.inj hd
  simpa using List.all_eq_true.mp hall c h

theorem EndsForm.stops {s : List Char} (h : EndsForm s) : Stops s := by
  cases h with
  | nil => exact fun c hc => nomatch hc
  | brace s => exact stops_cons (by simp) _
  | mark hc s => exact stops_cons (List.mem_cons_of_mem _ (List.mem_cons_of_mem _ hc)) s

theorem EndsForm.head?_ne {s : List Char} (h : EndsForm s) {c : Char}
    (hc : c ∉ [' ', ';', ')', ',', '>', ']']) : s.head? ≠ some c := by
  rintro he
  cases h with
  | nil => cases he
  | brace s =>
    obtain rfl := Option.some.inj he
    exact hc List.mem_cons_self
  | mark hd s =>
    obtain rfl := Option.some.inj he
    exact hc (List.mem_cons_of_mem _ hd)

theorem Stops.isPart {s : List Char} (h : Stops s) :
    ∀ c ∈ s.head?, Identifier.isPart c = false := by
  intro c hc
  have hform := (h c hc).1
  rw [isFormChar, Bool.or_eq_false_iff, Bool.or_eq_false_iff] at hform
  exact hform.1.1

theorem EndsForm.readTail {s : List Char} (h : EndsForm s) (n : Nat) (v : TypeForm) :
    readTail (n + 1) v s = some ([v], s) := by
  cases h with
  | nil => rfl
  | brace s => rfl
  | mark hc s =>
    simp only [List.mem_cons, List.not_mem_nil, or_false] at hc
    rcases hc with rfl | rfl | rfl | rfl | rfl <;> rfl

/-- A reader reads a text back, up to where a type ends. -/
def ReadsBack {α : Type} (read : Reader α) (text : List Char) (a : α) : Prop :=
  ∀ rest, EndsForm rest → read (text ++ rest) = some (a, rest)

/-- The members of a type are read back. -/
def Reads (text : List Char) (vs : List TypeForm) : Prop :=
  ∀ n, text.length < n → ReadsBack (readMembers n) text vs

/-- What follows an operand is read back: its suffixes and the members after it. -/
structure ReadsTail (text : List Char) (suffixes : List Suffix) (others : List TypeForm) :
    Prop where
  head : ∀ c ∈ text.head?, c = '[' ∨ c = ' '
  read : ∀ n, text.length < n → ∀ v, ReadsBack (readTail n v) text (suffixed suffixes v :: others)

/-- The text of an operand without suffixes. -/
structure IsOperand (text : List Char) (v : TypeForm) : Prop where
  ne_nil : text ≠ []
  read : ∀ n, text.length ≤ n → ∀ s, Stops s → readMembers (n + 1) (text ++ s) = readTail n v s

section Steps

variable {text tail : List Char} {vs others : List TypeForm} {suffixes : List Suffix}
  {v : TypeForm}

theorem Reads.readOne (h : Reads text vs) {n : Nat} (hn : text.length < n) :
    ReadsBack (readOne (readMembers n)) text (ofMembers vs) := by
  intro rest hrest
  rw [TypeScript.readOne, h n hn rest hrest]
  rfl

theorem ReadsTail.stops (h : ReadsTail tail suffixes others) {rest : List Char}
    (hrest : EndsForm rest) : Stops (tail ++ rest) := by
  cases tail with
  | nil => exact hrest.stops
  | cons c tail =>
    rcases h.head c rfl with rfl | rfl
    · exact stops_cons (by simp) _
    · exact stops_cons (by simp) _

theorem readsTail_nil : ReadsTail [] [] [] where
  head := fun c hc => nomatch hc
  read n hn v rest hrest := by
    obtain ⟨n, rfl⟩ : ∃ m, n = m + 1 := ⟨n - 1, by simp at hn; omega⟩
    exact hrest.readTail n v

theorem ReadsTail.array (h : ReadsTail tail suffixes others) :
    ReadsTail ('[' :: ']' :: tail) (.array :: suffixes) others where
  head := fun c hc => .inl (Option.some.inj hc).symm
  read n hn v rest hrest := by
    simp only [List.length_cons] at hn
    obtain ⟨n, rfl⟩ : ∃ m, n = m + 1 := ⟨n - 1, by omega⟩
    rw [List.cons_append, List.cons_append, readTail, h.read n (by omega) _ rest hrest]
    rfl

/-- No type begins with a closing bracket. -/
theorem readMembers_bracket (n : Nat) (s : List Char) : readMembers n (']' :: s) = none := by
  cases n <;> rfl

theorem ReadsTail.index (h : ReadsTail tail suffixes others) (hindex : Reads text vs) :
    ReadsTail ('[' :: (text ++ ']' :: tail)) (.index (ofMembers vs) :: suffixes) others where
  head := fun c hc => .inl (Option.some.inj hc).symm
  read n hn v rest hrest := by
    simp only [List.length_cons, List.length_append] at hn
    obtain ⟨n, rfl⟩ : ∃ m, n = m + 1 := ⟨n - 1, by omega⟩
    have hread := hindex.readOne (n := n) (by omega) (']' :: (tail ++ rest)) (.mark (by simp) _)
    have htext : '[' :: (text ++ ']' :: tail) ++ rest = '[' :: (text ++ ']' :: (tail ++ rest)) := by
      simp
    rw [htext, readTail]
    · rw [hread, Option.bind_some]
      exact h.read n (by omega) _ rest hrest
    · -- an index is not empty, so the brackets are not those of an array
      intro s hs
      rw [hs, TypeScript.readOne, readMembers_bracket] at hread
      cases hread

/-- The members after an operand. -/
theorem Reads.readsTail (h : Reads text vs) : ReadsTail (' ' :: '|' :: ' ' :: text) [] vs where
  head := fun c hc => .inr (Option.some.inj hc).symm
  read n hn v rest hrest := by
    simp only [List.length_cons] at hn
    obtain ⟨n, rfl⟩ : ∃ m, n = m + 1 := ⟨n - 1, by omega⟩
    rw [List.cons_append, List.cons_append, List.cons_append, readTail,
      h n (by omega) rest hrest]
    rfl

/-- **An operand is read back with what follows it.** -/
theorem IsOperand.reads (h : IsOperand text v) (htail : ReadsTail tail suffixes others) :
    Reads (text ++ tail) (suffixed suffixes v :: others) := by
  intro n hn rest hrest
  have hpos := List.length_pos_of_ne_nil h.ne_nil
  rw [List.length_append] at hn
  obtain ⟨n, rfl⟩ : ∃ m, n = m + 1 := ⟨n - 1, by omega⟩
  rw [List.append_assoc, h.read n (by omega) _ (htail.stops hrest)]
  exact htail.read n (by omega) v rest hrest

theorem isOperand_parenthesized (h : Reads text vs)
    (hparams : ∀ s, startsParams (text ++ ')' :: s) = false) :
    IsOperand ('(' :: (text ++ [')'])) (ofMembers vs) where
  ne_nil := List.cons_ne_nil _ _
  read n hn s _ := by
    simp only [List.length_cons, List.length_append, List.length_nil] at hn
    have htext : '(' :: (text ++ [')']) ++ s = '(' :: (text ++ ')' :: s) := by simp
    rw [htext, readMembers, hparams, if_neg (by simp), h n (by omega) _ (.mark (by simp) s)]
    rfl

theorem isOperand_quoted (text : String) : IsOperand (quoted text).toList (.string text) where
  ne_nil := by simp [quoted]
  read n _ s _ := by
    have htext : (quoted text).toList ++ s = '"' :: (escapeQuoted text.toList ++ '"' :: s) := by
      simp [quoted]
    rw [htext, readMembers, readQuoted_escapeQuoted, Option.bind_some, String.ofList_toList]

theorem readMembers_word (word : String) (hne : word.toList ≠ [])
    (hword : ∀ c ∈ word.toList, isFormChar c) (n : Nat) {s : List Char}
    (hs : ∀ c ∈ s.head?, isFormChar c = false) :
    readMembers (n + 1) (word.toList ++ s) =
      readAfterWord (readMembers n) (readTail n) n word s := by
  obtain ⟨c, cs, hcs⟩ := List.exists_cons_of_ne_nil hne
  have hc : isFormChar c := hword c (by simp [hcs])
  have htake := takeWhile_append hword hs
  have hdrop := dropWhile_append hword hs
  have hempty : word.toList.isEmpty = false := by simpa using hne
  rw [hcs] at htake hdrop ⊢
  rw [List.cons_append] at htake hdrop ⊢
  rw [readMembers]
  · simp only [htake, hdrop]
    rw [← hcs, hempty, String.ofList_toList, if_neg (by simp)]
  -- no other type begins with a character of a word
  all_goals
    intro t ht
    obtain rfl := (List.cons.inj ht).1
    exact absurd hc (by decide)

/-- A word that is no operator. -/
theorem isOperand_word {word : String} (hne : word.toList ≠ [])
    (hword : ∀ c ∈ word.toList, isFormChar c) (hkeyof : word ≠ "keyof") :
    IsOperand word.toList (wordForm word) where
  ne_nil := hne
  read n _ s hs := by
    rw [readMembers_word word hne hword n fun c hc => (hs c hc).1, readAfterWord, if_neg hkeyof]
    rintro t rfl
    exact (hs '<' rfl).2 rfl

theorem Reads.keyof (h : Reads text vs) :
    Reads ("keyof ".toList ++ text) (keyofFirst vs) := by
  intro n hn rest hrest
  obtain ⟨n, rfl⟩ : ∃ m, n = m + 1 := ⟨n - 1, by omega⟩
  have hlen : "keyof ".toList.length = 6 := by decide
  rw [List.length_append] at hn
  have htext : "keyof ".toList ++ text ++ rest = "keyof".toList ++ ' ' :: (text ++ rest) := rfl
  have hword := readMembers_word "keyof" (by decide) (List.all_eq_true.mp (by decide)) n
    (s := ' ' :: (text ++ rest)) (fun c hc => (stops_cons (by simp) _ c hc).1)
  rw [htext, hword, readAfterWord, if_pos rfl, List.tail_cons, h n (by omega) rest hrest]
  · rfl
  · exact fun t ht => nomatch ht

end Steps

/-! ## Lists -/

/-- A separator and a closing text at which types end, and that are not confused. -/
structure Separates (separator close : String) : Prop where
  separator_ends : ∀ s, EndsForm (separator.toList ++ s)
  close_ends : ∀ s, EndsForm (close.toList ++ s)
  distinct : ∀ s, (close.toList ++ s).dropPrefix? separator.toList = none

theorem separates_properties : Separates "; " " \x7d" :=
  ⟨fun _ => .mark (c := ';') (by simp) _, fun s => .brace s, fun _ => rfl⟩

theorem separates_arguments : Separates ", " ">" :=
  ⟨fun _ => .mark (c := ',') (by simp) _, fun _ => .mark (c := '>') (by simp) _, fun _ => rfl⟩

theorem separates_typeParams : Separates ", " ">(" :=
  ⟨fun _ => .mark (c := ',') (by simp) _, fun _ => .mark (c := '>') (by simp) _, fun _ => rfl⟩

theorem separates_params : Separates ", " ") => " :=
  ⟨fun _ => .mark (c := ',') (by simp) _, fun _ => .mark (c := ')') (by simp) _, fun _ => rfl⟩

theorem dropPrefix?_append (p s : List Char) : (p ++ s).dropPrefix? p = some s :=
  List.dropPrefix?_append_of_beq s (beq_self_eq_true p)

/-- **Items are read back** if each of them is. -/
theorem readItems_separated {α β : Type} {read : Reader α} {separator close : String}
    (hseparates : Separates separator close) {text : β → String} {value : β → α} {xs : List β}
    (hne : xs ≠ []) (h : ∀ x ∈ xs, ReadsBack read (text x).toList (value x)) {n : Nat}
    (hn : xs.length ≤ n) (rest : List Char) :
    readItems read separator close n
        ((separated separator (xs.map text)).toList ++ (close.toList ++ rest)) =
      some (xs.map value, rest) := by
  induction xs generalizing n with
  | nil => exact absurd rfl hne
  | cons x xs ih =>
    obtain ⟨n, rfl⟩ : ∃ m, n = m + 1 := ⟨n - 1, by simp at hn; omega⟩
    obtain ⟨hx, hxs⟩ := List.forall_mem_cons.mp h
    obtain _ | ⟨y, ys⟩ := xs
    · -- the last item ends at the closing text, which is not taken for a separator
      rw [List.map_singleton, separated_singleton, readItems, hx _ (hseparates.close_ends rest),
        Option.bind_some]
      simp only [hseparates.distinct, dropPrefix?_append, Option.map_some]
      rfl
    · -- another item ends at a separator, and the induction reads on behind it
      have hrest := ih (List.cons_ne_nil y ys) hxs (n := n) (Nat.le_of_succ_le_succ hn)
      rw [List.map_cons, List.map_cons, toList_separated_cons, List.append_assoc,
        List.append_assoc, readItems, hx _ (hseparates.separator_ends _), Option.bind_some]
      rw [List.map_cons] at hrest
      simp only [dropPrefix?_append, hrest]
      rfl

/-- What comes first in a list comes first in its text. -/
theorem exists_toList_separated (separator text : String) (texts : List String) :
    ∃ more, (separated separator (text :: texts)).toList = text.toList ++ more ∧
      (more = [] ∨ ∃ s, more = separator.toList ++ s) := by
  cases texts with
  | nil => exact ⟨[], by simp, .inl rfl⟩
  | cons next texts => exact ⟨_, toList_separated_cons separator text next texts, .inr ⟨_, rfl⟩⟩

/-- The separators and the items are in the text. -/
theorem length_separated {separator : String} (hne : 0 < separator.toList.length)
    (texts : List String) :
    texts.length ≤ (separated separator texts).toList.length + 1 ∧
      ∀ text ∈ texts, text.toList.length ≤ (separated separator texts).toList.length := by
  induction texts with
  | nil => simp
  | cons text texts ih =>
    obtain _ | ⟨next, texts⟩ := texts
    · simp
    · obtain ⟨hlen, hall⟩ := ih
      rw [toList_separated_cons]
      simp only [List.length_append, List.length_cons] at hlen ⊢
      refine ⟨by omega, List.forall_mem_cons.mpr ⟨by omega, fun t ht => ?_⟩⟩
      have := hall t ht
      omega

theorem Separates.length_pos {separator close : String} (h : Separates separator close) :
    0 < separator.toList.length := by
  by_contra hzero
  have hnil : separator.toList = [] := List.length_eq_zero_iff.mp (by omega)
  have hdistinct := h.distinct []
  rw [hnil, List.dropPrefix?_nil] at hdistinct
  cases hdistinct

/-- Items are read back if each of them is, with as many steps as their text is long. -/
theorem readItems_of_length {α β : Type} {read : Reader α} {separator close : String}
    (hseparates : Separates separator close) {text : β → String} {value : β → α} {xs : List β}
    (hne : xs ≠ []) {n : Nat} (hn : (separated separator (xs.map text)).toList.length < n)
    (h : ∀ x ∈ xs, (text x).toList.length < n → ReadsBack read (text x).toList (value x))
    (rest : List Char) :
    readItems read separator close n
        ((separated separator (xs.map text)).toList ++ (close.toList ++ rest)) =
      some (xs.map value, rest) := by
  obtain ⟨hlen, hall⟩ := length_separated hseparates.length_pos (xs.map text)
  rw [List.length_map] at hlen
  refine readItems_separated hseparates hne (fun x hx => h x hx ?_) (by omega) rest
  exact Nat.lt_of_le_of_lt (hall _ (List.mem_map_of_mem hx)) hn

section Items

variable {read : Reader TypeForm}

/-- A mark is read back if no other mark follows it. -/
theorem readMark_optionalMark (optional : Bool) {s : List Char} (hs : s.head? ≠ some '?') :
    readMark ((optionalMark optional).toList ++ s) = (optional, s) := by
  cases optional with
  | true => rfl
  | false =>
    have htext : (optionalMark false).toList ++ s = s := rfl
    rw [htext, readMark]
    rintro t rfl
    exact hs rfl

/-- A name ends at a mark. -/
theorem isPart_head?_optionalMark (optional : Bool) {s : List Char}
    (hs : ∀ c ∈ s.head?, Identifier.isPart c = false) :
    ∀ c ∈ ((optionalMark optional).toList ++ s).head?, Identifier.isPart c = false := by
  cases optional with
  | false => exact hs
  | true =>
    intro c hc
    obtain rfl := Option.some.inj hc
    decide

/-- A name ends at a colon. -/
theorem isPart_head?_colon (s : List Char) :
    ∀ c ∈ (':' :: s).head?, Identifier.isPart c = false := by
  intro c hc
  obtain rfl := Option.some.inj hc
  decide

theorem readsBack_member (p : Property TypeExpr) {v : TypeForm}
    (h : ReadsBack read p.type.print.toList v) :
    ReadsBack (readMember read) (TypeExpr.printProperty p).toList ⟨p.name, v, p.optional⟩ := by
  obtain ⟨name, type, optional⟩ := p
  intro rest hrest
  have htext : (TypeExpr.printProperty ⟨name, type, optional⟩).toList ++ rest =
      (keyText name).toList ++ ((optionalMark optional).toList ++
        ':' :: ' ' :: (type.print.toList ++ rest)) := by
    simp [TypeExpr.printProperty]
  have hkey := readKey_keyText name (isPart_head?_optionalMark optional
    (isPart_head?_colon (' ' :: (type.print.toList ++ rest))))
  have hmark : readMark ((optionalMark optional).toList ++
      ':' :: ' ' :: (type.print.toList ++ rest)) =
        (optional, ':' :: ' ' :: (type.print.toList ++ rest)) :=
    readMark_optionalMark optional (by simp)
  rw [htext, readMember, hkey, Option.bind_some]
  simp only [hmark, h rest hrest, Option.map_some, Prod.map_apply, id_eq, String.ofList_toList]

theorem readsBack_param (p : Param TypeExpr) (hname : Identifier.isValid p.name)
    {f : TypeExpr → TypeForm} (h : ∀ t ∈ p.type, ReadsBack read t.print.toList (f t)) :
    ReadsBack (readParam read) (TypeExpr.printParam p).toList
      ⟨p.name, p.type.map f, p.optional⟩ := by
  obtain ⟨name, type, optional⟩ := p
  intro rest hrest
  cases type with
  | none =>
    have htext : (TypeExpr.printParam ⟨name, none, optional⟩).toList ++ rest =
        name.toList ++ ((optionalMark optional).toList ++ rest) := by
      simp [TypeExpr.printParam, TypeExpr.printOptional]
    have hread := Identifier.readName_append hname
      (isPart_head?_optionalMark optional hrest.stops.isPart)
    have hmark : readMark ((optionalMark optional).toList ++ rest) = (optional, rest) :=
      readMark_optionalMark optional (hrest.head?_ne (by decide))
    have hcolon : rest.head? ≠ some ':' := hrest.head?_ne (by decide)
    rw [htext, readParam, hread, Option.bind_some]
    simp only [hmark, String.ofList_toList]
    split
    · next he =>
      rw [(Prod.mk.inj he).2] at hcolon
      exact absurd rfl hcolon
    · next he =>
      obtain ⟨rfl, rfl⟩ := Prod.mk.inj he
      rfl
  | some t =>
    have htext : (TypeExpr.printParam ⟨name, some t, optional⟩).toList ++ rest =
        name.toList ++ ((optionalMark optional).toList ++
          ':' :: ' ' :: (t.print.toList ++ rest)) := by
      simp [TypeExpr.printParam, TypeExpr.printOptional]
    have hread := Identifier.readName_append hname (isPart_head?_optionalMark optional
      (isPart_head?_colon (' ' :: (t.print.toList ++ rest))))
    have hmark : readMark ((optionalMark optional).toList ++
        ':' :: ' ' :: (t.print.toList ++ rest)) =
          (optional, ':' :: ' ' :: (t.print.toList ++ rest)) :=
      readMark_optionalMark optional (by simp)
    rw [htext, readParam, hread, Option.bind_some]
    simp only [hmark, h t rfl rest hrest, Option.map_some, Prod.map_apply, id_eq,
      String.ofList_toList]

theorem readsBack_typeParam (p : TypeParam TypeExpr) (hname : Identifier.isValid p.name)
    {f : TypeExpr → TypeForm} (h : ∀ t ∈ p.bound, ReadsBack read t.print.toList (f t)) :
    ReadsBack (readTypeParam read) (TypeExpr.printTypeParam p).toList
      ⟨p.name, p.bound.map f⟩ := by
  obtain ⟨name, bound⟩ := p
  intro rest hrest
  cases bound with
  | none =>
    have htext : (TypeExpr.printTypeParam ⟨name, none⟩).toList ++ rest = name.toList ++ rest := by
      simp [TypeExpr.printTypeParam, TypeExpr.printOptional]
    have hread := Identifier.readName_append hname hrest.stops.isPart
    -- a type parameter without a bound ends where a type ends, so no bound is read
    have hbound : rest.dropPrefix? " extends ".toList = none := by
      cases hrest with
      | nil => rfl
      | brace s => rfl
      | mark hc s =>
        simp only [List.mem_cons, List.not_mem_nil, or_false] at hc
        rcases hc with rfl | rfl | rfl | rfl | rfl <;> rfl
    rw [htext, readTypeParam, hread, Option.bind_some]
    simp only [hbound, String.ofList_toList]
    rfl
  | some t =>
    have htext : (TypeExpr.printTypeParam ⟨name, some t⟩).toList ++ rest =
        name.toList ++ (" extends ".toList ++ (t.print.toList ++ rest)) := by
      simp [TypeExpr.printTypeParam, TypeExpr.printOptional]
    have hstops : Stops (" extends ".toList ++ (t.print.toList ++ rest)) :=
      stops_cons (c := ' ') (by simp) _
    rw [htext, readTypeParam, Identifier.readName_append hname hstops.isPart, Option.bind_some]
    simp only [dropPrefix?_append, h t rfl rest hrest, String.ofList_toList]
    rfl

end Items

/-! ## Operands with lists in them -/

section Operands

variable {tail text : List Char} {vs others : List TypeForm} {suffixes : List Suffix}
  {f : TypeExpr → List TypeForm}

theorem length_print_le_printProperty (p : Property TypeExpr) :
    p.type.print.toList.length ≤ (TypeExpr.printProperty p).toList.length := by
  obtain ⟨name, type, optional⟩ := p
  simp [TypeExpr.printProperty]
  omega

theorem length_print_le_printTypeParam (p : TypeParam TypeExpr) :
    ∀ t ∈ p.bound, t.print.toList.length ≤ (TypeExpr.printTypeParam p).toList.length := by
  rintro t ht
  obtain ⟨name, bound⟩ := p
  obtain rfl : bound = some t := ht
  simp [TypeExpr.printTypeParam, TypeExpr.printOptional]
  omega

theorem length_print_le_printParam (p : Param TypeExpr) :
    ∀ t ∈ p.type, t.print.toList.length ≤ (TypeExpr.printParam p).toList.length := by
  rintro t ht
  obtain ⟨name, type, optional⟩ := p
  obtain rfl : type = some t := ht
  simp [TypeExpr.printParam, TypeExpr.printOptional]
  omega

theorem isOperand_object (properties : List (Property TypeExpr))
    (h : ∀ p ∈ properties, Reads p.type.print.toList (f p.type)) :
    IsOperand (TypeExpr.object properties).print.toList
      (.object (properties.map fun p => ⟨p.name, ofMembers (f p.type), p.optional⟩)) := by
  obtain _ | ⟨p, ps⟩ := properties
  · rw [TypeExpr.print]
    exact ⟨by simp, fun n _ s _ => rfl⟩
  · have htext : (TypeExpr.object (p :: ps)).print.toList =
        '\x7b' :: ' ' :: ((separated "; " ((p :: ps).map TypeExpr.printProperty)).toList ++
          " \x7d".toList) := by
      simp [TypeExpr.print, TypeExpr.printProperties_eq]
    rw [htext]
    refine ⟨List.cons_ne_nil _ _, fun n hn s _ => ?_⟩
    simp only [List.length_cons, List.length_append] at hn
    have hitems := readItems_of_length separates_properties (List.cons_ne_nil p ps)
      (show _ < n by omega) (fun q hq hlen => readsBack_member q ((h q hq).readOne
        (Nat.lt_of_le_of_lt (length_print_le_printProperty q) hlen))) s
    rw [List.cons_append, List.cons_append, List.append_assoc, readMembers, hitems]
    rfl

theorem isOperand_named {name : String} (hname : Identifier.isValid name)
    {arguments : List TypeExpr} (hne : arguments ≠ [])
    (h : ∀ t ∈ arguments, Reads t.print.toList (f t)) :
    IsOperand (TypeExpr.named name arguments).print.toList
      (.named name (arguments.map fun t => ofMembers (f t))) := by
  have htext : (TypeExpr.named name arguments).print.toList =
      name.toList ++ '<' :: ((separated ", " (arguments.map TypeExpr.print)).toList ++
        ">".toList) := by
    simp [TypeExpr.print, TypeExpr.printAll_eq, enclosedIf, hne]
  have hnonempty : name.toList ≠ [] := by
    intro h
    rw [Identifier.isValid, h] at hname
    cases hname
  have hword : ∀ c ∈ name.toList, isFormChar c := fun c hc => by
    simp [isFormChar, Identifier.isPart_of_isName hname c hc]
  rw [htext]
  refine ⟨by simp, fun n hn s _ => ?_⟩
  simp only [List.length_cons, List.length_append] at hn
  have hitems := readItems_of_length separates_arguments hne
    (show _ < n by omega) (fun t ht hlen => (h t ht).readOne hlen) s
  have hangle : ∀ c ∈ ('<' :: ((separated ", " (arguments.map TypeExpr.print)).toList ++
      (">".toList ++ s))).head?, isFormChar c = false := by
    intro c hc
    obtain rfl := Option.some.inj hc
    decide
  rw [List.append_assoc, List.cons_append, List.append_assoc,
    readMembers_word name hnonempty hword n hangle, readAfterWord, hitems]
  rfl

/-- A parameter begins with a name, and a mark that no type has after its name comes next. -/
theorem startsParams_printParam (p : Param TypeExpr) (hname : Identifier.isValid p.name)
    {c : Char} (hc : c = ',' ∨ c = ')') (s : List Char) :
    startsParams ((TypeExpr.printParam p).toList ++ c :: s) := by
  obtain ⟨name, type, optional⟩ := p
  have htext : (TypeExpr.printParam ⟨name, type, optional⟩).toList ++ c :: s =
      name.toList ++ ((optionalMark optional).toList ++
        ((TypeExpr.printOptional ": " type).toList ++ c :: s)) := by
    simp [TypeExpr.printParam]
  -- the mark is that of an optional parameter, that of a type, or what comes after the parameter
  obtain ⟨d, ds, hds, hd⟩ : ∃ d ds, (optionalMark optional).toList ++
      ((TypeExpr.printOptional ": " type).toList ++ c :: s) = d :: ds ∧
        d ∈ paramMarks := by
    cases optional with
    | true => exact ⟨'?', _, rfl, by simp [paramMarks]⟩
    | false =>
      cases type with
      | none => exact ⟨c, s, rfl, by rcases hc with rfl | rfl <;> simp [paramMarks]⟩
      | some t =>
        exact ⟨':', _, by simp [optionalMark, TypeExpr.printOptional]; rfl, by simp [paramMarks]⟩
  have hpart : ∀ e ∈ (d :: ds).head?, Identifier.isPart e = false := by
    have hmarks : paramMarks.all (!Identifier.isPart ·) := by decide
    intro e he
    obtain rfl := Option.some.inj he
    simpa using List.all_eq_true.mp hmarks _ hd
  rw [htext, hds, startsParams,
    dropWhile_append (Identifier.isPart_of_isName hname) hpart]
  simpa using hd

theorem exists_printParam_eq_cons (p : Param TypeExpr) (hname : Identifier.isValid p.name) :
    ∃ c cs, (TypeExpr.printParam p).toList = c :: cs ∧ c ≠ ')' := by
  obtain ⟨name, type, optional⟩ := p
  rw [Identifier.isValid] at hname
  cases hcs : name.toList with
  | nil =>
    rw [hcs] at hname
    cases hname
  | cons c cs =>
    refine ⟨c, _, by simp [TypeExpr.printParam, hcs]; rfl, ?_⟩
    rintro rfl
    exact absurd (Identifier.isPart_of_isName hname ')' (by simp [hcs])) (by decide)

theorem readParams_print {params : List (Param TypeExpr)}
    (hnames : ∀ p ∈ params, Identifier.isValid p.name)
    (h : ∀ p ∈ params, ∀ t ∈ p.type, Reads t.print.toList (f t)) {n : Nat}
    (hn : (separated ", " (params.map TypeExpr.printParam)).toList.length < n) (s : List Char) :
    readParams (readOne (readMembers n)) n
        ((separated ", " (params.map TypeExpr.printParam)).toList ++ (") => ".toList ++ s)) =
      some (params.map fun p => ⟨p.name, p.type.map fun t => ofMembers (f t), p.optional⟩, s) := by
  obtain _ | ⟨p, ps⟩ := params
  · rw [readParams]
    simp only [List.map_nil, separated, String.intercalate_nil, String.toList_empty,
      List.nil_append, dropPrefix?_append]
  · have hitems := readItems_of_length separates_params (List.cons_ne_nil p ps) hn
      (fun q hq hlen => readsBack_param q (hnames q hq) fun t ht => (h q hq t ht).readOne
        (Nat.lt_of_le_of_lt (length_print_le_printParam q t ht) hlen)) s
    obtain ⟨c, cs, hcs, hc⟩ := exists_printParam_eq_cons p (hnames p List.mem_cons_self)
    -- the first parameter begins with a name, so there is an item to read
    have hnone : ((separated ", " ((p :: ps).map TypeExpr.printParam)).toList ++
        (") => ".toList ++ s)).dropPrefix? ") => ".toList = none := by
      obtain ⟨more, hmore, -⟩ := exists_toList_separated ", " (TypeExpr.printParam p)
        (ps.map TypeExpr.printParam)
      have harrow : ") => ".toList = [')', ' ', '=', '>', ' '] := by decide
      rw [List.map_cons, hmore, hcs, harrow, List.cons_append, List.cons_append,
        List.dropPrefix?, if_neg (by simpa using hc)]
    rw [readParams, hnone]
    exact hitems

theorem startsParams_print {params : List (Param TypeExpr)}
    (hnames : ∀ p ∈ params, Identifier.isValid p.name) (s : List Char) :
    startsParams ((separated ", " (params.map TypeExpr.printParam)).toList ++
      (") => ".toList ++ s)) := by
  obtain _ | ⟨p, ps⟩ := params
  · rfl
  · have hp {c : Char} (hc : c = ',' ∨ c = ')') (s : List Char) :=
      startsParams_printParam p (hnames p List.mem_cons_self) hc s
    obtain ⟨more, hmore, rfl | ⟨t, rfl⟩⟩ := exists_toList_separated ", " (TypeExpr.printParam p)
      (ps.map TypeExpr.printParam)
    · rw [List.map_cons, hmore, List.append_nil]
      exact hp (.inr rfl) _
    · rw [List.map_cons, hmore, List.append_assoc]
      exact hp (.inl rfl) _

theorem readSignature_print (typeParams : List (TypeParam TypeForm))
    {params : List (Param TypeExpr)} (hnames : ∀ p ∈ params, Identifier.isValid p.name)
    (h : ∀ p ∈ params, ∀ t ∈ p.type, Reads t.print.toList (f t)) (hresult : Reads text vs) {n : Nat}
    (hn : (separated ", " (params.map TypeExpr.printParam)).toList.length + text.length < n) :
    ReadsBack (readSignature (readMembers n) typeParams n)
      ((separated ", " (params.map TypeExpr.printParam)).toList ++ (") => ".toList ++ text))
      [.function typeParams
        (params.map fun p => ⟨p.name, p.type.map fun t => ofMembers (f t), p.optional⟩)
        (ofMembers vs)] := by
  intro rest hrest
  have hread := hresult n (by omega) rest hrest
  have hparams := readParams_print hnames h (show _ < n by omega) (text ++ rest)
  rw [List.append_assoc, List.append_assoc, readSignature, hparams, Option.bind_some]
  simp only [hread]
  rfl

theorem toList_print_function_nil (params : List (Param TypeExpr)) (result : TypeExpr) :
    (TypeExpr.function [] params result).print.toList =
      '(' :: ((separated ", " (params.map TypeExpr.printParam)).toList ++
        (") => ".toList ++ result.print.toList)) := by
  simp [TypeExpr.print, TypeExpr.printTypeParams, TypeExpr.printParams_eq, enclosedIf]

theorem toList_print_function_cons (p : TypeParam TypeExpr) (ps : List (TypeParam TypeExpr))
    (params : List (Param TypeExpr)) (result : TypeExpr) :
    (TypeExpr.function (p :: ps) params result).print.toList =
      '<' :: ((separated ", " ((p :: ps).map TypeExpr.printTypeParam)).toList ++ (">(".toList ++
        ((separated ", " (params.map TypeExpr.printParam)).toList ++
          (") => ".toList ++ result.print.toList)))) := by
  simp [TypeExpr.print, TypeExpr.printTypeParams_eq, TypeExpr.printParams_eq, enclosedIf]

/-- **A function type is read back**, with all that follows it taken into its result. -/
theorem reads_function {typeParams : List (TypeParam TypeExpr)} {params : List (Param TypeExpr)}
    {result : TypeExpr} (hbounds : ∀ p ∈ typeParams, Identifier.isValid p.name)
    (hnames : ∀ p ∈ params, Identifier.isValid p.name)
    (htypeParams : ∀ p ∈ typeParams, ∀ t ∈ p.bound, Reads t.print.toList (f t))
    (hparams : ∀ p ∈ params, ∀ t ∈ p.type, Reads t.print.toList (f t))
    (hresult : Reads (result.print.toList ++ tail) vs) :
    Reads ((TypeExpr.function typeParams params result).print.toList ++ tail)
      [.function (typeParams.map fun p => ⟨p.name, p.bound.map fun t => ofMembers (f t)⟩)
        (params.map fun p => ⟨p.name, p.type.map fun t => ofMembers (f t), p.optional⟩)
        (ofMembers vs)] := by
  intro n hn rest hrest
  obtain ⟨n, rfl⟩ : ∃ m, n = m + 1 := ⟨n - 1, by omega⟩
  obtain _ | ⟨p, ps⟩ := typeParams
  · rw [toList_print_function_nil, List.cons_append, List.append_assoc, List.append_assoc] at hn ⊢
    simp only [List.length_cons, List.length_append] at hn
    have hstarts := startsParams_print hnames (result.print.toList ++ tail ++ rest)
    rw [List.cons_append, readMembers, if_pos (by simpa using hstarts)]
    exact readSignature_print [] hnames hparams hresult
      (by simp only [List.length_append]; omega) rest hrest
  · rw [toList_print_function_cons, List.cons_append, List.append_assoc, List.append_assoc,
      List.append_assoc, List.append_assoc] at hn ⊢
    simp only [List.length_cons, List.length_append] at hn
    have hitems := readItems_of_length separates_typeParams (List.cons_ne_nil p ps)
      (show _ < n by omega) (fun q hq hlen => readsBack_typeParam q (hbounds q hq) fun t ht =>
        (htypeParams q hq t ht).readOne
          (Nat.lt_of_le_of_lt (length_print_le_printTypeParam q t ht) hlen))
    rw [List.cons_append, List.append_assoc, List.append_assoc, readMembers, hitems,
      Option.bind_some]
    exact readSignature_print _ hnames hparams hresult
      (by simp only [List.length_append]; omega) rest hrest

end Operands

end TypedClient.TypeScript
