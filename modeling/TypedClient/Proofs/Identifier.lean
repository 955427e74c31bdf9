import Mathlib.Data.List.Basic
import TypedClient.Identifier
import TypedClient.Proofs.Text.Split

/-!
# Laws of names

A name is read from the beginning of a text as far as its characters go. The name made from an
id is a name for every id, and the characters it is made from can be read off it, unless it was
completed with an underscore.

## Main definitions

* `Identifier.readName`: the longest name a text begins with
* `Identifier.letters`: the characters a name is made from

## Main results

* `Identifier.readName_append`: a name is read back if no character of a name follows it
* `Identifier.isName_append`: when a name with more characters behind it is a name
* `Identifier.isValid_ofIdWith`: the name made from an id is a name
* `Identifier.ofIdWith_eq_iff`: which ids make a given name
* `Identifier.isReserved_ofIdWith`, `Identifier.ofIdWith_eq_self`: no reserved word is made, and
  every other name is made from itself
* `Identifier.ofIdWith_fixes_exactly_names`: making names is idempotent
-/

namespace TypedClient.Identifier

theorem isPart_of_isStart {c : Char} (h : isStart c) : isPart c := by
  simp only [isStart, Bool.or_eq_true] at h
  simp only [isPart, Char.isAlphanum, Bool.or_eq_true]
  tauto

/-- A name consists of its characters only. -/
theorem isPart_of_isName {name : List Char} (h : isName name) : ∀ c ∈ name, isPart c := by
  cases name with
  | nil => simp
  | cons c cs =>
    obtain ⟨hc, hcs⟩ := Bool.and_eq_true_iff.mp h
    intro d hd
    rcases List.mem_cons.mp hd with rfl | hd
    · exact isPart_of_isStart hc
    · exact List.all_eq_true.mp hcs d hd

/-- A name stays a name just when all that is put behind it are characters of names. -/
theorem isName_append {name : List Char} (h : isName name) (more : List Char) :
    isName (name ++ more) = more.all isPart := by
  cases name with
  | nil => cases h
  | cons c cs =>
    obtain ⟨hc, hcs⟩ := Bool.and_eq_true_iff.mp h
    rw [List.cons_append, isName, hc, List.all_append, hcs, Bool.true_and, Bool.true_and]

/-! ## Reading names -/

/-- The longest name a text begins with, and what comes after it. -/
def readName (s : List Char) : Option (List Char × List Char) :=
  if isName (s.takeWhile isPart) then some (s.takeWhile isPart, s.dropWhile isPart) else none

/-- **A name is read back** if no character of a name follows it. -/
theorem readName_append {name rest : List Char} (h : isName name)
    (hrest : ∀ c ∈ rest.head?, isPart c = false) : readName (name ++ rest) = some (name, rest) := by
  have hpart := isPart_of_isName h
  rw [readName, Text.takeWhile_append hpart hrest, Text.dropWhile_append hpart hrest, if_pos h]

theorem length_readName {s : List Char} {r : List Char × List Char} (h : readName s = some r) :
    r.2.length ≤ s.length := by
  rw [readName] at h
  split at h
  · obtain rfl := Option.some.inj h
    exact (List.dropWhile_suffix isPart).length_le
  · cases h

/-! ## Names from ids -/

/-- The characters of an id that its name is made from, words capitalized. -/
def letters (upper : Char → List Char) (id : String) : List Char :=
  (joinWords upper id.toList).filter isPart

theorem ofIdWith_eq (upper : Char → List Char) (id : String) :
    ofIdWith upper id = String.ofList (complete (letters upper id)) := rfl

theorem isPart_of_mem_letters {upper : Char → List Char} {id : String} :
    ∀ c ∈ letters upper id, isPart c :=
  fun _ hc => (List.mem_filter.mp hc).2

/-- The characters of names that are no digits may begin one. -/
theorem isStart_of_isPart {c : Char} (h : isPart c) (hdigit : c.isDigit = false) : isStart c := by
  simp only [isPart, Char.isAlphanum, hdigit, Bool.or_false] at h
  exact h

theorem isDigit_of_isStart {c : Char} (h : isStart c) : c.isDigit = false := by
  simp only [isStart, Bool.or_eq_true, beq_iff_eq] at h
  rcases h with (halpha | rfl) | rfl
  · -- capitals and small letters are two ranges, both behind the digits
    have hletter : (decide ('A'.val ≤ c.val ∧ c.val ≤ 'Z'.val) ||
        (decide ('a'.val ≤ c.val) && decide (c.val ≤ 'z'.val))) = true := halpha
    simp only [Bool.or_eq_true, Bool.and_eq_true, decide_eq_true_eq,
      UInt32.le_iff_toNat_le] at hletter
    simp only [Char.isDigit, Bool.and_eq_false_iff, decide_eq_false_iff_not,
      UInt32.le_iff_toNat_le, ge_iff_le]
    have hcodes : '9'.val.toNat < 'A'.val.toNat ∧ 'A'.val.toNat ≤ 'a'.val.toNat := by decide
    omega
  · rfl
  · rfl

theorem isName_complete {cs : List Char} (h : ∀ c ∈ cs, isPart c) : isName (complete cs) := by
  unfold complete
  split
  · decide
  · next c cs =>
    split
    · -- the underscore begins the name, and everything may stand behind it
      rw [isName, List.all_eq_true.mpr h]
      rfl
    · next hc =>
      obtain ⟨hc', hcs⟩ := List.forall_mem_cons.mp h
      rw [Bool.not_eq_true, Bool.or_eq_false_iff] at hc
      exact Bool.and_eq_true_iff.mpr ⟨isStart_of_isPart hc' hc.1, List.all_eq_true.mpr hcs⟩

/-- **The name made from an id is a name**, whatever the upper-case forms of characters are. -/
theorem isValid_ofIdWith (upper : Char → List Char) (id : String) :
    isValid (ofIdWith upper id) := by
  rw [isValid, ofIdWith_eq, String.toList_ofList]
  exact isName_complete isPart_of_mem_letters

/-- A name that is not reserved needs no completion. -/
theorem complete_of_isName {name : List Char} (hname : isName name)
    (hreserved : isReserved (String.ofList name) = false) : complete name = name := by
  cases name with
  | nil => cases hname
  | cons c cs =>
    have hdigit := isDigit_of_isStart (Bool.and_eq_true_iff.mp hname).1
    have hkept : ¬ (c.isDigit || isReserved (String.ofList (c :: cs))) := by
      rw [hdigit, hreserved]
      simp
    exact if_neg hkept

/-- What was completed begins with an underscore, and every other name stays as it is. -/
theorem complete_eq_iff {cs name : List Char} (hname : isName name)
    (hreserved : isReserved (String.ofList name) = false) (hunderscore : name.head? ≠ some '_') :
    complete cs = name ↔ cs = name := by
  constructor
  · intro h
    unfold complete at h
    split at h
    · exact absurd (congrArg List.head? h).symm hunderscore
    · split at h
      · exact absurd (congrArg List.head? h).symm hunderscore
      · exact h
  · rintro rfl
    exact complete_of_isName hname hreserved

/-- **Which ids make a name** that is not reserved and does not begin with an underscore: those
with the characters of the name. -/
theorem ofIdWith_eq_iff {upper : Char → List Char} {id name : String} (hname : isValid name)
    (hreserved : isReserved name = false) (hunderscore : name.toList.head? ≠ some '_') :
    ofIdWith upper id = name ↔ letters upper id = name.toList := by
  rw [ofIdWith_eq, ← String.toList_inj, String.toList_ofList]
  exact complete_eq_iff hname (by rwa [String.ofList_toList]) hunderscore

/-! ## Names that stay as they are

The underscore in front of a reserved word makes no other reserved word, so completing a text once
is enough. A name has no separators and keeps all of its characters, so nothing is left to be done
when it is not reserved. -/

/-- No reserved word begins with an underscore. -/
theorem isReserved_underscore (cs : List Char) :
    isReserved (String.ofList ('_' :: cs)) = false := by
  have hnone : ∀ word ∈ reserved, word.toList.head? ≠ some '_' := by decide
  rw [isReserved, List.contains_eq_mem, decide_eq_false_iff_not]
  intro hmem
  exact hnone _ hmem (by rw [String.toList_ofList, List.head?_cons])

theorem isReserved_complete (cs : List Char) : isReserved (String.ofList (complete cs)) = false := by
  unfold complete
  split
  · decide
  · split
    · exact isReserved_underscore _
    · next hkept =>
      rw [Bool.not_eq_true, Bool.or_eq_false_iff] at hkept
      exact hkept.2

/-- **The name made from an id is no reserved word**, whatever the upper-case forms are. -/
theorem isReserved_ofIdWith (upper : Char → List Char) (id : String) :
    isReserved (ofIdWith upper id) = false :=
  isReserved_complete _

theorem isSeparator_of_isPart {c : Char} (h : isPart c) : isSeparator c = false := by
  rw [← Bool.not_eq_true, isSeparator]
  simp only [Bool.or_eq_true, beq_iff_eq]
  rintro (((rfl | rfl) | rfl) | rfl) <;> exact absurd h (by decide)

/-- A name is a single word, and the first word is not capitalized. -/
theorem joinWords_of_isName (upper : Char → List Char) {name : List Char} (h : isName name) :
    joinWords upper name = name := by
  have hne : name.isEmpty = false := by
    cases name with
    | nil => cases h
    | cons c cs => rfl
  have hwhole : Text.pieces isSeparator name = [name] :=
    Text.pieces_of_forall fun c hc => isSeparator_of_isPart (isPart_of_isName h c hc)
  rw [joinWords, hwhole, List.filter_singleton, hne]
  exact List.append_nil name

theorem letters_of_isValid (upper : Char → List Char) {name : String} (h : isValid name) :
    letters upper name = name.toList := by
  rw [letters, joinWords_of_isName upper h, List.filter_eq_self]
  exact isPart_of_isName h

/-- **A name that is not reserved is made from itself.** -/
theorem ofIdWith_eq_self (upper : Char → List Char) {name : String} (hname : isValid name)
    (hreserved : isReserved name = false) : ofIdWith upper name = name := by
  rw [ofIdWith_eq, letters_of_isValid upper hname,
    complete_of_isName hname (by rwa [String.ofList_toList]), String.ofList_toList]

/-- **Making names is idempotent.** Every id makes a name that is not reserved, and the ids that are
such names are exactly those that stay as they are. This does not depend on the upper-case forms of
characters, which may be several characters each, in ASCII or not. -/
theorem ofIdWith_fixes_exactly_names (upper : Char → List Char) (id : String) :
    isValid (ofIdWith upper id) ∧ isReserved (ofIdWith upper id) = false ∧
      (ofIdWith upper id = id ↔ isValid id ∧ isReserved id = false) ∧
      ofIdWith upper (ofIdWith upper id) = ofIdWith upper id := by
  have hname := isValid_ofIdWith upper id
  have hreserved := isReserved_ofIdWith upper id
  refine ⟨hname, hreserved, ⟨fun h => ?_, fun h => ofIdWith_eq_self upper h.1 h.2⟩,
    ofIdWith_eq_self upper hname hreserved⟩
  rw [h] at hname hreserved
  exact ⟨hname, hreserved⟩

end TypedClient.Identifier
