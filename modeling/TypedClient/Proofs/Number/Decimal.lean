import TypedClient.Number.Decimal

/-!
# The text of numbers

Which characters a printed number has.

## Main definitions

* `Decimal.isNumeralChar`: digits, the point and the minus sign
* `Decimal.IsNumeral`: the texts of numbers

## Main results

* `Decimal.isNumeralChar_text_finite`: a finite number is printed with those characters
* `Decimal.isNumeral_text`, `Decimal.isNumeral_integerText`: a printed number is such a text
-/

namespace TypedClient.Decimal

/-- The characters of a finite number. -/
def isNumeralChar (c : Char) : Bool :=
  c.isDigit || c == '.' || c == '-'

/-- The texts of numbers: digits with a point and a sign, and the words for the values that
are not finite. -/
inductive IsNumeral : List Char → Prop
  | finite {s : List Char} (hne : s ≠ []) (hs : ∀ c ∈ s, isNumeralChar c) : IsNumeral s
  | nan : IsNumeral "NaN".toList
  | infinite : IsNumeral "inf".toList
  | negativeInfinite : IsNumeral "-inf".toList

theorem isNumeralChar_of_mem_toDigits {n : Nat} {c : Char} (h : c ∈ Nat.toDigits 10 n) :
    isNumeralChar c := by
  simp [isNumeralChar, Nat.isDigit_of_mem_toDigits (by decide) (by decide) h]

theorem isNumeralChar_of_mem_replicate {n : Nat} {c : Char} (h : c ∈ List.replicate n '0') :
    isNumeralChar c := by
  rw [List.eq_of_mem_replicate h]
  decide

theorem positional_ne_nil (k : Nat) (j : Int) : positional k j ≠ [] := by
  unfold positional
  split
  · simp
  · dsimp only
    split <;> simp

theorem isNumeralChar_of_mem_positional {k : Nat} {j : Int} :
    ∀ c ∈ positional k j, isNumeralChar c := by
  intro c hc
  unfold positional at hc
  split at hc
  · rcases List.mem_append.mp hc with hc | hc
    · exact isNumeralChar_of_mem_toDigits hc
    · exact isNumeralChar_of_mem_replicate hc
  · dsimp only at hc
    split at hc
    · rcases List.mem_append.mp hc with hc | hc
      · exact isNumeralChar_of_mem_toDigits (List.mem_of_mem_take hc)
      · rcases List.mem_cons.mp hc with rfl | hc
        · decide
        · exact isNumeralChar_of_mem_toDigits (List.mem_of_mem_drop hc)
    · rcases List.mem_cons.mp hc with rfl | hc
      · decide
      · rcases List.mem_cons.mp hc with rfl | hc
        · decide
        · rcases List.mem_append.mp hc with hc | hc
          · exact isNumeralChar_of_mem_replicate hc
          · exact isNumeralChar_of_mem_toDigits hc

/-- A text of digits with a minus sign in front or without one. -/
theorem isNumeralChar_signed {s : List Char} (negative : Prop) [Decidable negative] (hne : s ≠ [])
    (hs : ∀ c ∈ s, isNumeralChar c) :
    (if negative then '-' :: s else s) ≠ [] ∧
      ∀ c ∈ if negative then '-' :: s else s, isNumeralChar c := by
  split
  · refine ⟨List.cons_ne_nil _ _, fun c hc => ?_⟩
    rcases List.mem_cons.mp hc with rfl | hc
    · decide
    · exact hs c hc
  · exact ⟨hne, hs⟩

theorem isNumeralChar_text_finite (negative : Bool) (significand : Nat) (exponent : Int) :
    (text (.finite negative significand exponent)).toList ≠ [] ∧
      ∀ c ∈ (text (.finite negative significand exponent)).toList, isNumeralChar c := by
  unfold text
  rw [String.toList_ofList]
  apply isNumeralChar_signed
  · split
    · simp
    · exact positional_ne_nil _ _
  · split
    · exact List.all_eq_true.mp (by decide)
    · exact isNumeralChar_of_mem_positional

theorem isNumeralChar_integerText (i : Int) :
    (integerText i).toList ≠ [] ∧ ∀ c ∈ (integerText i).toList, isNumeralChar c := by
  rw [integerText, String.toList_ofList]
  exact isNumeralChar_signed _ Nat.toDigits_ne_nil fun c hc => isNumeralChar_of_mem_toDigits hc

/-- **A printed number is a numeral.** -/
theorem isNumeral_text (value : Binary64) : IsNumeral (text value).toList := by
  match value with
  | .nan => exact .nan
  | .infinite false => exact .infinite
  | .infinite true => exact .negativeInfinite
  | .finite negative significand exponent =>
    obtain ⟨hne, hchars⟩ := isNumeralChar_text_finite negative significand exponent
    exact .finite hne hchars

/-- **A printed integer is a numeral.** -/
theorem isNumeral_integerText (i : Int) : IsNumeral (integerText i).toList := by
  obtain ⟨hne, hchars⟩ := isNumeralChar_integerText i
  exact .finite hne hchars

end TypedClient.Decimal
