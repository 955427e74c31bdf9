import TypedClient.Proofs.Text.Replaced
import TypedClient.Proofs.TypeScript.TypeText

/-!
# Written keys

A key of an object is written as it is when it is a name, and between double quotes otherwise. The
text between the quotes can be made by replacing four characters one after another, if the backslash
comes first: the backslashes that the other replacements put in are not replaced again. So a key
can be read off its text, and the closing quote can be found whatever comes after it.

## Main results

* `keyText_eq_self_iff`: the keys that are written as they are
* `keyText_determines_key`: a written key means one key only
-/

namespace TypedClient

namespace TypeScript

open Text

/-! ## Reading keys off their texts -/

variable {key : String}

theorem keyText_of_isValid (h : Identifier.isValid key) : keyText key = key :=
  if_pos h

theorem toList_keyText_of_not_isValid (h : ¬ Identifier.isValid key) :
    (keyText key).toList = '"' :: (escapeQuoted key.toList ++ ['"']) := by
  rw [keyText, if_neg h, quoted]
  simp only [String.toList_append, String.toList_ofList]
  rfl

/-- **The keys that are written as they are** are the names: quotes make every other key longer. -/
theorem keyText_eq_self_iff : keyText key = key ↔ Identifier.isValid key := by
  refine ⟨fun h => ?_, keyText_of_isValid⟩
  by_contra hvalid
  have hlength := (quotedBody_escapeQuoted key.toList).length_le
  have hkey := congrArg List.length (toList_keyText_of_not_isValid hvalid)
  rw [h, List.length_cons, List.length_append, List.length_singleton] at hkey
  omega

theorem keyText_injective : Function.Injective keyText := by
  have hread (key : String) : readKey ((keyText key).toList ++ []) = some (key.toList, []) :=
    readKey_keyText key nofun
  intro key other h
  have hsame := hread key
  rw [h, hread other] at hsame
  exact String.toList_injective (Prod.mk.inj (Option.some.inj hsame)).1.symm

/-- **A written key means one key only.** It is the key itself just when that is a name. Otherwise
it is a text between double quotes, made of the key by four replacements, in which no line break
stands, and a quote only behind a backslash it makes a pair with. Its pairs and characters, read from
left to right, give the key back. A reader that begins at the opening quote stops at the closing one
whatever comes after it. -/
theorem keyText_determines_key (key : String) :
    (keyText key = key ↔ Identifier.isValid key) ∧
      (Identifier.isValid key ∨ ∃ body : List Char,
        (keyText key).toList = '"' :: (body ++ ['"']) ∧
          body = replaceEach quotedReplacements key.toList ∧
          (∀ c ∈ body, c ≠ '\n' ∧ c ≠ '\r') ∧
          QuotedBody body key.toList ∧
          ∀ rest, readKey ((keyText key).toList ++ rest) = some (key.toList, rest)) ∧
      ∀ other, keyText other = keyText key ↔ other = key := by
  refine ⟨keyText_eq_self_iff, ?_, fun other => keyText_injective.eq_iff⟩
  by_cases hvalid : Identifier.isValid key
  · exact .inl hvalid
  have hbody := quotedBody_escapeQuoted key.toList
  have htext := toList_keyText_of_not_isValid hvalid
  refine .inr ⟨escapeQuoted key.toList, htext, escapeQuoted_eq_replaceEach _, fun c hc => ?_, hbody,
    fun rest => ?_⟩
  · have hbreak := hbody.lineBreak_notMem c hc
    rw [isLineBreak, Bool.or_eq_false_iff, beq_eq_false_iff_ne, beq_eq_false_iff_ne] at hbreak
    exact hbreak
  · rw [htext, List.cons_append, List.append_assoc]
    exact hbody.readQuoted_eq rest

/-- A backslash and a quote are each written with a backslash in front. -/
example : keyText "a\\\"" = "\"a\\\\\\\"\"" := by decide

end TypeScript

end TypedClient
