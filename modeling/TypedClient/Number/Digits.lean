/-!
# Digits of a base

Natural numbers written with digits of a base up to sixteen, with letters of either case
for the digits from ten on.

## Main definitions

* `Digits.digit?`: the value of a digit
* `Digits.value?`: the value of a text of digits
-/

namespace TypedClient.Digits

/-- The value of a digit of a base up to sixteen. -/
def digit? (base : Nat) (c : Char) : Option Nat :=
  let n :=
    if c.isDigit then c.toNat - '0'.toNat
    else if 'a' ≤ c ∧ c ≤ 'f' then c.toNat - 'a'.toNat + 10
    else if 'A' ≤ c ∧ c ≤ 'F' then c.toNat - 'A'.toNat + 10
    else base
  if n < base then some n else none

/-- The value of a text all of which has to be digits of the base, zero for the empty
text. -/
def value? (base : Nat) (cs : List Char) : Option Nat :=
  cs.foldlM (fun n c => (base * n + ·) <$> digit? base c) 0

@[simp]
theorem value?_nil (base : Nat) : value? base [] = some 0 := rfl

end TypedClient.Digits
