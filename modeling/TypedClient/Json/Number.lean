import TypedClient.Json.Value
import TypedClient.Literal
import TypedClient.Number.Decimal

/-!
# JSON numbers

An integer of 64 bits stays exact. Any other number becomes a binary64 number in two
steps: its leading digits, as far as they fit into 64 bits, are rounded, and the result
is multiplied or divided once by a rounded power of ten.

## Main definitions

* `Json.Numeral.toLiteral?`: the constant of a number, absent beyond the largest number
-/

namespace TypedClient.Json.Numeral

/-- The largest significand, of 64 bits. -/
def maxSignificand : Nat := Nat.pow 2 64 - 1

/-- The largest exponent, of 31 bits. -/
def maxExponent : Nat := Nat.pow 2 31 - 1

/-- A significand extended by digits as long as it does not exceed a bound, and the
digits that are left. -/
def extend (bound : Nat) (n : Nat) : List Char → Nat × List Char
  | [] => (n, [])
  | c :: cs =>
    let m := 10 * n + (c.toNat - '0'.toNat)
    if bound < m then (n, c :: cs) else extend bound m cs

/-- A number divided by the largest power of ten as long as its exponent is below all
powers of ten, at most `steps` times, with the exponent that is left. -/
def shrink : Nat → Binary64 → Int → Binary64 × Int
  | 0, x, e => (x, e)
  | steps + 1, x, e =>
    if e < -308 then shrink steps (x.div (.ofDecimal false 1 308)) (e + 308) else (x, e)

/-- The number `significand * 10 ^ exponent`, computed with roundings at each step;
absent if it is too large. -/
def scaled? (significand : Nat) (exponent : Int) : Option Binary64 :=
  if significand = 0 then some (.zero false)
  else if 308 < exponent then none
  else if 0 ≤ exponent then
    let x := (Binary64.ofNat significand).mul (.ofDecimal false 1 exponent)
    if x.isFinite then some x else none
  else
    let (x, e) := shrink 3 (.ofNat significand) exponent
    if e < -308 then some (.zero false) else some (x.div (.ofDecimal false 1 (-e)))

/-- The number of a numeral without its sign; absent if it is too large. -/
def magnitude? (significand : Nat) (dropped : Nat) (n : Numeral) : Option Binary64 :=
  let fraction := n.fraction.getD []
  let (digits, rest) := extend maxSignificand significand fraction
  let start : Int := dropped - (fraction.length - rest.length : Nat)
  match n.exponent with
  | none => scaled? digits start
  | some (negative, ds) =>
    -- an exponent beyond its bound decides the number by its sign alone
    match extend maxExponent 0 ds with
    | (e, []) => scaled? digits (if negative then start - e else start + e)
    | (_, _ :: _) => if digits = 0 || negative then some (.zero false) else none

/-- The constant of a number: an integer of 64 bits if it is written without a point and
an exponent, a binary64 number otherwise, absent beyond the largest one. Minus zero is
not an integer. -/
def toLiteral? (n : Numeral) : Option Literal :=
  let (significand, rest) := extend maxSignificand 0 n.whole
  let isInteger := rest.isEmpty && n.fraction.isNone && n.exponent.isNone
  if isInteger && !n.negative && significand < Nat.pow 2 63 then
    some (.integer significand)
  else if isInteger && n.negative && 0 < significand && significand ≤ Nat.pow 2 63 then
    some (.integer (-significand))
  else
    (magnitude? significand rest.length n).map fun x =>
      .number (if n.negative then x.neg else x)

end TypedClient.Json.Numeral
