/-!
# Binary floating-point numbers of 64 bits

A number is a sign, a significand and a power of two, and all arithmetic on it is exact
arithmetic followed by one rounding.

## Main definitions

* `Binary64`: the numbers, with the infinities and the value that is no number
* `Binary64.ofRatio`: the number nearest to a ratio, ties to the even significand
* `Binary64.mul`, `Binary64.div`: rounded product and quotient
* `Binary64.ofDecimal`: the number nearest to a decimal numeral
-/

namespace TypedClient

/-- A binary64 number. A finite one has the value `± significand * 2 ^ exponent`. -/
inductive Binary64
  | nan
  | infinite (negative : Bool)
  | finite (negative : Bool) (significand : Nat) (exponent : Int)
  deriving DecidableEq, Repr

namespace Binary64

/-- The exponent of the smallest numbers. -/
def minExponent : Int := -1074

/-- The exponent of the largest numbers. -/
def maxExponent : Int := 971

/-- The significands that need a larger exponent begin here. -/
def significandBound : Nat := Nat.pow 2 53

/-- Zero with a sign. -/
def zero (negative : Bool) : Binary64 :=
  .finite negative 0 minExponent

/-- The ratio `num / den` divided by `2 ^ e`, as a ratio. -/
def scale (num den : Nat) (e : Int) : Nat × Nat :=
  if 0 ≤ e then (num, den * Nat.pow 2 e.toNat) else (num * Nat.pow 2 (-e).toNat, den)

/-- The integer nearest to `num / den`, of two the even one. -/
def roundHalfEven (num den : Nat) : Nat :=
  let q := num / den
  let r := num % den
  if 2 * r < den then q
  else if den < 2 * r then q + 1
  else q + q % 2

/-- The number nearest to `± num / den`, of two the one with the even significand.
Values beyond the largest number become infinite. -/
def ofRatio (negative : Bool) (num den : Nat) : Binary64 :=
  if num = 0 then zero negative
  else
    -- the ratio of the logarithms is off by at most one, so one of two exponents fits
    let low := max minExponent ((num.log2 : Int) - den.log2 - 53)
    let (n, d) := scale num den low
    let e := if n / d < significandBound then low else low + 1
    let (n, d) := scale num den e
    let s := roundHalfEven n d
    -- rounding up may have reached the next power of two
    let (s, e) := if s = significandBound then (s / 2, e + 1) else (s, e)
    if maxExponent < e then .infinite negative else .finite negative s e

/-- The number nearest to a natural number. -/
def ofNat (n : Nat) : Binary64 :=
  ofRatio false n 1

/-- The value of `significand * 2 ^ exponent` as a ratio. -/
def ratio (significand : Nat) (exponent : Int) : Nat × Nat :=
  if 0 ≤ exponent then (significand * Nat.pow 2 exponent.toNat, 1)
  else (significand, Nat.pow 2 (-exponent).toNat)

/-- The rounded product. -/
def mul : Binary64 → Binary64 → Binary64
  | .finite a s e, .finite b t f =>
    let (n, d) := ratio (s * t) (e + f)
    ofRatio (a != b) n d
  | .infinite a, .infinite b => .infinite (a != b)
  | .infinite a, .finite b t _ => if t = 0 then .nan else .infinite (a != b)
  | .finite a s _, .infinite b => if s = 0 then .nan else .infinite (a != b)
  | _, _ => .nan

/-- The rounded quotient. -/
def div : Binary64 → Binary64 → Binary64
  | .finite a s e, .finite b t f =>
    if t = 0 then if s = 0 then .nan else .infinite (a != b)
    else
      let (n, d) := ratio s e
      let (m, c) := ratio t f
      ofRatio (a != b) (n * c) (d * m)
  | .infinite a, .finite b _ _ => .infinite (a != b)
  | .finite a _ _, .infinite b => zero (a != b)
  | _, _ => .nan

/-- The number with the opposite sign. -/
def neg : Binary64 → Binary64
  | .nan => .nan
  | .infinite a => .infinite (!a)
  | .finite a s e => .finite (!a) s e

/-- Neither infinite nor `nan`. -/
def isFinite : Binary64 → Bool
  | .finite .. => true
  | _ => false

/-- The number nearest to `± digits * 10 ^ exponent`. Numerals far outside the range of
the finite numbers are decided by their size alone. -/
def ofDecimal (negative : Bool) (digits : Nat) (exponent : Int) : Binary64 :=
  let size : Int := (Nat.toDigits 10 digits).length + exponent
  if digits = 0 then zero negative
  else if 320 < size then .infinite negative
  else if size < -340 then zero negative
  else if 0 ≤ exponent then ofRatio negative (digits * Nat.pow 10 exponent.toNat) 1
  else ofRatio negative digits (Nat.pow 10 (-exponent).toNat)

end Binary64

end TypedClient
