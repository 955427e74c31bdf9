import TypedClient.Number.Binary64

/-!
# Decimal text of numbers

A number is written with the fewest decimal digits that are rounded back to it, of those
with the digits nearest to its value, and always without an exponent. A numeral is read
as the nearest number.

## Main definitions

* `Decimal.shortest`: the shortest decimal of a positive number
* `Decimal.text`: the written form of a number
* `Decimal.ofText?`: the number of a numeral
-/

namespace TypedClient.Decimal

/-! ## The shortest decimal -/

/-- The multiples of `10 ^ j` next to the ratio `num / den`: the one at or below it, in
units of `10 ^ j`, and whether the ratio lies nearer to the one above it. -/
def neighbour (num den : Nat) (j : Int) : Nat × Bool :=
  let n := if 0 ≤ j then num else num * Nat.pow 10 (-j).toNat
  let d := if 0 ≤ j then den * Nat.pow 10 j.toNat else den
  (n / d, d ≤ 2 * (n % d))

/-- Whether `k * 10 ^ j` lies in the interval from `low / den` to `high / den`, the ends
included if `closed`. -/
def within (low high den : Nat) (closed : Bool) (k : Nat) (j : Int) : Bool :=
  let n := if 0 ≤ j then k * Nat.pow 10 j.toNat * den else k * den
  let scaleUp := fun bound => if 0 ≤ j then bound else bound * Nat.pow 10 (-j).toNat
  if closed then scaleUp low ≤ n && n ≤ scaleUp high
  else scaleUp low < n && n < scaleUp high

/-- The coarsest decimal grid, from `10 ^ j` downwards, on which a neighbour of
`num / den` lies in the interval, and the nearest such neighbour. -/
def coarsest (num low high den : Nat) (closed : Bool) : Nat → Int → Nat × Int
  | 0, j => (num / den, j)
  | steps + 1, j =>
    let (k, up) := neighbour num den j
    let below := within low high den closed k j
    let above := within low high den closed (k + 1) j
    if above && (up || !below) then (k + 1, j)
    else if below then (k, j)
    else coarsest num low high den closed steps (j - 1)

/-- The shortest decimal `k * 10 ^ j` that is rounded to the positive number
`significand * 2 ^ exponent`, as `(k, j)`. The numbers that are rounded to it reach half
way to its neighbours, the ends included when the significand is even; below a power of
two the neighbour is half as far as above it. -/
def shortest (significand : Nat) (exponent : Int) : Nat × Int :=
  -- half the distance to the number below, in quarters of the last place
  let half := if significand = Nat.pow 2 52 ∧ Binary64.minExponent < exponent then 1 else 2
  let e := exponent - 2
  let up := if 0 ≤ e then Nat.pow 2 e.toNat else 1
  let den := if 0 ≤ e then 1 else Nat.pow 2 (-e).toNat
  let value := 4 * significand * up
  let low := (4 * significand - half) * up
  let high := (4 * significand + 2) * up
  -- coarser grids have no point but zero below the number
  let top := ((significand.log2 : Int) + 1 + exponent) * 30103 / 100000 + 1
  coarsest value low high den (significand % 2 == 0) 24 top

/-! ## Writing -/

/-- The decimal `k * 10 ^ j` written out in full. -/
def positional (k : Nat) (j : Int) : List Char :=
  let ds := Nat.toDigits 10 k
  if 0 ≤ j then ds ++ List.replicate j.toNat '0'
  else
    let places := (-j).toNat
    if places < ds.length then
      ds.take (ds.length - places) ++ '.' :: ds.drop (ds.length - places)
    else '0' :: '.' :: (List.replicate (places - ds.length) '0' ++ ds)

/-- The written form of a number: the shortest decimal, in full, without a point when it
is a whole number. Zero keeps its sign. -/
def text : Binary64 → String
  | .nan => "NaN"
  | .infinite negative => if negative then "-inf" else "inf"
  | .finite negative significand exponent =>
    let digits :=
      if significand = 0 then ['0']
      else
        let (k, j) := shortest significand exponent
        positional k j
    String.ofList (if negative then '-' :: digits else digits)

/-- The decimal digits of an integer, after a minus sign for a negative one. -/
def integerText (i : Int) : String :=
  String.ofList (if i < 0 then '-' :: Nat.toDigits 10 i.natAbs else Nat.toDigits 10 i.natAbs)

/-! ## Reading -/

/-- The value of a text of digits. -/
def digitsValue (cs : List Char) : Nat :=
  cs.foldl (fun n c => 10 * n + (c.toNat - '0'.toNat)) 0

/-- A sign in front of a text: whether it is a minus sign, and the rest. -/
def sign : List Char → Bool × List Char
  | '-' :: cs => (true, cs)
  | '+' :: cs => (false, cs)
  | cs => (false, cs)

/-- An exponent part, absent in the empty text. -/
def exponentOf? : List Char → Option Int
  | [] => some 0
  | c :: cs =>
    if c == 'e' || c == 'E' then
      let (negative, ds) := sign cs
      if ds.isEmpty || !ds.all Char.isDigit then none
      else some (if negative then -(digitsValue ds : Int) else digitsValue ds)
    else none

/-- The number of an unsigned numeral: digits with a point before, among or after them,
and perhaps an exponent. -/
def unsignedOf? (negative : Bool) (cs : List Char) : Option Binary64 :=
  let whole := cs.takeWhile Char.isDigit
  let rest := cs.dropWhile Char.isDigit
  let (fraction, rest) :=
    match rest with
    | '.' :: r => (r.takeWhile Char.isDigit, r.dropWhile Char.isDigit)
    | _ => ([], rest)
  if whole.isEmpty && fraction.isEmpty then none
  else (exponentOf? rest).map fun e =>
    Binary64.ofDecimal negative (digitsValue (whole ++ fraction)) (e - fraction.length)

/-- The number of a numeral with an optional sign; the words for infinity and for no
number are numerals too, in letters of either case. -/
def ofText? (s : String) : Option Binary64 :=
  let (negative, cs) := sign s.toList
  let word := String.ofList (cs.map Char.toLower)
  if word == "inf" || word == "infinity" then some (.infinite negative)
  else if word == "nan" then some .nan
  else unsignedOf? negative cs

end TypedClient.Decimal
