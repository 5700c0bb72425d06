/-!
# Binary floating-point numbers

A number of the form `± significand · 2 ^ exponent` with at most 53 significant bits, held exactly, so
that reading and writing it is arithmetic on natural numbers.

* **Rounding.** `Binary64.ofRatio` takes a quotient of naturals to the nearest number, a tie to the even
  significand; `none` is a quotient beyond the largest finite number.
* **Reading.** `Binary64.ofDecimal` rounds the decimal digits first and then scales once by a rounded
  power of ten. Up to 15 digits and powers up to 22 this is the nearest number.
* **Writing.** `Binary64.shortest` finds the fewest digits that read back, and of those the nearest;
  `Binary64.text` is positional from `1e-5` up to `1e16` and scientific outside.
-/

namespace RouteManifest

/-- A finite number `± significand · 2 ^ exponent`. A value built by `ofRatio` has its smallest exponent,
so that equal numbers of one sign are equal values. -/
structure Binary64 where
  /-- sign, kept also for zero -/
  negative : Bool
  /-- below `2 ^ 53` -/
  significand : Nat
  /-- between `-1074` and `971` -/
  exponent : Int
deriving DecidableEq, Repr

namespace Binary64

/-- The exponent of the smallest positive number. -/
def minExponent : Int := -1074

/-- The exponent of the largest finite number. -/
def maxExponent : Int := 971

/-- Zero with the given sign. -/
def zero (negative : Bool) : Binary64 := ⟨negative, 0, minExponent⟩

/-- The quotient `num / den / 2 ^ e` as a fraction of naturals. -/
def scaled (num den : Nat) (e : Int) : Nat × Nat :=
  if 0 ≤ e then (num, den * Nat.pow 2 e.toNat) else (num * Nat.pow 2 (-e).toNat, den)

/-- The natural number nearest to `num / den`; a half goes to the even neighbour. -/
def roundHalfEven (num den : Nat) : Nat :=
  let q := num / den
  let r := num % den
  if 2 * r < den then q
  else if den < 2 * r then q + 1
  else if q % 2 = 0 then q else q + 1

/-- The number nearest to `num / den`, or `none` if that is beyond the largest finite number. -/
def ofRatio (negative : Bool) (num den : Nat) : Option Binary64 :=
  if num = 0 then some (zero negative)
  else
    let guess : Int := (num.log2 : Int) - (den.log2 : Int) - 52
    let (n, d) := scaled num den guess
    let e := max minExponent (if n < d * Nat.pow 2 52 then guess - 1 else guess)
    let (n, d) := scaled num den e
    let m := roundHalfEven n d
    let (m, e) := if m = Nat.pow 2 53 then (Nat.pow 2 52, e + 1) else (m, e)
    if maxExponent < e then none else some ⟨negative, m, e⟩

/-- The magnitude as a fraction of naturals. -/
def ratio (x : Binary64) : Nat × Nat :=
  if 0 ≤ x.exponent then (x.significand * Nat.pow 2 x.exponent.toNat, 1)
  else (x.significand, Nat.pow 2 (-x.exponent).toNat)

/-- The same number without the sign of a zero. -/
def unsignedZero (x : Binary64) : Binary64 :=
  if x.significand = 0 then zero false else x

/-! ## Reading decimals -/

/-- `x · 10 ^ k` with the power rounded first. -/
def timesPowerOfTen (x : Binary64) (k : Nat) : Option Binary64 := do
  let p ← ofRatio false (Nat.pow 10 k) 1
  let (n, d) := x.ratio
  let (pn, pd) := p.ratio
  ofRatio x.negative (n * pn) (d * pd)

/-- `x / 10 ^ k` with the power rounded first. -/
def overPowerOfTen (x : Binary64) (k : Nat) : Option Binary64 := do
  let p ← ofRatio false (Nat.pow 10 k) 1
  let (n, d) := x.ratio
  let (pn, pd) := p.ratio
  ofRatio x.negative (n * pd) (d * pn)

/-- Divides by `10 ^ k` in steps of at most 308 places. -/
def shrink (x : Binary64) (k : Nat) : Option Binary64 :=
  if x.significand = 0 then some x
  else if k ≤ 308 then x.overPowerOfTen k
  else (x.overPowerOfTen 308).bind fun y => shrink y (k - 308)
termination_by k

/-- The number written as `± digits · 10 ^ power`, or `none` if it is too large. -/
def ofDecimal (negative : Bool) (digits : Nat) (power : Int) : Option Binary64 := do
  let x ← ofRatio negative digits 1
  if power < 0 then x.shrink (-power).toNat
  else if x.significand = 0 then some x
  else if power ≤ 308 then x.timesPowerOfTen power.toNat
  else none

/-! ## Writing decimals -/

/-- The number of decimal digits of `n`. -/
def digitCount (n : Nat) : Nat := (Nat.toDigits 10 n).length

/-- The largest `p` with `10 ^ p ≤ num / den`, for positive `num` and `den`. -/
def decimalExponent (num den : Nat) : Int :=
  if den ≤ num then (digitCount (num / den) : Int) - 1
  else
    let places := digitCount (den / num)
    if num * Nat.pow 10 (places - 1) = den then 1 - (places : Int) else -(places : Int)

/-- The ends of the interval of reals that round to `x`, over the common denominator, with the flag that
the ends themselves do. -/
def interval (x : Binary64) : (Nat × Nat × Nat) × Bool :=
  let m := x.significand
  let low := if m = Nat.pow 2 52 ∧ minExponent < x.exponent then 4 * m - 1 else 4 * m - 2
  let high := 4 * m + 2
  let ends := if 0 ≤ x.exponent then (low * Nat.pow 2 x.exponent.toNat, high * Nat.pow 2 x.exponent.toNat, 4)
    else (low, high, 4 * Nat.pow 2 (-x.exponent).toNat)
  (ends, m % 2 == 0)

/-- The decimals `d · 10 ^ k` next to `x` on the grid of step `10 ^ k` that read back as `x`, nearest first. -/
def onGrid (x : Binary64) (k : Int) : Option Nat :=
  let (num, den) := x.ratio
  let (unit, scale) := if 0 ≤ k then (Nat.pow 10 k.toNat, 1) else (1, Nat.pow 10 (-k).toNat)
  let below := num * scale / (den * unit)
  let above := below + 1
  let ((low, high, base), closed) := x.interval
  let inside (d : Nat) : Bool :=
    let v := d * unit * base
    if closed then low * scale ≤ v && v ≤ high * scale else low * scale < v && v < high * scale
  -- twice the value against the sum of the two neighbours
  let twice := 2 * num * scale
  let sum := (below + above) * (den * unit)
  match inside below, inside above with
  | true, true =>
    if twice < sum then some below
    else if sum < twice then some above
    else if below % 2 = 0 then some below else some above
  | true, false => some below
  | false, true => some above
  | false, false => none

/-- The first grid of at most `n` more digits, starting at `place`, that has a decimal for `x`. -/
def firstGrid (x : Binary64) (place : Int) : Nat → Nat × Int
  | 0 => (0, 0)
  | n + 1 =>
    match x.onGrid place with
    | some d => (d, place)
    | none => firstGrid x (place - 1) n

/-- Drops the zeros at the end of a digit string, counting them into the power. -/
def trimZeros (digits : Nat) (power : Int) : Nat × Int :=
  if digits = 0 then (0, power)
  else if digits % 10 = 0 then trimZeros (digits / 10) (power + 1)
  else (digits, power)
termination_by digits

/-- The fewest digits, and of those the nearest, that read back as the magnitude of `x`:
`(d, k)` for `d · 10 ^ k`. -/
def shortest (x : Binary64) : Nat × Int :=
  if x.significand = 0 then (0, 0)
  else
    let (num, den) := x.ratio
    let (d, k) := x.firstGrid (decimalExponent num den) 18
    trimZeros d k

/-- `n` zeros. -/
def zeros (n : Int) : String := String.ofList (List.replicate n.toNat '0')

/-- Positional from `1e-5` up to below `1e16`, with `.0` on a whole number, and scientific outside. -/
def text (x : Binary64) : String :=
  let sign := if x.negative then "-" else ""
  if x.significand = 0 then sign ++ "0.0"
  else
    let (d, k) := x.shortest
    let ds := Nat.toDigits 10 d
    let digits := String.ofList ds
    let point : Int := ds.length + k
    if 0 ≤ k ∧ point ≤ 16 then sign ++ digits ++ zeros k ++ ".0"
    else if 0 < point ∧ point ≤ 16 then
      sign ++ String.ofList (ds.take point.toNat) ++ "." ++ String.ofList (ds.drop point.toNat)
    else if -5 < point ∧ point ≤ 0 then sign ++ "0." ++ zeros (-point) ++ digits
    else
      let power := toString (point - 1)
      match ds with
      | [_] => sign ++ digits ++ "e" ++ power
      | first :: rest => sign ++ String.ofList (first :: '.' :: rest) ++ "e" ++ power
      | [] => sign

end Binary64

end RouteManifest
