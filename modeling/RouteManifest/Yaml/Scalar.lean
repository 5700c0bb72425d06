import RouteManifest.Decimal.Binary64
import RouteManifest.Text.Segments

/-!
# Plain scalars of YAML

What a scalar without quotes means: null, a flag, a number, or else a text. A text that would read as one of
the others has to be quoted when it is written.
-/

namespace RouteManifest

namespace Yaml

/-- What a plain scalar is read as. -/
inductive ScalarKind where
  | null | bool (value : Bool) | number | text
deriving DecidableEq, Repr

/-- Whether the text is one of the spellings of null. -/
def isNull (s : String) : Bool := s == "" || s == "null" || s == "Null" || s == "NULL" || s == "~"

/-- The flag that the text spells. -/
def bool? (s : String) : Option Bool :=
  if s == "true" || s == "True" || s == "TRUE" then some true
  else if s == "false" || s == "False" || s == "FALSE" then some false
  else none

/-- Drops one leading character. -/
def dropSign (sign : Char) : List Char → List Char
  | c :: rest => if c = sign then rest else c :: rest
  | [] => []

/-- Digits with a zero in front, which are a text and not a number. -/
def isZeroPadded (cs : List Char) : Bool :=
  let digits := match cs with
    | '-' :: rest | '+' :: rest => rest
    | cs => cs
  match digits with
  | '0' :: rest => !rest.isEmpty && rest.all Char.isDigit
  | _ => false

/-- The value of a digit of a base up to sixteen. -/
def digitOf? (base : Nat) (c : Char) : Option Nat :=
  let n :=
    if '0' ≤ c ∧ c ≤ '9' then c.toNat - '0'.toNat
    else if 'a' ≤ c ∧ c ≤ 'f' then c.toNat - 'a'.toNat + 10
    else if 'A' ≤ c ∧ c ≤ 'F' then c.toNat - 'A'.toNat + 10
    else 16
  if n < base then some n else none

/-- The number that digits of a base denote, at least one of them. -/
def natOf? (base : Nat) (cs : List Char) : Option Nat :=
  if cs.isEmpty then none else cs.foldl (fun n c => do return (← n) * base + (← digitOf? base c)) (some 0)

/-- Whether the text is a whole number of at most 128 bits, in base ten, or with a mark in base sixteen,
eight or two. -/
def isInteger (cs : List Char) : Bool :=
  let unsigned := dropSign '+' cs
  let below (limit : Nat) (n : Option Nat) : Bool := n.any (· < limit)
  match unsigned, cs with
  | '0' :: 'x' :: rest, _ => below (Nat.pow 2 128) (natOf? 16 rest)
  | '0' :: 'o' :: rest, _ => below (Nat.pow 2 128) (natOf? 8 rest)
  | '0' :: 'b' :: rest, _ => below (Nat.pow 2 128) (natOf? 2 rest)
  | _, '-' :: '0' :: 'x' :: rest => below (Nat.pow 2 127 + 1) (natOf? 16 rest)
  | _, '-' :: '0' :: 'o' :: rest => below (Nat.pow 2 127 + 1) (natOf? 8 rest)
  | _, '-' :: '0' :: 'b' :: rest => below (Nat.pow 2 127 + 1) (natOf? 2 rest)
  | _, '-' :: rest => !isZeroPadded cs && below (Nat.pow 2 127 + 1) (natOf? 10 rest)
  | rest, _ => !isZeroPadded cs && below (Nat.pow 2 128) (natOf? 10 rest)

/-- Whether a decimal with so many digits before its point stays finite. -/
def isFinite (whole fraction : List Char) (power : Int) : Bool :=
  let digits := (whole ++ fraction).dropWhile (· == '0')
  let size : Int := digits.length + power - fraction.length
  if digits.isEmpty || size < 300 then true
  else if 320 < size then false
  else
    match natOf? 10 digits with
    | none => false
    | some n =>
      let exponent := power - fraction.length
      let (num, den) :=
        if 0 ≤ exponent then (n * Nat.pow 10 exponent.toNat, 1) else (n, Nat.pow 10 (-exponent).toNat)
      (Binary64.ofRatio false num den).isSome

/-- Whether an unsigned text is a decimal with a point or a power, and finite. -/
def isDecimal (cs : List Char) : Bool :=
  let (whole, rest) := cs.span Char.isDigit
  let (fraction, rest) : List Char × List Char :=
    match rest with
    | '.' :: rest => rest.span Char.isDigit
    | rest => ([], rest)
  if whole.isEmpty && fraction.isEmpty then false
  else
    match rest with
    | [] => isFinite whole fraction 0
    | c :: rest =>
      if c != 'e' && c != 'E' then false
      else
        let (negative, digits) : Bool × List Char :=
          match rest with
          | '-' :: rest => (true, rest)
          | '+' :: rest => (false, rest)
          | rest => (false, rest)
        match natOf? 10 digits with
        | none => false
        | some n => isFinite whole fraction (if negative then -(n : Int) else n)

/-- Whether the text is a floating-point number. -/
def isFloat (cs : List Char) : Bool :=
  let s := String.ofList cs
  let unsigned := dropSign '+' cs
  let special := [".inf", ".Inf", ".INF"]
  special.contains (String.ofList unsigned)
    || ["-.inf", "-.Inf", "-.INF", ".nan", ".NaN", ".NAN"].contains s
    || (match cs, unsigned with
      | '+' :: '+' :: _, _ | '+' :: '-' :: _, _ => false
      | _, '-' :: rest => isDecimal rest
      | _, rest => isDecimal rest)

/-- What a plain scalar is read as. -/
def kindOf (s : String) : ScalarKind :=
  if isNull s then .null
  else
    match bool? s with
    | some b => .bool b
    | none =>
      let cs := s.toList
      if isInteger cs || (!isZeroPadded cs && isFloat cs) then .number else .text

end Yaml

end RouteManifest
