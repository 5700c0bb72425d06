import RouteManifest.Json.Basic

/-!
# Reading JSON text

`Json.parse?` accepts one value surrounded by blanks. It is strict: no comments, no trailing commas, no
leading zeros, no bare control characters in strings, and surrogate escapes only in pairs. Containers may
nest 127 deep.

A whole number stays one as long as it fits 64 bits (signed below zero, unsigned above); beyond that, and
for `-0`, it is read as a floating-point number. Digits that do not fit 64 bits are dropped, and count into
the power of ten.
-/

namespace RouteManifest

namespace Json

namespace Parser

/-- Blanks between tokens. -/
def isBlank (c : Char) : Bool := c == ' ' || c == '\n' || c == '\t' || c == '\r'

/-- Drops blanks. -/
def skipBlanks (cs : List Char) : List Char := cs.dropWhile isBlank

/-- The rest after a fixed word. -/
def word? : List Char → List Char → Option (List Char)
  | [], rest => some rest
  | c :: cs, d :: ds => if c = d then word? cs ds else none
  | _ :: _, [] => none

/-! ## Strings -/

/-- The value of a digit of base sixteen. -/
def hexValue? (c : Char) : Option Nat :=
  if '0' ≤ c ∧ c ≤ '9' then some (c.toNat - '0'.toNat)
  else if 'a' ≤ c ∧ c ≤ 'f' then some (c.toNat - 'a'.toNat + 10)
  else if 'A' ≤ c ∧ c ≤ 'F' then some (c.toNat - 'A'.toNat + 10)
  else none

/-- The value of four digits of base sixteen. -/
def hex4? (a b c d : Char) : Option Nat := do
  return (((← hexValue? a) * 16 + (← hexValue? b)) * 16 + (← hexValue? c)) * 16 + (← hexValue? d)

/-- The character of an escape of one letter. -/
def shortEscape? : Char → Option Char
  | '"' => some '"'
  | '\\' => some '\\'
  | '/' => some '/'
  | 'b' => some '\x08'
  | 'f' => some '\x0c'
  | 'n' => some '\n'
  | 'r' => some '\r'
  | 't' => some '\t'
  | _ => none

/-- The characters of a string up to its closing quote, and the rest behind it. -/
def stringBody : List Char → Option (List Char × List Char)
  | '"' :: rest => some ([], rest)
  | '\\' :: 'u' :: a :: b :: c :: d :: rest =>
    match hex4? a b c d with
    | none => none
    | some n =>
      if 0xD800 ≤ n ∧ n < 0xDC00 then
        match rest with
        | '\\' :: 'u' :: e :: f :: g :: h :: rest =>
          match hex4? e f g h with
          | none => none
          | some m =>
            if 0xDC00 ≤ m ∧ m < 0xE000 then
              (stringBody rest).map fun (text, rest) =>
                (Char.ofNat (0x10000 + (n - 0xD800) * 0x400 + (m - 0xDC00)) :: text, rest)
            else none
        | _ => none
      else if 0xDC00 ≤ n ∧ n < 0xE000 then none
      else (stringBody rest).map fun (text, rest) => (Char.ofNat n :: text, rest)
  | '\\' :: c :: rest =>
    match shortEscape? c with
    | none => none
    | some e => (stringBody rest).map fun (text, rest) => (e :: text, rest)
  | c :: rest =>
    if c.toNat < 0x20 then none
    else (stringBody rest).map fun (text, rest) => (c :: text, rest)
  | [] => none

/-- A string, from its opening quote on. -/
def string? : List Char → Option (String × List Char)
  | '"' :: rest => (stringBody rest).map fun (text, rest) => (String.ofList text, rest)
  | _ => none

/-! ## Numbers -/

/-- The value of a decimal digit. -/
def digit (c : Char) : Nat := c.toNat - '0'.toNat

/-- The bound that the digits read so far stay below. -/
def wordLimit : Nat := Nat.pow 2 64

/-- The value of the digits before the point, and how many of them no longer fit. -/
def wholeDigits : List Char → Nat → Nat × Nat
  | [], n => (n, 0)
  | c :: cs, n =>
    let next := n * 10 + digit c
    if next < wordLimit then wholeDigits cs next else (n, cs.length + 1)

/-- The value of the digits behind the point appended to `n`, and how many of them fit. -/
def fractionDigits : List Char → Nat → Nat × Nat
  | [], n => (n, 0)
  | c :: cs, n =>
    let next := n * 10 + digit c
    if next < wordLimit then
      let (m, used) := fractionDigits cs next
      (m, used + 1)
    else (n, 0)

/-- The value of a run of digits. -/
def natOfDigits (ds : List Char) : Nat := ds.foldl (fun n c => n * 10 + digit c) 0

/-- The power of ten behind the mark, or no power where there is no mark. -/
def power? : List Char → Option (Option Int × List Char)
  | c :: rest =>
    if c = 'e' ∨ c = 'E' then
      let (negative, rest) : Bool × List Char :=
        match rest with
        | '+' :: rest => (false, rest)
        | '-' :: rest => (true, rest)
        | rest => (false, rest)
      let (ds, rest) := rest.span Char.isDigit
      if ds.isEmpty then none
      else
        let n : Int := natOfDigits ds
        some (some (if negative then -n else n), rest)
    else some (none, c :: rest)
  | [] => some (none, [])

/-- A whole number as long as it fits 64 bits, and a floating-point number beyond. -/
def ofWhole (negative : Bool) (n : Nat) : Option Json :=
  if negative then
    if n = 0 ∨ Nat.pow 2 63 < n then (Binary64.ofDecimal true n 0).map .float
    else some (.int (-(n : Int)))
  else some (.int n)

/-- A number behind its sign. -/
def unsigned? (negative : Bool) (cs : List Char) : Option (Json × List Char) :=
  let (whole, rest) := cs.span Char.isDigit
  if whole.isEmpty ∨ (whole.head? = some '0' ∧ whole.length ≠ 1) then none
  else
    let (n, dropped) := wholeDigits whole 0
    match rest with
    | '.' :: rest =>
      let (fraction, rest) := rest.span Char.isDigit
      if fraction.isEmpty then none
      else
        let (n, used) := fractionDigits fraction n
        (power? rest).bind fun (power, rest) =>
          (Binary64.ofDecimal negative n ((dropped : Int) - (used : Int) + power.getD 0)).map fun x =>
            (.float x, rest)
    | rest =>
      (power? rest).bind fun (power, rest) =>
        if power = none ∧ dropped = 0 then (ofWhole negative n).map fun value => (value, rest)
        else
          (Binary64.ofDecimal negative n ((dropped : Int) + power.getD 0)).map fun x => (.float x, rest)

/-- A number. -/
def number? : List Char → Option (Json × List Char)
  | '-' :: rest => unsigned? true rest
  | rest => unsigned? false rest

/-! ## Values -/

mutual
/-- A value in front of the rest of the text. `depth` is how many containers may still open. -/
def value? (fuel depth : Nat) (cs : List Char) : Option (Json × List Char) :=
  match fuel with
  | 0 => none
  | fuel + 1 =>
    match skipBlanks cs with
    | 'n' :: rest => (word? ['u', 'l', 'l'] rest).map fun rest => (.null, rest)
    | 't' :: rest => (word? ['r', 'u', 'e'] rest).map fun rest => (.bool true, rest)
    | 'f' :: rest => (word? ['a', 'l', 's', 'e'] rest).map fun rest => (.bool false, rest)
    | '"' :: rest => (stringBody rest).map fun (text, rest) => (.string (String.ofList text), rest)
    | '[' :: rest =>
      match depth with
      | 0 => none
      | depth + 1 =>
        match skipBlanks rest with
        | ']' :: rest => some (.array [], rest)
        | rest => (items? fuel depth rest).map fun (items, rest) => (.array items, rest)
    | '{' :: rest =>
      match depth with
      | 0 => none
      | depth + 1 =>
        match skipBlanks rest with
        | '}' :: rest => some (.object [], rest)
        | rest => (members? fuel depth rest).map fun (members, rest) => (.object members, rest)
    | rest => number? rest

/-- One item or more, and the closing bracket. -/
def items? (fuel depth : Nat) (cs : List Char) : Option (List Json × List Char) :=
  match fuel with
  | 0 => none
  | fuel + 1 =>
    (value? fuel depth cs).bind fun (item, rest) =>
      match skipBlanks rest with
      | ']' :: rest => some ([item], rest)
      | ',' :: rest => (items? fuel depth rest).map fun (items, rest) => (item :: items, rest)
      | _ => none

/-- One member or more, and the closing brace. -/
def members? (fuel depth : Nat) (cs : List Char) : Option (Table Json × List Char) :=
  match fuel with
  | 0 => none
  | fuel + 1 =>
    (string? (skipBlanks cs)).bind fun (name, rest) =>
      match skipBlanks rest with
      | ':' :: rest =>
        (value? fuel depth rest).bind fun (value, rest) =>
          match skipBlanks rest with
          | '}' :: rest => some ([(name, value)], rest)
          | ',' :: rest =>
            (members? fuel depth rest).map fun (members, rest) => ((name, value) :: members, rest)
          | _ => none
      | _ => none
end

/-- How many containers may be open at once. -/
def maxDepth : Nat := 127

end Parser

/-- The value of a text that holds exactly one. -/
def parse? (text : String) : Option Json :=
  let cs := text.toList
  (Parser.value? (2 * cs.length + 2) Parser.maxDepth cs).bind fun (value, rest) =>
    if (Parser.skipBlanks rest).isEmpty then some value else none

end Json

end RouteManifest
