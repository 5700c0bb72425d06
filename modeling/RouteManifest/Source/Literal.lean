import RouteManifest.Source.Token
import RouteManifest.Text.Letters

/-!
# Literals

Each function here answers how many characters a literal takes at the front of a text, and `none` where no
such literal stands there. A text literal also has a value.

Texts, strings of bytes and texts that end in a zero byte differ in the characters and escapes they admit, and
are otherwise alike (`Flavour`). A literal can have a word as a suffix, which belongs to it.
-/

namespace RouteManifest

namespace Source

/-! ## Words -/

/-- The length of a word. -/
def wordLength? : List Char → Option Nat
  | [] => none
  | c :: rest =>
    if Text.isIdentifierStart c then some (1 + (rest.takeWhile Text.isIdentifierPart).length) else none

/-- The length of a suffix, which can be missing. -/
def suffixLength (cs : List Char) : Nat := (wordLength? cs).getD 0

/-! ## Escapes -/

/-- The flavours of quoted literals. -/
inductive Flavour where
  | text
  /-- bytes: no character and no escape beyond one byte -/
  | bytes
  /-- a text without zero characters -/
  | terminated
deriving DecidableEq, Repr

namespace Flavour

/-- Whether a character can stand in a literal as it is. -/
def admits (f : Flavour) (c : Char) : Bool :=
  match f with
  | .text => true
  | .bytes => c.toNat < 128
  | .terminated => c != '\x00'

/-- Whether a value of two hexadecimal digits can be escaped. -/
def admitsByte (f : Flavour) (n : Nat) : Bool :=
  match f with
  | .text => n < 128
  | .bytes => true
  | .terminated => n != 0

/-- Whether a code point in braces can be escaped. -/
def admitsCodePoint (f : Flavour) (n : Nat) : Bool :=
  match f with
  | .text => true
  | .bytes => false
  | .terminated => n != 0

end Flavour

/-- The value of a hexadecimal digit. -/
def hexValue? (c : Char) : Option Nat :=
  if c.isDigit then some (c.toNat - '0'.toNat)
  else if 'a' ≤ c && c ≤ 'f' then some (10 + (c.toNat - 'a'.toNat))
  else if 'A' ≤ c && c ≤ 'F' then some (10 + (c.toNat - 'A'.toNat))
  else none

/-- The digits of a code point up to the closing brace: its value, and the characters with the brace. There
are one to six digits, and underscores behind the first. -/
def codePoint? (value digits : Nat) : List Char → Option (Nat × Nat)
  | [] => none
  | c :: rest =>
    if c = '_' ∧ 0 < digits then (codePoint? value digits rest).map fun (v, n) => (v, n + 1)
    else if c = '}' ∧ 0 < digits then some (value, 1)
    else
      match hexValue? c with
      | some d =>
        if digits = 6 then none
        else (codePoint? (value * 16 + d) (digits + 1) rest).map fun (v, n) => (v, n + 1)
      | none => none

/-- Escapes of one letter. -/
def letterEscape? : Char → Option Char
  | 'n' => some '\n'
  | 'r' => some '\r'
  | 't' => some '\t'
  | '\\' => some '\\'
  | '\'' => some '\''
  | '"' => some '"'
  | '0' => some '\x00'
  | _ => none

/-- A character that stands for itself, or an escape: the character meant, and the characters taken. -/
def unit? (f : Flavour) : List Char → Option (Char × Nat)
  | '\\' :: 'x' :: high :: low :: _ => do
    let n := (← hexValue? high) * 16 + (← hexValue? low)
    if f.admitsByte n then some (Char.ofNat n, 4) else none
  | '\\' :: 'u' :: '{' :: rest => do
    let (n, taken) ← codePoint? 0 0 rest
    if n.isValidChar ∧ f.admitsCodePoint n then some (Char.ofNat n, 3 + taken) else none
  | '\\' :: c :: _ => do
    let v ← letterEscape? c
    if f = .terminated ∧ c = '0' then none else some (v, 2)
  | ['\\'] => none
  | c :: _ => if f.admits c then some (c, 1) else none
  | [] => none

/-! ## Quoted literals -/

/-- The line end and the white space that a backslash in front of them takes out of a literal. Something must
follow. -/
def gapLength? : List Char → Option Nat
  | '\r' :: '\n' :: rest => (gapLength? rest).map (· + 2)
  | '\r' :: _ => none
  | '\n' :: rest | ' ' :: rest | '\t' :: rest => (gapLength? rest).map (· + 1)
  | _ :: _ => some 0
  | [] => none

/-- The characters behind an opening quote: the value, and the characters taken with the closing quote. A line
end of two characters is one in the value. -/
def quotedBody? (f : Flavour) : List Char → Option (List Char × Nat)
  | [] => none
  | '"' :: _ => some ([], 1)
  | '\r' :: '\n' :: rest => (quotedBody? f rest).map fun (v, n) => ('\n' :: v, n + 2)
  | '\r' :: _ => none
  | '\\' :: '\n' :: rest => do
    let gap ← gapLength? rest
    (quotedBody? f (rest.drop gap)).map fun (v, n) => (v, n + 2 + gap)
  | '\\' :: '\r' :: '\n' :: rest => do
    let gap ← gapLength? rest
    (quotedBody? f (rest.drop gap)).map fun (v, n) => (v, n + 3 + gap)
  | c :: rest => do
    let (v, taken) ← unit? f (c :: rest)
    (quotedBody? f (rest.drop (taken - 1))).map fun (vs, n) => (v :: vs, n + taken)
termination_by cs => cs.length
decreasing_by all_goals simp only [List.length_cons, List.length_drop]; omega

/-- The characters behind an opening quote that only a quote with as many hashes as in front of it closes. No
escape counts. -/
def rawBody? (f : Flavour) (hashes : Nat) : List Char → Option (List Char × Nat)
  | [] => none
  | c :: rest =>
    if c = '"' ∧ rest.take hashes = List.replicate hashes '#' then some ([], 1 + hashes)
    else if c = '\r' ∧ rest.head? ≠ some '\n' then none
    else if f.admits c then (rawBody? f hashes rest).map fun (v, n) => (c :: v, n + 1)
    else none

/-- A raw literal behind its letters. -/
def raw? (f : Flavour) (cs : List Char) : Option (List Char × Nat) :=
  let hashes := (cs.takeWhile (· == '#')).length
  match cs.drop hashes with
  | '"' :: body =>
    if hashes ≤ 255 then (rawBody? f hashes body).map fun (v, n) => (v, hashes + 1 + n) else none
  | _ => none

/-- A quoted literal of any flavour: its value, and its length without suffix. -/
def quoted? : List Char → Option (Literal × Nat)
  | '"' :: rest => (quotedBody? .text rest).map fun (v, n) => (.text (String.ofList v), n + 1)
  | 'r' :: rest => (raw? .text rest).map fun (v, n) => (.text (String.ofList v), n + 1)
  | 'b' :: '"' :: rest => (quotedBody? .bytes rest).map fun (_, n) => (.other, n + 2)
  | 'b' :: 'r' :: rest => (raw? .bytes rest).map fun (_, n) => (.other, n + 2)
  | 'c' :: '"' :: rest => (quotedBody? .terminated rest).map fun (_, n) => (.other, n + 2)
  | 'c' :: 'r' :: rest => (raw? .terminated rest).map fun (_, n) => (.other, n + 2)
  | _ => none

/-- A character or byte between apostrophes, behind the first of them. -/
def singleLength? (f : Flavour) (cs : List Char) : Option Nat := do
  let (_, n) ← unit? f cs
  if cs[n]? = some '\'' then some (n + 1) else none

/-- The length of a character or byte without suffix. -/
def characterLength? : List Char → Option Nat
  | 'b' :: '\'' :: rest => (singleLength? .bytes rest).map (· + 2)
  | '\'' :: rest => (singleLength? .text rest).map (· + 1)
  | _ => none

/-! ## Numbers -/

/-- A decimal digit or the underscore between digits. -/
def isDigitOrGap (c : Char) : Bool := c.isDigit || c == '_'

/-- An exponent behind its letter: one sign at most, then at least one digit. -/
def exponentLength? (signed valued : Bool) : List Char → Option Nat
  | [] => if valued then some 0 else none
  | c :: rest =>
    if c = '+' ∨ c = '-' then
      if valued then some 0
      else if signed then none
      else (exponentLength? true valued rest).map (· + 1)
    else if c.isDigit then (exponentLength? signed true rest).map (· + 1)
    else if c = '_' then (exponentLength? signed valued rest).map (· + 1)
    else if valued then some 0
    else none

/-- Whether a point belongs to the number in front of it: it does unless another point or a word follows. -/
def pointBelongs : List Char → Bool
  | [] => true
  | c :: _ => c != '.' && !Text.isIdentifierStart c

/-- The exponent with its letter; zero where there is none. -/
def exponentPart (cs : List Char) : Nat :=
  match cs with
  | 'e' :: rest | 'E' :: rest => ((exponentLength? false false rest).map (· + 1)).getD 0
  | _ => 0

/-- The length of a number with a point or an exponent, without suffix. -/
def fractionLength? (cs : List Char) : Option Nat :=
  let whole := (cs.takeWhile isDigitOrGap).length
  match cs.drop whole with
  | '.' :: rest =>
    if pointBelongs rest then
      let places := (rest.takeWhile isDigitOrGap).length
      some (whole + 1 + places + exponentPart (rest.drop places))
    else none
  | rest => if exponentPart rest = 0 then none else some (whole + exponentPart rest)

/-- The digits of a whole number in a base; letters beyond the base end it, digits beyond the base spoil it. -/
def digitsLength? (base : Nat) (started : Bool) : List Char → Option Nat
  | [] => if started then some 0 else none
  | c :: rest =>
    if c = '_' then
      if !started && base = 10 then none else (digitsLength? base started rest).map (· + 1)
    else
      match hexValue? c with
      | some d =>
        if d < base then (digitsLength? base true rest).map (· + 1)
        else if c.isDigit then none
        else if started then some 0
        else none
      | none => if started then some 0 else none

/-- The length of a whole number without suffix. -/
def wholeLength? : List Char → Option Nat
  | '0' :: 'x' :: rest => (digitsLength? 16 false rest).map (· + 2)
  | '0' :: 'o' :: rest => (digitsLength? 8 false rest).map (· + 2)
  | '0' :: 'b' :: rest => (digitsLength? 2 false rest).map (· + 2)
  | cs => digitsLength? 10 false cs

/-- A number with its suffix; no part of a word may follow. -/
def withSuffix? (cs : List Char) (length : Nat) : Option Nat :=
  let taken := length + suffixLength (cs.drop length)
  match cs[taken]? with
  | some c => if Text.isIdentifierPart c then none else some taken
  | none => some taken

/-- The length of a number. -/
def numberLength? (cs : List Char) : Option Nat :=
  match cs with
  | [] => none
  | c :: _ =>
    if c.isDigit then
      ((fractionLength? cs).bind (withSuffix? cs)).or ((wholeLength? cs).bind (withSuffix? cs))
    else none

/-! ## Any literal -/

/-- The literal at the front of a text, and its length. -/
def literal? (cs : List Char) : Option (Literal × Nat) :=
  match quoted? cs with
  | some (l, n) => some (l, n + suffixLength (cs.drop n))
  | none =>
    match characterLength? cs with
    | some n => some (.other, n + suffixLength (cs.drop n))
    | none => (numberLength? cs).map fun n => (.number, n)

end Source

end RouteManifest
