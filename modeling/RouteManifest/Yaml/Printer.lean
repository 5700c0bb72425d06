import RouteManifest.Json.Printer
import RouteManifest.Yaml.Characters
import RouteManifest.Yaml.Scalar

/-!
# YAML text

A JSON value in block style: two blanks a level, sequences not indented below their key, empty containers
as `[]` and `{}`, lines never folded.

A text is written as it is where that reads back as the same text. Otherwise it is put in single quotes; a
text with line breaks becomes a literal block, whose header says whether the text begins with a blank and
how it ends; and what fits in neither, such as control characters, is escaped in double quotes. A key that
has line breaks or more than 128 bytes is introduced by a question mark.
-/

namespace RouteManifest

namespace Yaml

/-! ## The look of a text -/

/-- What a text holds that restricts how it can be written. -/
structure Look where
  /-- characters that mean something in a block -/
  indicators : Bool := false
  unprintable : Bool := false
  breaks : Bool := false
  /-- a blank or a break at either end -/
  openEnds : Bool := false
  trailingBlank : Bool := false
  /-- a blank behind a break -/
  blankBehindBreak : Bool := false
  /-- a break behind a blank -/
  breakBehindBlank : Bool := false

/-- Whether the first character means something in front of the rest. -/
def startsIndicator : List Char → Bool
  | '-' :: '-' :: '-' :: _ => true
  | '.' :: '.' :: '.' :: _ => true
  | c :: rest =>
    if "#,[]\x7b\x7d&*!|>'\"%@`".toList.contains c then true
    else (c == '?' || c == ':' || c == '-') && endsWord rest
  | [] => false

/-- Whether a character means something between the one before it and the rest. -/
def innerIndicators (before : Char) : List Char → Bool
  | [] => false
  | c :: rest =>
    (c == ':' && endsWord rest) || (c == '#' && isSeparator before) || innerIndicators c rest

/-- Whether a character of the first kind comes right before one of the second. -/
def adjacent (p q : Char → Bool) : List Char → Bool
  | c :: d :: rest => (p c && q d) || adjacent p q (d :: rest)
  | _ => false

/-- The look of a text. -/
def lookOf (cs : List Char) : Look where
  indicators := startsIndicator cs || (match cs with
    | c :: rest => innerIndicators c rest
    | [] => false)
  unprintable := cs.any fun c => !isPrintable c
  breaks := cs.any isBreak
  openEnds :=
    let atEnd (c : Option Char) : Bool := c.any fun c => c == ' ' || isBreak c
    atEnd cs.head? || atEnd cs.getLast?
  trailingBlank := cs.getLast? == some ' '
  blankBehindBreak := adjacent isBreak (· == ' ') cs
  breakBehindBlank := adjacent (· == ' ') isBreak cs

/-! ## Styles -/

/-- How a text is written. -/
inductive Style where
  | plain | singleQuoted | doubleQuoted | literal
deriving DecidableEq, Repr

/-- How a text is written. -/
def styleOf (text : String) : Style :=
  let cs := text.toList
  let look := lookOf cs
  let quotable := !look.blankBehindBreak && !look.breakBehindBlank && !look.unprintable
  let wanted : Style :=
    if cs.contains '\n' then .literal
    else if kindOf text != .text then .singleQuoted
    else if look.openEnds || look.breaks || look.indicators || !quotable then .singleQuoted
    else .plain
  match wanted with
  | .literal =>
    if look.trailingBlank || look.breakBehindBlank || look.unprintable then .doubleQuoted else .literal
  | .singleQuoted => if quotable then .singleQuoted else .doubleQuoted
  | style => style

/-! ## Writing a text -/

/-- A digit of base sixteen in capitals. -/
def hexDigit (n : Nat) : Char := (Nat.digitChar (n % 16)).toUpper

/-- The last digits of a number in base sixteen. -/
def hexDigits : Nat → Nat → List Char
  | 0, _ => []
  | count + 1, n => hexDigits count (n / 16) ++ [hexDigit n]

/-- A character behind a backslash. -/
def escapeCode (c : Char) : List Char :=
  match c.toNat with
  | 0x00 => ['0']
  | 0x07 => ['a']
  | 0x08 => ['b']
  | 0x09 => ['t']
  | 0x0A => ['n']
  | 0x0B => ['v']
  | 0x0C => ['f']
  | 0x0D => ['r']
  | 0x1B => ['e']
  | 0x22 => ['"']
  | 0x5C => ['\\']
  | 0x85 => ['N']
  | 0x2028 => ['L']
  | 0x2029 => ['P']
  | n =>
    if n ≤ 0xFF then 'x' :: hexDigits 2 n
    else if n ≤ 0xFFFF then 'u' :: hexDigits 4 n
    else 'U' :: hexDigits 8 n

/-- A text in double quotes. -/
def doubleQuoted (cs : List Char) : List Char :=
  let write (c : Char) : List Char :=
    if !isPrintable c || isBreak c || c == '"' || c == '\\' then '\\' :: escapeCode c else [c]
  '"' :: (cs.flatMap write ++ ['"'])

/-- So many blanks. -/
def blanks (n : Nat) : List Char := List.replicate n ' '

/-- The inside of single quotes; what follows a break is indented. -/
def singleQuotedBody (indent : Nat) (behindBreak : Bool) : List Char → List Char
  | [] => if behindBreak then blanks indent else []
  | c :: rest =>
    if isBreak c then c :: singleQuotedBody indent true rest
    else
      (if behindBreak then blanks indent else []) ++ (if c == '\'' then ['\'', '\''] else [c])
        ++ singleQuotedBody indent false rest

/-- The lines of a literal block, each indented unless it is empty. -/
def literalBody (indent : Nat) (atStart : Bool) : List Char → List Char
  | [] => []
  | c :: rest =>
    if isBreak c then c :: literalBody indent true rest
    else (if atStart then blanks indent else []) ++ c :: literalBody indent false rest

/-- What the header of a literal block says about the beginning and the end of its text. -/
def literalHints (cs : List Char) : List Char :=
  (if cs.head?.any fun c => c == ' ' || isBreak c then ['2'] else [])
    ++ (match cs.reverse with
      | [] => ['-']
      | [last] => if isBreak last then ['+'] else ['-']
      | last :: before :: _ =>
        if !isBreak last then ['-'] else if isBreak before then ['+'] else [])

/-- Written characters, and whether they end with a line break. -/
structure Piece where
  chars : List Char
  atLineStart : Bool := false

/-- A text at an indentation for what follows its first line. -/
def textPiece (indent : Nat) (text : String) : Piece :=
  let cs := text.toList
  match styleOf text with
  | .plain => ⟨cs, false⟩
  | .singleQuoted => ⟨'\'' :: (singleQuotedBody indent false cs ++ ['\'']), false⟩
  | .doubleQuoted => ⟨doubleQuoted cs, false⟩
  | .literal =>
    ⟨'|' :: (literalHints cs ++ '\n' :: literalBody indent true cs), cs.getLast?.any isBreak⟩

/-! ## Writing a value -/

namespace Piece

/-- A new line at an indentation behind a piece, and then another piece. -/
def nextLine (p : Piece) (indent : Nat) (q : Piece) : Piece :=
  ⟨p.chars ++ (if p.atLineStart then [] else ['\n']) ++ blanks indent ++ q.chars, q.atLineStart⟩

/-- Characters in front of a piece. -/
def after (chars : List Char) (p : Piece) : Piece := ⟨chars ++ p.chars, p.atLineStart⟩

end Piece

/-- Whether a key fits on a line in front of its value. -/
def isSimpleKey (key : String) : Bool := key.utf8ByteSize ≤ 128 && !key.toList.any isBreak

/-- A key with the mark behind it. -/
def keyPiece (indent : Nat) (key : String) : Piece :=
  if isSimpleKey key then ⟨(textPiece (indent + 2) key).chars ++ [':'], false⟩
  else (Piece.after ['?', ' '] (textPiece (indent + 2) key)).nextLine indent ⟨[':'], false⟩

/-- A value that is not a container with something in it. -/
def scalarPiece (indent : Nat) : Json → Piece
  | .string s => textPiece (indent + 2) s
  | .array _ => ⟨['[', ']'], false⟩
  | .object _ => ⟨['\x7b', '\x7d'], false⟩
  | other => ⟨other.scalarChars, false⟩

mutual
/-- A value behind a dash, or behind a key that is not simple. -/
def itemPiece (indent : Nat) : Json → Piece
  | .array (item :: rest) =>
    itemsPiece (indent + 2) (Piece.after ['-', ' '] (itemPiece (indent + 2) item)) rest
  | .object ((key, value) :: rest) =>
    membersPiece (indent + 2) (memberPiece (indent + 2) key value) rest
  | scalar => scalarPiece indent scalar

/-- A key with its value. -/
def memberPiece (indent : Nat) (key : String) : Json → Piece
  | .array (item :: rest) =>
    let name := keyPiece indent key
    if isSimpleKey key then
      itemsPiece indent (name.nextLine indent (Piece.after ['-', ' '] (itemPiece indent item))) rest
    else
      itemsPiece (indent + 2)
        (Piece.after (name.chars ++ [' ', '-', ' ']) (itemPiece (indent + 2) item)) rest
  | .object ((inner, value) :: rest) =>
    let name := keyPiece indent key
    if isSimpleKey key then
      membersPiece (indent + 2) (name.nextLine (indent + 2) (memberPiece (indent + 2) inner value)) rest
    else
      membersPiece (indent + 2) (Piece.after (name.chars ++ [' ']) (memberPiece (indent + 2) inner value))
        rest
  | scalar => Piece.after ((keyPiece indent key).chars ++ [' ']) (scalarPiece indent scalar)

/-- Items on lines of their own behind a piece. -/
def itemsPiece (indent : Nat) (before : Piece) : List Json → Piece
  | [] => before
  | item :: rest =>
    itemsPiece indent (before.nextLine indent (Piece.after ['-', ' '] (itemPiece indent item))) rest

/-- Members on lines of their own behind a piece. -/
def membersPiece (indent : Nat) (before : Piece) : Table Json → Piece
  | [] => before
  | (key, value) :: rest =>
    membersPiece indent (before.nextLine indent (memberPiece indent key value)) rest
end

/-- A value at the beginning of a text. -/
def documentPiece : Json → Piece
  | .array (item :: rest) => itemsPiece 0 (Piece.after ['-', ' '] (itemPiece 0 item)) rest
  | .object ((key, value) :: rest) => membersPiece 0 (memberPiece 0 key value) rest
  | scalar => scalarPiece 0 scalar

/-- The text of a value, with a line break at its end. -/
def print (value : Json) : String :=
  let p := documentPiece value
  String.ofList (if p.atLineStart then p.chars else p.chars ++ ['\n'])

end Yaml

end RouteManifest
