import RouteManifest.Source.Literal
import RouteManifest.Text.Blank
import RouteManifest.Text.Segments

/-!
# Lexer

A text is cut at its front: white space and comments are dropped, everything else becomes pieces. A comment
for documentation becomes the pieces of the attribute it stands for, `#[doc = "…"]`, or `#![doc = "…"]` if it
documents what it stands in; all of them stand where the comment begins.

Every cut takes at least one character, so a text is lexed within its length.
-/

namespace RouteManifest

namespace Source

/-! ## Blanks and comments -/

/-- White space between tokens, the two marks of writing direction included. -/
def isSpace (c : Char) : Bool := Text.isBlank c || c == '\u200e' || c == '\u200f'

/-- The characters up to the end of the line, which is a line feed with or without a carriage return. -/
def restOfLine : List Char → List Char
  | [] => []
  | '\n' :: _ => []
  | '\r' :: '\n' :: _ => []
  | c :: rest => c :: restOfLine rest

/-- The length of a block comment, in which others can be nested. -/
def blockLength? (depth : Nat) : List Char → Option Nat
  | [] => none
  | '/' :: '*' :: rest => (blockLength? (depth + 1) rest).map (· + 2)
  | '*' :: '/' :: rest =>
    if depth ≤ 1 then some 2 else (blockLength? (depth - 1) rest).map (· + 2)
  | _ :: rest => (blockLength? depth rest).map (· + 1)

/-- A block comment as it is written between its delimiters, without the character that makes it one for
documentation. -/
def blockBody (cs : List Char) (length : Nat) : List Char := (cs.take (length - 2)).drop 3

/-- Whether a carriage return stands without a line feed. -/
def hasLoneReturn : List Char → Bool
  | [] => false
  | '\r' :: '\n' :: rest => hasLoneReturn rest
  | '\r' :: _ => true
  | _ :: rest => hasLoneReturn rest

/-- The comment for documentation at the front of a text: whether it documents what it stands in, its text,
and its length. -/
def documentation? (cs : List Char) : Option (Bool × List Char × Nat) :=
  match cs with
  | '/' :: '/' :: '!' :: rest => some (true, restOfLine rest, 3 + (restOfLine rest).length)
  | '/' :: '*' :: '!' :: _ => (blockLength? 0 cs).map fun n => (true, blockBody cs n, n)
  | '/' :: '/' :: '/' :: '/' :: _ => none
  | '/' :: '/' :: '/' :: rest => some (false, restOfLine rest, 3 + (restOfLine rest).length)
  | '/' :: '*' :: '*' :: '*' :: _ => none
  | '/' :: '*' :: '*' :: '/' :: _ => none
  | '/' :: '*' :: '*' :: _ => (blockLength? 0 cs).map fun n => (false, blockBody cs n, n)
  | _ => none

/-- The length of the white space or ordinary comment at the front of a text. -/
def skipped? (cs : List Char) : Option Nat :=
  match cs with
  | '/' :: '/' :: rest =>
    if (documentation? cs).isSome then none else some (2 + (restOfLine rest).length)
  | '/' :: '*' :: _ => if (documentation? cs).isSome then none else blockLength? 0 cs
  | c :: _ => if isSpace c then some 1 else none
  | [] => none

/-! ## Marks and words -/

/-- The characters that are marks. -/
def markCharacters : List Char := "~!@#$%^&*-=+|;:,<.>/?'".toList

/-- Whether a mark stands at the front of a text. A slash that begins a comment is none. -/
def isMarkAhead : List Char → Bool
  | '/' :: '/' :: _ | '/' :: '*' :: _ => false
  | c :: _ => markCharacters.contains c
  | [] => false

/-- Words that have no raw form. -/
def unescapable : List String := ["_", "super", "self", "Self", "crate"]

/-- The length of a word or raw identifier. -/
def identifierLength? (cs : List Char) : Option Nat :=
  match cs with
  | 'r' :: '#' :: rest => do
    let n ← wordLength? rest
    if unescapable.contains (String.ofList (rest.take n)) then none else some (n + 2)
  | _ => wordLength? cs

/-- The length of a lifetime behind its apostrophe. A word between two apostrophes is none. -/
def lifetimeLength? (cs : List Char) : Option Nat := do
  let n ← identifierLength? cs
  match cs[n]? with
  | some '\'' => none
  | some '#' => if cs.take 2 = ['r', '#'] then some n else none
  | _ => some n

/-- What a literal begins with, and no word can. -/
def literalStarts : List String := ["r\"", "r#\"", "r##", "b\"", "b'", "br\"", "br#", "c\"", "cr\"", "cr#"]

/-- Whether a text begins like a literal whose beginning looks like a word. -/
def isLiteralStart (cs : List Char) : Bool :=
  literalStarts.any fun lead => (Text.dropLeading? lead.toList cs).isSome

/-! ## Cutting -/

/-- The delimiter that a character opens. -/
def opening? : Char → Option Delimiter
  | '(' => some .round
  | '[' => some .square
  | '{' => some .curly
  | _ => none

/-- The delimiter that a character closes. -/
def closing? : Char → Option Delimiter
  | ')' => some .round
  | ']' => some .square
  | '}' => some .curly
  | _ => none

/-- The attribute that a comment for documentation stands for. -/
def documentationPieces (inner : Bool) (text : List Char) : List Piece :=
  [.token (.mark '#' false)] ++ (if inner then [.token (.mark '!' false)] else [])
    ++ [.opening .square, .token (.word "doc"), .token (.mark '=' false),
      .token (.literal (.text (String.ofList text))), .closing .square]

/-- The token at the front of a text, and its length. -/
def token? (cs : List Char) : Option (Token × Nat) :=
  match literal? cs with
  | some (l, n) => some (.literal l, n)
  | none =>
    match cs with
    | [] => none
    | '\'' :: rest => (lifetimeLength? rest).map fun n => (.lifetime, n + 1)
    | c :: rest =>
      if isMarkAhead cs then some (.mark c (isMarkAhead rest), 1)
      else if isLiteralStart cs then none
      else (identifierLength? cs).map fun n => (.word (String.ofList (cs.take n)), n)

/-- What a text begins with: its pieces, and how many characters they take. -/
def cut? (cs : List Char) : Option (List Piece × Nat) :=
  match skipped? cs with
  | some n => some ([], n)
  | none =>
    match documentation? cs with
    | some (inner, text, n) =>
      if hasLoneReturn text then none else some (documentationPieces inner text, n)
    | none =>
      match cs with
      | [] => none
      | c :: _ =>
        match opening? c, closing? c with
        | some d, _ => some ([.opening d], 1)
        | none, some d => some ([.closing d], 1)
        | none, none => (token? cs).map fun (t, n) => ([.token t], n)

/-- The pieces of a text that begins at a place. -/
def piecesFrom (place : Position) : List Char → Option (List (Position × Piece))
  | [] => some []
  | c :: rest => do
    let (pieces, taken) ← cut? (c :: rest)
    let others ← piecesFrom (((c :: rest).take taken).foldl Position.after place) (rest.drop (taken - 1))
    return pieces.map (place, ·) ++ others
termination_by cs => cs.length
decreasing_by simp only [List.length_cons, List.length_drop]; omega

end Source

end RouteManifest
