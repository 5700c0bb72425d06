/-!
# Tokens of a source text

A source text is a sequence of words, marks, literals and delimiters. A word is an identifier or a keyword; a
raw identifier keeps its `r#`. A mark is one character, and whether another mark follows it at once: `::` is
two marks of which the first is joint.

Positions are counted the way messages show them: lines from one, columns from zero, in characters.
-/

namespace RouteManifest

namespace Source

/-- A place in a source text. -/
structure Position where
  line : Nat
  column : Nat
deriving DecidableEq, Repr, Inhabited

namespace Position

/-- Where a text begins. -/
def start : Position := ⟨1, 0⟩

/-- The place behind a character. -/
def after (p : Position) (c : Char) : Position :=
  if c = '\n' then ⟨p.line + 1, 0⟩ else ⟨p.line, p.column + 1⟩

end Position

/-- What a literal is good for. -/
inductive Literal where
  /-- a text, with its escapes resolved -/
  | text (value : String)
  | number
  /-- a character, a byte or a string of bytes -/
  | other
deriving DecidableEq, Repr

/-- The pairs of delimiters. -/
inductive Delimiter where
  | round | square | curly
deriving DecidableEq, Repr

/-- A token that is no delimiter. -/
inductive Token where
  | word (text : String)
  | lifetime
  | mark (c : Char) (joint : Bool)
  | literal (value : Literal)
deriving DecidableEq, Repr

/-- A token or one half of a pair of delimiters. -/
inductive Piece where
  | token (t : Token)
  | opening (d : Delimiter)
  | closing (d : Delimiter)
deriving DecidableEq, Repr

end Source

end RouteManifest
