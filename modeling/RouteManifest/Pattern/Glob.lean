/-!
# Glob patterns

A glob is matched against a whole path. `*` stands for any characters and `?` for any one character, a
slash included; `**` has to be a component of its own and stands for any number of whole components; a
bracket stands for one of the characters in it, or with `!` for any other.

Refused are three stars in a row, a `**` that is not a component of its own, and brackets without an end.
-/

namespace RouteManifest

/-- A piece of a glob. -/
inductive GlobToken where
  | char (c : Char)
  | anyChar
  | anySequence
  /-- any number of components with the slashes behind them -/
  | anyComponents
  | within (ranges : List (Char × Char))
  | outside (ranges : List (Char × Char))
deriving DecidableEq, Repr

/-- A glob pattern. -/
structure Glob where
  tokens : List GlobToken
deriving Repr

namespace Glob

/-! ## Reading -/

/-- The characters and ranges between brackets. -/
def ranges : List Char → List (Char × Char)
  | low :: '-' :: high :: rest => (low, high) :: ranges rest
  | c :: rest => (c, c) :: ranges rest
  | [] => []

/-- What stands between brackets, which is at least one character, and what comes behind. -/
def bracket? : List Char → Option (List (Char × Char) × List Char)
  | [] => none
  | first :: rest =>
    match rest.span (· != ']') with
    | (inside, _ :: rest) => some (ranges (first :: inside), rest)
    | _ => none

/-- The pieces of a pattern. `atStart` says that a component begins here. -/
def tokens? (fuel : Nat) (atStart : Bool) (cs : List Char) : Option (List GlobToken) :=
  match fuel with
  | 0 => none
  | fuel + 1 =>
    match cs with
    | [] => some []
    | '?' :: rest => (tokens? fuel false rest).map (.anyChar :: ·)
    | '*' :: '*' :: '*' :: _ => none
    | '*' :: '*' :: rest =>
      if !atStart then none
      else
        match rest with
        | [] => some [.anyComponents]
        | '/' :: rest => (tokens? fuel true rest).map (.anyComponents :: ·)
        | _ => none
    | '*' :: rest => (tokens? fuel false rest).map (.anySequence :: ·)
    | '[' :: '!' :: rest =>
      (bracket? rest).bind fun (set, rest) => (tokens? fuel false rest).map (.outside set :: ·)
    | '[' :: rest =>
      (bracket? rest).bind fun (set, rest) => (tokens? fuel false rest).map (.within set :: ·)
    | c :: rest => (tokens? fuel (c == '/') rest).map (.char c :: ·)

/-- The pattern that a text denotes. -/
def parse? (text : String) : Option Glob :=
  (tokens? (text.toList.length + 1) true text.toList).map Glob.mk

/-! ## Matching -/

/-- Whether a character lies in one of the ranges. -/
def inRanges (ranges : List (Char × Char)) (c : Char) : Bool := ranges.any fun (low, high) => low ≤ c && c ≤ high

/-- Whether a piece that stands for one character stands for this one. -/
def accepts : GlobToken → Char → Bool
  | .char d, c => d == c
  | .anyChar, _ => true
  | .within ranges, c => inRanges ranges c
  | .outside ranges, c => !inRanges ranges c
  | .anySequence, _ | .anyComponents, _ => false

/-- All ends of a text, the text itself first. -/
def endings : List Char → List (List Char)
  | [] => [[]]
  | c :: cs => (c :: cs) :: endings cs

/-- The ends of a text that begin behind a slash, and the empty one. -/
def endingsBehindSlash : List Char → List (List Char)
  | [] => [[]]
  | c :: cs => if c = '/' then cs :: endingsBehindSlash cs else endingsBehindSlash cs

/-- Whether the pieces stand for the text. -/
def matchTokens : List GlobToken → List Char → Bool
  | [], cs => cs.isEmpty
  | .anySequence :: rest, cs => (endings cs).any (matchTokens rest)
  | .anyComponents :: rest, cs => matchTokens rest cs || (endingsBehindSlash cs).any (matchTokens rest)
  | _ :: _, [] => false
  | token :: rest, c :: cs => accepts token c && matchTokens rest cs

/-- Whether the pattern stands for the path. -/
def isMatch (g : Glob) (path : String) : Bool := matchTokens g.tokens path.toList

end Glob

end RouteManifest
