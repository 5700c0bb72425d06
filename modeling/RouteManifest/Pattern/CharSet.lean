import RouteManifest.Text.Blank
import RouteManifest.Text.Case

/-!
# Sets of characters

The sets that a pattern can name, as expressions. `CharSet.contains` says what they mean; ranges, digits,
blanks and words are taken from all scripts, and `anyCase` closes a set under the choice of case.
-/

namespace RouteManifest

/-- A set of characters. -/
inductive CharSet where
  | none
  | range (low high : Char)
  /-- decimal digits of any script -/
  | decimal
  | blank
  /-- letters, marks, digits and connectors -/
  | wordPart
  | union (a b : CharSet)
  | inter (a b : CharSet)
  | compl (a : CharSet)
  /-- characters of which some case form is in the set -/
  | anyCase (a : CharSet)
deriving Repr

namespace CharSet

/-- The case forms of a character that are single characters, itself first. -/
def caseForms (c : Char) : List Char :=
  let small := match Text.smallForm c with
    | [d] => d
    | _ => c
  let capital := match Text.capitalForm c with
    | [d] => d
    | _ => c
  [c, small, capital]

/-- Whether a character is in the set. -/
def contains : CharSet → Char → Bool
  | .none, _ => false
  | .range low high, c => low ≤ c && c ≤ high
  | .decimal, c => Text.isDecimal c
  | .blank, c => Text.isBlank c
  | .wordPart, c => Text.isWordPart c
  | .union a b, c => a.contains c || b.contains c
  | .inter a b, c => a.contains c && b.contains c
  | .compl a, c => !a.contains c
  | .anyCase a, c => (caseForms c).any a.contains

/-- The set of one character. -/
def single (c : Char) : CharSet := .range c c

/-- The union of ranges. -/
def ranges : List (Char × Char) → CharSet
  | [] => .none
  | [(low, high)] => .range low high
  | (low, high) :: rest => .union (.range low high) (ranges rest)

/-- The sets with names of their own, all of them within ASCII. -/
def named? : String → Option CharSet
  | "alnum" => some (ranges [('0', '9'), ('A', 'Z'), ('a', 'z')])
  | "alpha" => some (ranges [('A', 'Z'), ('a', 'z')])
  | "ascii" => some (.range '\x00' '\x7f')
  | "blank" => some (ranges [('\t', '\t'), (' ', ' ')])
  | "cntrl" => some (ranges [('\x00', '\x1f'), ('\x7f', '\x7f')])
  | "digit" => some (.range '0' '9')
  | "graph" => some (.range '!' '~')
  | "lower" => some (.range 'a' 'z')
  | "print" => some (.range ' ' '~')
  | "punct" => some (ranges [('!', '/'), (':', '@'), ('[', '\x60'), ('\x7b', '~')])
  | "space" => some (ranges [('\t', '\r'), (' ', ' ')])
  | "upper" => some (.range 'A' 'Z')
  | "word" => some (ranges [('0', '9'), ('A', 'Z'), ('_', '_'), ('a', 'z')])
  | "xdigit" => some (ranges [('0', '9'), ('A', 'F'), ('a', 'f')])
  | _ => none

end CharSet

end RouteManifest
