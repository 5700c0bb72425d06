import RouteManifest.Pattern.CharSet

/-!
# Regular expressions

A match of an expression is found by trying its alternatives in order: the first that leads to a match of
the whole wins, even if a later one would be longer. `Regex.ends` gives the positions at which an
expression can stop when it starts at a given one, in that order and each once. What comes behind an
expression depends only on where it stopped, so the first occurrence of a position is all that matters.

An iteration of a repetition that consumes nothing ends the repetition.
-/

namespace RouteManifest

/-- A condition on a place between two characters. -/
inductive Anchor where
  | textStart | textEnd
  | lineStart | lineEnd
  | wordBoundary | notWordBoundary
  | wordStart | wordEnd
deriving DecidableEq, Repr

/-- A regular expression. -/
inductive Regex where
  | empty
  | chars (set : CharSet)
  | anchor (a : Anchor)
  | concat (a b : Regex)
  /-- the first alternative is preferred -/
  | alternative (a b : Regex)
  /-- at least `min` times, at most `min + extra` times if there is a bound -/
  | repetition (a : Regex) (min : Nat) (extra : Option Nat) (greedy : Bool)
deriving Repr, Inhabited

namespace Anchor

/-- Whether the condition holds at a position of a text. -/
def holds (a : Anchor) (text : Array Char) (pos : Nat) : Bool :=
  let before : Option Char := if pos = 0 then none else text[pos - 1]?
  let after : Option Char := text[pos]?
  let inWord (c : Option Char) : Bool := c.any Text.isWordPart
  match a with
  | .textStart => pos == 0
  | .textEnd => pos == text.size
  | .lineStart => before.all (· == '\n')
  | .lineEnd => after.all (· == '\n')
  | .wordBoundary => inWord before != inWord after
  | .notWordBoundary => inWord before == inWord after
  | .wordStart => !inWord before && inWord after
  | .wordEnd => inWord before && !inWord after

end Anchor

namespace Regex

/-- Positions in order of preference, each once. -/
def distinct (l : List Nat) : List Nat := l.eraseDups

/-- The positions that a repetition has been at, and those it can stop at, last first. -/
structure Visits where
  seen : List Nat := []
  stops : List Nat := []

/-- Stops at a position. -/
def Visits.stop (v : Visits) (pos : Nat) : Visits :=
  if v.stops.contains pos then v else { v with stops := pos :: v.stops }

/-- Repeats a step as often as it moves forward. `fuel` bounds the number of iterations. -/
def iterate (step : Nat → List Nat) (greedy : Bool) : Nat → Nat → Visits → Visits
  | 0, _, v => v
  | fuel + 1, pos, v =>
    if v.seen.contains pos then v
    else
      let v := { v with seen := pos :: v.seen }
      let v := if greedy then v else v.stop pos
      let v := (step pos).foldl (fun v next => if next ≤ pos then v.stop pos else iterate step greedy fuel next v) v
      v.stop pos

/-- A step repeated exactly `n` times. -/
def times (step : Nat → List Nat) : Nat → Nat → List Nat
  | 0, pos => [pos]
  | n + 1, pos => distinct ((step pos).flatMap (times step n))

/-- A step repeated at most `n` times. -/
def atMost (step : Nat → List Nat) (greedy : Bool) : Nat → Nat → List Nat
  | 0, pos => [pos]
  | n + 1, pos =>
    let more := (step pos).flatMap (atMost step greedy n)
    distinct (if greedy then more ++ [pos] else pos :: more)

/-- The positions at which an expression can stop, preferred ones first. -/
def ends (text : Array Char) : Regex → Nat → List Nat
  | .empty, pos => [pos]
  | .chars set, pos =>
    match text[pos]? with
    | some c => if set.contains c then [pos + 1] else []
    | none => []
  | .anchor a, pos => if a.holds text pos then [pos] else []
  | .concat a b, pos => distinct ((ends text a pos).flatMap (ends text b))
  | .alternative a b, pos => distinct (ends text a pos ++ ends text b pos)
  | .repetition a min (some extra) greedy, pos =>
    distinct ((times (ends text a) min pos).flatMap (atMost (ends text a) greedy extra))
  | .repetition a min none greedy, pos =>
    distinct ((times (ends text a) min pos).flatMap fun p =>
      (iterate (ends text a) greedy (text.size + 1) p {}).stops.reverse)

/-- The first match: the leftmost, and of those the preferred. -/
def find? (r : Regex) (text : Array Char) : Option (Nat × Nat) :=
  (List.range (text.size + 1)).findSome? fun pos => (r.ends text pos).head?.map fun stop => (pos, stop)

/-- The text without its first match. -/
def removeFirst (r : Regex) (text : String) : String :=
  let cs := text.toList
  match r.find? cs.toArray with
  | some (start, stop) => String.ofList (cs.take start ++ cs.drop stop)
  | none => text

end Regex

end RouteManifest
