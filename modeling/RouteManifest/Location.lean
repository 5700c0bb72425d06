import RouteManifest.Path

/-!
# Locations

Where a declaration, a handler or a parameter was found: a source file and a position in it. Locations are
ordered by path, line and column, and shown as `path:line:column`.
-/

namespace RouteManifest

/-- A position in a source file. -/
structure Location where
  /-- the file, as it was given -/
  unit : Path
  /-- from one -/
  line : Nat
  /-- from zero, in characters -/
  column : Nat
deriving DecidableEq, Repr, Inhabited

namespace Location

/-- The location of a file as a whole. -/
def ofUnit (unit : Path) : Location := ⟨unit, 0, 0⟩

/-- Locations compare by path, line and column. -/
def compare (a b : Location) : Ordering :=
  (a.unit.compare b.unit).then ((Ord.compare a.line b.line).then (Ord.compare a.column b.column))

/-- One position, however its path is written. -/
def same (a b : Location) : Bool := a.unit.same b.unit && a.line == b.line && a.column == b.column

/-- The location as messages show it. -/
def text (l : Location) : String := l.unit.text ++ ":" ++ toString l.line ++ ":" ++ toString l.column

end Location

end RouteManifest
