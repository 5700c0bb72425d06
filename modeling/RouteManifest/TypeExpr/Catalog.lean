import RouteManifest.Location
import RouteManifest.TypeExpr.Basic

/-!
# The catalog of declarations

Every type declaration that a run can see. A name may be declared in several files; what it means depends
on the file it is written in: a declaration of that file comes first, and otherwise the one with the
smallest location, so that the order in which declarations were entered does not matter.
-/

namespace RouteManifest

/-- A named type. -/
structure Declaration where
  name : String
  typeParams : List String := []
  body : TypeExpr
  location : Location
  /-- an id the declaration insists on -/
  externalId : Option String := none

namespace Declaration

/-- The id that the declaration asks for. -/
def schemaName (d : Declaration) : String := d.externalId.getD d.name

/-- Whether a declaration is found before another of the same name when looked up from a file. -/
def precedes (unit : Path) (d e : Declaration) : Bool :=
  match d.location.unit.same unit, e.location.unit.same unit with
  | true, false => true
  | false, true => false
  | _, _ => d.location.compare e.location == .lt

end Declaration

/-- The declarations of a run. -/
structure Catalog where
  declarations : List Declaration := []

namespace Catalog

/-- Fewer elements satisfy the stronger of two tests if some element tells them apart. -/
theorem countP_lt_countP {α : Type} {p q : α → Bool} (imp : ∀ a, p a = true → q a = true) :
    ∀ {l : List α} {a : α}, a ∈ l → q a = true → p a = false → l.countP p < l.countP q
  | [], a, h, _, _ => absurd h (by simp)
  | b :: l, a, h, hq, hp => by
    have le : l.countP p ≤ l.countP q := List.countP_mono_left fun x _ hx => imp x hx
    rw [List.countP_cons, List.countP_cons]
    rcases List.mem_cons.1 h with rfl | h
    · simp [hq, hp]
      omega
    · have := countP_lt_countP imp h hq hp
      by_cases hb : p b = true
      · rw [if_pos hb, if_pos (imp b hb)]
        omega
      · rw [if_neg hb]
        split <;> omega

/-- How many declarations there are. -/
abbrev size (c : Catalog) : Nat := c.declarations.length

/-- A declaration by its position. -/
def get (c : Catalog) (i : Fin c.size) : Declaration := c.declarations.get i

/-- Adds declarations at the end. -/
def append (c : Catalog) (more : List Declaration) : Catalog := ⟨c.declarations ++ more⟩

/-- The better of the best position so far and a further one. -/
def better (c : Catalog) (name : String) (unit : Path) (best : Option (Fin c.size)) (i : Fin c.size) :
    Option (Fin c.size) :=
  if (c.get i).name ≠ name then best
  else
    match best with
    | none => some i
    | some j => if (c.get i).precedes unit (c.get j) then some i else some j

/-- The declaration that a name means when it is written in a file. -/
def lookup? (c : Catalog) (name : String) (unit : Path) : Option (Fin c.size) :=
  (List.finRange c.size).foldl (c.better name unit) none

end Catalog

end RouteManifest
