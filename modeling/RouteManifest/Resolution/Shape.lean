import RouteManifest.TypeExpr.Catalog

/-!
# The shape of a type

A parameter that nobody marked is bound by its shape: a scalar can stand in a path or a query, an object or
a collection cannot. Names are followed through the catalog, and a union is structured if one of its
variants is.

The search keeps a list of expressions still to look at and the declarations it has been to. Coming to a
declaration for the second time counts as structured: only a type that holds itself can do that on a single
chain of names.
-/

namespace RouteManifest

/-- What kind of value a type describes. -/
inductive Shape where
  | scalar
  /-- an object or a collection -/
  | structured
deriving DecidableEq, Repr

namespace Shape

/-- The name of the shape. -/
def text : Shape → String
  | .scalar => "scalar"
  | .structured => "structured"

end Shape

namespace Catalog

variable {c : Catalog}

/-- How many declarations the search has not been to. -/
def unvisited (visited : List (Fin c.size)) : Nat :=
  (List.finRange c.size).countP fun i => !visited.contains i

theorem unvisited_cons_lt {visited : List (Fin c.size)} {i : Fin c.size} (h : ¬visited.contains i = true) :
    unvisited (i :: visited) < unvisited visited := by
  refine countP_lt_countP (a := i) (fun j => ?_) (List.mem_finRange i) (by simpa using h) (by simp)
  simp only [List.contains_cons]
  cases visited.contains j <;> simp

/-- The size of the expressions still to look at. -/
noncomputable def workSize : List (TypeExpr × Path) → Nat
  | [] => 0
  | (e, _) :: rest => sizeOf e + 1 + workSize rest

theorem workSize_append (a b : List (TypeExpr × Path)) : workSize (a ++ b) = workSize a + workSize b := by
  induction a with
  | nil => simp [workSize]
  | cons x rest ih => obtain ⟨e, u⟩ := x; simp [workSize, ih]; omega

/-- Expressions that are all written in one file. -/
def within (unit : Path) (l : List TypeExpr) : List (TypeExpr × Path) := l.map fun e => (e, unit)

theorem workSize_within (unit : Path) (l : List TypeExpr) : workSize (within unit l) < sizeOf l + 1 := by
  induction l with
  | nil => simp [within, workSize]
  | cons e rest ih =>
    simp only [within, List.map_cons, workSize, List.cons.sizeOf_spec] at ih ⊢
    omega

/-- Whether one of the expressions, each written in a file, is structured. -/
def anyStructured (c : Catalog) (visited : List (Fin c.size)) : List (TypeExpr × Path) → Bool
  | [] => false
  | (e, unit) :: rest =>
    match e with
    | .object _ _ | .map _ | .array _ | .tuple _ | .intersection _ => true
    | .union variants => anyStructured c visited (within unit variants ++ rest)
    | .reference name | .generic name _ =>
      match c.lookup? name unit with
      | none => anyStructured c visited rest
      | some i =>
        if _h : visited.contains i = true then true
        else anyStructured c (i :: visited) (((c.get i).body, (c.get i).location.unit) :: rest)
    | .primitive _ | .enumeration _ | .literal _ | .typeParameter _ | .callable =>
      anyStructured c visited rest
termination_by work => (unvisited visited, workSize work)
decreasing_by
  · apply Prod.Lex.right
    have := workSize_within unit variants
    simp only [workSize_append, workSize, TypeExpr.union.sizeOf_spec]
    omega
  all_goals first
    | exact Prod.Lex.left _ _ (unvisited_cons_lt _h)
    | exact Prod.Lex.right _ (by simp only [workSize]; omega)

/-- The shape of an expression written in a file. -/
def shapeOf (c : Catalog) (e : TypeExpr) (unit : Path) : Shape :=
  if c.anyStructured [] [(e, unit)] then .structured else .scalar

end Catalog

end RouteManifest
