import RouteManifest.Location

/-!
# The order of paths and locations

Comparing paths and locations is transitive, and two that compare as equal are one path, or one location,
however they are written. Both comparisons are lexicographic, so this is known of them as soon as they are
written as such.
-/

namespace RouteManifest

namespace Component

/-- The kind counts first, then the name. -/
theorem compare_eq :
    Component.compare = compareLex (compareOn rank) (compareOn fun c => c.name?.getD "") := by
  funext a b
  cases a <;> cases b <;> rfl

instance : Std.TransCmp Component.compare := by
  rw [compare_eq]
  infer_instance

instance : Std.LawfulEqCmp Component.compare where
  compare_self := by
    intro a
    rw [compare_eq]
    exact Std.ReflCmp.compare_self
  eq_of_compare := by
    intro a b h
    cases a <;> cases b <;> first | rfl | cases h | skip
    rw [Std.LawfulEqOrd.eq_of_compare h]

end Component

namespace Path

theorem compareComponents_eq : compareComponents = List.compareLex Component.compare := by
  funext a b
  induction a generalizing b with
  | nil => cases b <;> rfl
  | cons x rest ih =>
    cases b with
    | nil => rfl
    | cons y others =>
      rw [compareComponents, List.compareLex_cons_cons, ih]

instance : Std.TransCmp Path.compare where
  eq_swap := by
    intro p q
    rw [compare, compare, compareComponents_eq]
    exact Std.OrientedCmp.eq_swap
  isLE_trans := by
    intro p q s
    rw [compare, compare, compare, compareComponents_eq]
    exact Std.TransCmp.isLE_trans

/-- Paths that compare as equal are one path. -/
theorem compare_eq_iff {p q : Path} : p.compare q = .eq ↔ p.same q = true := by
  rw [compare, compareComponents_eq, same, beq_iff_eq]
  constructor
  · exact Std.LawfulEqCmp.eq_of_compare
  · rintro h
    rw [h]
    exact Std.ReflCmp.compare_self

theorem same_iff {p q : Path} : p.same q = true ↔ p.components = q.components := by
  rw [same, beq_iff_eq]

theorem same_comm {p q : Path} (h : p.same q = true) : q.same p = true :=
  same_iff.mpr (same_iff.mp h).symm

end Path

namespace Location

theorem compare_eq :
    Location.compare = compareLex (fun a b => a.unit.compare b.unit)
      (compareLex (compareOn Location.line) (compareOn Location.column)) := rfl

instance : Std.TransCmp fun a b : Location => a.unit.compare b.unit where
  eq_swap := fun {_ _} => @Std.OrientedCmp.eq_swap Path Path.compare _ _ _
  isLE_trans := fun {_ _ _} => @Std.TransCmp.isLE_trans Path Path.compare _ _ _ _

instance : Std.TransCmp Location.compare := by
  rw [compare_eq]
  infer_instance

/-- Locations that compare as equal are one location. -/
theorem compare_eq_iff {a b : Location} : a.compare b = .eq ↔ a.same b = true := by
  rw [compare_eq, compareLex_eq_eq, compareLex_eq_eq, Path.compare_eq_iff, same]
  simp [compareOn, and_assoc]

end Location

end RouteManifest
