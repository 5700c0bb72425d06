import Mathlib.Data.List.Induction
import Mathlib.Data.List.Nodup
import RouteManifest.Proofs.Location
import RouteManifest.TypeExpr.Catalog

/-!
# What a name means

A lookup goes through the declarations one by one and keeps the better of two. `Declaration.precedes` is
the strict part of an order, so what is left at the end precedes all others of the name, wherever it stands
in the catalog (`Catalog.Distinct.lookup?_eq_some`). It follows that catalogs with the same declarations give a name
the same meaning.

The order depends on who asks: declarations of the file come before all others, and among these the location decides.
Two declarations of one name at one location cannot be told apart by it, so the results here are for catalogs without
such (`Catalog.Distinct`).
-/

namespace RouteManifest

/-! ## The order of declarations

Locations are compared lexicographically, so that this is the comparison of one key. Two declarations that are not told
apart by it stand at one location. -/

namespace Declaration

/-- Declarations of the file come first, then the order is that of locations. -/
def order (unit : Path) : Declaration → Declaration → Ordering :=
  compareLex (compareOn fun d => !d.location.unit.same unit) fun d e => d.location.compare e.location

instance : Std.TransCmp fun d e : Declaration => d.location.compare e.location where
  eq_swap := fun {_ _} => @Std.OrientedCmp.eq_swap Location Location.compare _ _ _
  isLE_trans := fun {_ _ _} => @Std.TransCmp.isLE_trans Location Location.compare _ _ _ _

instance (unit : Path) : Std.TransCmp (order unit) := by
  rw [order]
  infer_instance

/-- To precede is to come first in the order. -/
theorem precedes_iff {unit : Path} {d e : Declaration} : d.precedes unit e = true ↔ order unit d e = .lt := by
  rw [precedes, order, compareLex, compareOn]
  rcases d.location.unit.same unit <;> rcases e.location.unit.same unit
  · exact beq_iff_eq
  · exact ⟨fun h => (by cases h), fun h => (by cases h)⟩
  · exact ⟨fun _ => rfl, fun _ => rfl⟩
  · exact beq_iff_eq

/-- What precedes one that precedes another precedes that one. -/
theorem precedes_trans {unit : Path} {d e f : Declaration} (h : d.precedes unit e = true)
    (h' : e.precedes unit f = true) : d.precedes unit f = true :=
  precedes_iff.mpr (Std.TransCmp.lt_trans (precedes_iff.mp h) (precedes_iff.mp h'))

/-- No two declarations precede each other. -/
theorem precedes_asymm {unit : Path} {d e : Declaration} (h : d.precedes unit e = true) :
    ¬e.precedes unit d = true :=
  fun h' => Std.OrientedCmp.not_lt_of_lt (precedes_iff.mp h) (precedes_iff.mp h')

/-- Of two declarations at different locations one precedes the other. -/
theorem precedes_or_precedes (unit : Path) {d e : Declaration} (h : ¬d.location.same e.location = true) :
    d.precedes unit e = true ∨ e.precedes unit d = true := by
  rw [precedes_iff, precedes_iff]
  rcases hord : order unit d e with _ | _ | _
  · exact Or.inl rfl
  · rw [order, compareLex_eq_eq, Location.compare_eq_iff] at hord
    exact absurd hord.2 h
  · exact Or.inr (Std.OrientedCmp.lt_of_gt hord)

end Declaration

namespace Catalog

/-- No two declarations share both name and location. -/
def Distinct (c : Catalog) : Prop :=
  c.declarations.Pairwise fun d e => ¬(d.name = e.name ∧ d.location.same e.location = true)

/-- A location is the same as itself. -/
theorem location_same_self (l : Location) : l.same l = true :=
  Location.compare_eq_iff.mp Std.ReflCmp.compare_self

/-- Being the same location goes both ways. -/
theorem location_same_comm {a b : Location} (h : a.same b = true) : b.same a = true :=
  Location.compare_eq_iff.mp (Std.OrientedCmp.eq_symm (Location.compare_eq_iff.mpr h))

variable {c : Catalog}

/-- No declaration stands at two positions. -/
theorem Distinct.get_injective (h : c.Distinct) : Function.Injective c.get :=
  List.nodup_iff_injective_get.mp <| List.Pairwise.imp (fun hne heq => hne (by
    rw [heq]
    exact ⟨rfl, location_same_self _⟩)) h

theorem get_mem (c : Catalog) (i : Fin c.size) : c.get i ∈ c.declarations := List.get_mem _ _

/-- Declarations of one name at one location are one. -/
theorem Distinct.eq_of_same (h : c.Distinct) {i j : Fin c.size} (hname : (c.get i).name = (c.get j).name)
    (hloc : (c.get i).location.same (c.get j).location = true) : i = j := by
  by_contra hne
  rcases Nat.lt_or_gt_of_ne (fun he => hne (Fin.ext he)) with hlt | hlt
  · exact List.pairwise_iff_getElem.mp h i j i.isLt j.isLt hlt ⟨hname, hloc⟩
  · exact List.pairwise_iff_getElem.mp h j i j.isLt i.isLt hlt ⟨hname.symm, location_same_comm hloc⟩

/-! ## Lookups

The fold keeps the best declaration so far. What it has gone through is a list that grows at the end, so the invariant
is about that list, and in the end about all declarations. -/

/-- A declaration comes before all others of its name among some. -/
def IsBest (c : Catalog) (name : String) (unit : Path) (l : List (Fin c.size)) (i : Fin c.size) : Prop :=
  (c.get i).name = name ∧
    ∀ j ∈ l, (c.get j).name = name → j = i ∨ (c.get i).precedes unit (c.get j) = true

/-- One step of a lookup. -/
theorem Distinct.isBest_better (h : c.Distinct) {name : String} {unit : Path} {l : List (Fin c.size)}
    {best : Option (Fin c.size)} (hnone : best = none → ∀ j ∈ l, (c.get j).name ≠ name)
    (hsome : ∀ i, best = some i → c.IsBest name unit l i) (k : Fin c.size) :
    (c.better name unit best k = none → ∀ j ∈ l ++ [k], (c.get j).name ≠ name) ∧
      ∀ i, c.better name unit best k = some i → c.IsBest name unit (l ++ [k]) i := by
  have hmem {j : Fin c.size} : j ∈ l ++ [k] ↔ j ∈ l ∨ j = k := by simp
  unfold better
  by_cases hk : (c.get k).name = name
  · rw [if_neg (not_not.mpr hk)]
    -- the first declaration of the name is the best so far
    rcases best with _ | i
    · refine ⟨fun hb => (by cases hb), fun i hi => ?_⟩
      obtain rfl := Option.some.inj hi
      refine ⟨hk, fun j hj hname => ?_⟩
      rcases hmem.mp hj with hj | rfl
      · exact absurd hname (hnone rfl j hj)
      · exact Or.inl rfl
    · obtain ⟨hi, hbest⟩ := hsome i rfl
      simp only
      by_cases hpre : (c.get k).precedes unit (c.get i) = true
      · rw [if_pos hpre]
        refine ⟨fun hb => (by cases hb), fun i' hi' => ?_⟩
        obtain rfl := Option.some.inj hi'
        refine ⟨hk, fun j hj hname => ?_⟩
        rcases hmem.mp hj with hj | rfl
        · rcases hbest j hj hname with rfl | hj
          · exact Or.inr hpre
          · exact Or.inr (Declaration.precedes_trans hpre hj)
        · exact Or.inl rfl
      · rw [if_neg hpre]
        refine ⟨fun hb => (by cases hb), fun i' hi' => ?_⟩
        obtain rfl := Option.some.inj hi'
        refine ⟨hi, fun j hj hname => ?_⟩
        rcases hmem.mp hj with hj | rfl
        · exact hbest j hj hname
        · -- two of one name are written in different places, so one of them comes first
          by_cases hloc : (c.get i).location.same (c.get j).location = true
          · exact Or.inl (h.eq_of_same (hi.trans hname.symm) hloc).symm
          · exact Or.inr ((Declaration.precedes_or_precedes unit hloc).resolve_right hpre)
  · rw [if_pos hk]
    refine ⟨fun hb j hj => ?_, fun i hi => ?_⟩
    · rcases hmem.mp hj with hj | rfl
      · exact hnone hb j hj
      · exact hk
    · obtain ⟨hname, hbest⟩ := hsome i hi
      refine ⟨hname, fun j hj hj' => ?_⟩
      rcases hmem.mp hj with hj | rfl
      · exact hbest j hj hj'
      · exact absurd hj' hk

/-- After going through some declarations the best of the name is left, if there is any. -/
theorem Distinct.foldl_better (h : c.Distinct) (name : String) (unit : Path) (l : List (Fin c.size)) :
    (l.foldl (c.better name unit) none = none → ∀ j ∈ l, (c.get j).name ≠ name) ∧
      ∀ i, l.foldl (c.better name unit) none = some i → c.IsBest name unit l i := by
  induction l using List.reverseRecOn with
  | nil => exact ⟨fun _ _ hj => (by cases hj), fun _ hi => (by cases hi)⟩
  | append_singleton l k ih =>
    rw [List.foldl_append]
    exact h.isBest_better ih.1 ih.2 k

/-- What a name means in a file depends on which of its declarations are in that file, and on nothing else. -/
theorem lookup?_congr {name : String} {u v : Path}
    (h : ∀ d ∈ c.declarations, d.name = name → d.location.unit.same u = d.location.unit.same v) :
    c.lookup? name u = c.lookup? name v := by
  -- the best so far is a declaration of the name, so both files compare it alike with the next one
  have hbetter (l : List (Fin c.size)) (best : Option (Fin c.size)) (hbest : ∀ j ∈ best, (c.get j).name = name) :
      l.foldl (c.better name u) best = l.foldl (c.better name v) best := by
    induction l generalizing best with
    | nil => rfl
    | cons i l ih =>
      have hstep : c.better name u best i = c.better name v best i := by
        unfold better
        split
        · rfl
        next hname =>
          cases best with
          | none => rfl
          | some j =>
            have hi := h _ (c.get_mem i) (not_not.mp hname)
            have hj := h _ (c.get_mem j) (hbest j rfl)
            have hprecedes : (c.get i).precedes u (c.get j) = (c.get i).precedes v (c.get j) := by
              rw [Declaration.precedes, Declaration.precedes, hi, hj]
            simp only [hprecedes]
      rw [List.foldl_cons, List.foldl_cons, hstep]
      refine ih _ fun j hj => ?_
      unfold better at hj
      split at hj
      · exact hbest j hj
      next hname =>
        have hname := not_not.mp hname
        rcases best with _ | k
        · exact Option.some.inj hj ▸ hname
        · simp only at hj
          split at hj <;> cases hj
          · exact hname
          · exact hbest _ rfl
  exact hbetter _ _ nofun

/-- A name that means nothing is declared nowhere. -/
theorem Distinct.lookup?_eq_none (h : c.Distinct) {name : String} {unit : Path}
    (hnone : c.lookup? name unit = none) : ∀ d ∈ c.declarations, d.name ≠ name := by
  intro d hd
  obtain ⟨i, rfl⟩ := List.mem_iff_get.mp hd
  exact (h.foldl_better name unit _).1 hnone i (List.mem_finRange i)

/-- What a name means comes before all other declarations of the name. -/
theorem Distinct.lookup?_eq_some (h : c.Distinct) {name : String} {unit : Path} {i : Fin c.size}
    (hsome : c.lookup? name unit = some i) :
    (c.get i).name = name ∧
      ∀ d ∈ c.declarations, d.name = name → d = c.get i ∨ (c.get i).precedes unit d = true := by
  obtain ⟨hname, hbest⟩ := (h.foldl_better name unit _).2 i hsome
  refine ⟨hname, fun d hd hd' => ?_⟩
  obtain ⟨j, rfl⟩ := List.mem_iff_get.mp hd
  rcases hbest j (List.mem_finRange j) hd' with rfl | hj
  · exact Or.inl rfl
  · exact Or.inr hj

/-! ### Names that are declared once

Where no name is declared twice, neither the file nor the location has a say. -/

section Nodup

variable (hc : (c.declarations.map Declaration.name).Nodup)
include hc

/-- Declarations of different names need no locations to be told apart. -/
theorem distinct_of_nodup : c.Distinct := (List.pairwise_map.mp hc).imp fun hne heq => hne heq.1

/-- A name belongs to one position. -/
theorem eq_of_name_eq {i j : Fin c.size} (h : (c.get i).name = (c.get j).name) : i = j :=
  (distinct_of_nodup hc).get_injective (List.inj_on_of_nodup_map hc (c.get_mem i) (c.get_mem j) h)

/-- The name of a declaration means that declaration everywhere. -/
theorem lookup?_name (i : Fin c.size) (unit : Path) : c.lookup? (c.get i).name unit = some i := by
  rcases h : c.lookup? (c.get i).name unit with _ | j
  · exact absurd rfl ((distinct_of_nodup hc).lookup?_eq_none h _ (c.get_mem i))
  · exact congrArg some (eq_of_name_eq hc ((distinct_of_nodup hc).lookup?_eq_some h).1)

/-- A name means the same in all files. -/
theorem lookup?_eq (name : String) (u v : Path) : c.lookup? name u = c.lookup? name v := by
  rcases h : c.lookup? name v with _ | i
  · rcases h' : c.lookup? name u with _ | i
    · rfl
    · exact absurd ((distinct_of_nodup hc).lookup?_eq_some h').1
        ((distinct_of_nodup hc).lookup?_eq_none h _ (c.get_mem i))
  · rw [← ((distinct_of_nodup hc).lookup?_eq_some h).1, lookup?_name hc]

end Nodup

end Catalog

/-! ## Catalogs with the same declarations

Two catalogs with the same declarations in another order find the same declaration for a name, at another position. -/

/-- Two catalogs that differ in the order of their declarations alone. -/
structure Catalog.Reordered (c c' : Catalog) : Prop where
  perm : c.declarations.Perm c'.declarations
  distinct : c.Distinct

namespace Catalog.Reordered

variable {c c' : Catalog}

/-- Nothing is lost or repeated in another order, so the other catalog is distinct as well. -/
theorem distinct' (h : c.Reordered c') : c'.Distinct := by
  refine h.perm.pairwise h.distinct fun {d e} hne heq => hne ⟨heq.1.symm, ?_⟩
  exact location_same_comm heq.2

/-- A name means one declaration in both. -/
theorem lookup? (h : c.Reordered c') (name : String) (unit : Path) :
    (c.lookup? name unit = none ∧ c'.lookup? name unit = none) ∨
      ∃ i j, c.lookup? name unit = some i ∧ c'.lookup? name unit = some j ∧ c.get i = c'.get j := by
  rcases hc : c.lookup? name unit with _ | i
  · rcases hc' : c'.lookup? name unit with _ | j
    · exact Or.inl ⟨rfl, rfl⟩
    · have hmem := h.perm.symm.subset (c'.get_mem j)
      exact absurd (h.distinct'.lookup?_eq_some hc').1 (h.distinct.lookup?_eq_none hc _ hmem)
  · obtain ⟨hi, hbest⟩ := h.distinct.lookup?_eq_some hc
    rcases hc' : c'.lookup? name unit with _ | j
    · exact absurd hi (h.distinct'.lookup?_eq_none hc' _ (h.perm.subset (c.get_mem i)))
    · obtain ⟨hj, hbest'⟩ := h.distinct'.lookup?_eq_some hc'
      refine Or.inr ⟨i, j, rfl, rfl, ?_⟩
      rcases hbest _ (h.perm.symm.subset (c'.get_mem j)) hj with heq | hpre
      · exact heq.symm
      · rcases hbest' _ (h.perm.subset (c.get_mem i)) hi with heq | hpre'
        · exact heq
        · exact absurd hpre' (Declaration.precedes_asymm hpre)

/-- A name that means nothing in the one means nothing in the other. -/
theorem lookup?_eq_none (h : c.Reordered c') {name : String} {unit : Path} (hnone : c.lookup? name unit = none) :
    c'.lookup? name unit = none := by
  rcases h.lookup? name unit with ⟨-, h'⟩ | ⟨i, -, hi, -, -⟩
  · exact h'
  · rw [hnone] at hi
    cases hi

/-- A name that means a declaration in the one means the same declaration in the other, at its position there. -/
theorem lookup?_eq_some (h : c.Reordered c') {name : String} {unit : Path} {i : Fin c.size}
    (hsome : c.lookup? name unit = some i) : ∃ j, c'.lookup? name unit = some j ∧ c.get i = c'.get j := by
  rcases h.lookup? name unit with ⟨h', -⟩ | ⟨i', j, hi, hj, hij⟩
  · rw [hsome] at h'
    cases h'
  · rw [hsome] at hi
    obtain rfl := Option.some.inj hi
    exact ⟨j, hj, hij⟩

end Catalog.Reordered

end RouteManifest
