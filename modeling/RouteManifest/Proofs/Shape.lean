import RouteManifest.Proofs.Resolution.Runs
import RouteManifest.Resolution.Shape

/-!
# What decides the shape of a type

The search behind `Catalog.shapeOf` looks into the variants of a union and into the declaration that a name stands
for. It keeps one list of the declarations it has been to for all branches, so a branch can be cut short by what an
earlier one came to. `anyStructured_eq_false_iff` takes the branches apart: a list of expressions is scalar just when
each of them is on its own and no two of them come to one declaration.

What the search can come to is said without the search, by the relation `Sees` on expressions and the files they are
written in. The laws of `anyStructured` then relate the two, and the shapes of unions follow: their order and their
nesting do not matter (`union_shape`).
-/

namespace RouteManifest

/-- An object or a collection. -/
def TypeExpr.IsCollection : TypeExpr → Prop
  | .object _ _ | .map _ | .array _ | .tuple _ | .intersection _ => True
  | _ => False

namespace Catalog

variable {c : Catalog}

/-! ## What the search comes to

Seeing goes from a union to its variants and from a name to the body of its declaration, any number of times. Arguments
are not followed, and nothing is seen behind an object. -/

/-- A name, in the file it is written in, stands for a declaration. -/
def StandsFor (c : Catalog) (x : TypeExpr × Path) (i : Fin c.size) : Prop :=
  ∃ name args, x.1.form = .named name args ∧ c.lookup? name x.2 = some i

/-- The search looks at one expression because of another one. -/
inductive LooksInto (c : Catalog) : TypeExpr × Path → TypeExpr × Path → Prop where
  | variant {variants : List TypeExpr} {v : TypeExpr} {unit : Path} :
      v ∈ variants → LooksInto c (.union variants, unit) (v, unit)
  | body {x : TypeExpr × Path} {i : Fin c.size} :
      c.StandsFor x i → LooksInto c x ((c.get i).body, (c.get i).location.unit)

/-- The search gets from one expression to another. -/
abbrev Sees (c : Catalog) : TypeExpr × Path → TypeExpr × Path → Prop := Relation.ReflTransGen c.LooksInto

/-- The search for the shape of an expression comes to a declaration. -/
def ComesTo (c : Catalog) (x : TypeExpr × Path) (i : Fin c.size) : Prop := ∃ y, c.Sees x y ∧ c.StandsFor y i

/-- A name stands for the declaration that is found from its file. -/
theorem standsFor_iff {e : TypeExpr} {name : String} {args : List TypeExpr} {unit : Path} {i : Fin c.size}
    (he : e.form = .named name args) : c.StandsFor (e, unit) i ↔ c.lookup? name unit = some i := by
  constructor
  · rintro ⟨_, _, he', hi⟩
    cases he.symm.trans he'
    exact hi
  · exact fun hi => ⟨name, args, he, hi⟩

/-- A union stands for no declaration; its variants may. -/
theorem not_standsFor_union {variants : List TypeExpr} {unit : Path} {i : Fin c.size} :
    ¬c.StandsFor (.union variants, unit) i := by
  rintro ⟨name, args, he, -⟩
  rcases TypeExpr.form_eq_named he with h | ⟨h, -⟩ <;> cases h

/-- Behind a union is what is behind its variants. -/
theorem sees_union_iff {variants : List TypeExpr} {unit : Path} {y : TypeExpr × Path} :
    c.Sees (.union variants, unit) y ↔ y = (.union variants, unit) ∨ ∃ v ∈ variants, c.Sees (v, unit) y := by
  constructor
  · intro h
    rcases h.cases_head with rfl | ⟨_, hstep, h⟩
    · exact Or.inl rfl
    · cases hstep with
      | variant hv => exact Or.inr ⟨_, hv, h⟩
      | body hi => exact absurd hi not_standsFor_union
  · rintro (rfl | ⟨v, hv, h⟩)
    · exact .refl
    · exact .head (.variant hv) h

/-- Behind a name is what is behind the body of its declaration. -/
theorem sees_named_iff {x y : TypeExpr × Path} {i : Fin c.size} (hi : c.StandsFor x i) :
    c.Sees x y ↔ y = x ∨ c.Sees ((c.get i).body, (c.get i).location.unit) y := by
  constructor
  · intro h
    rcases h.cases_head with rfl | ⟨_, hstep, h⟩
    · exact Or.inl rfl
    · cases hstep with
      | variant _ => exact absurd hi not_standsFor_union
      | body hj =>
        obtain ⟨name, args, he, hi⟩ := hi
        cases hi.symm.trans ((standsFor_iff he).mp hj)
        exact Or.inr h
  · rintro (rfl | h)
    · exact .refl
    · exact .head (.body hi) h

/-- From a union the search comes to what it comes to from a variant. -/
theorem comesTo_union_iff {variants : List TypeExpr} {unit : Path} {i : Fin c.size} :
    c.ComesTo (.union variants, unit) i ↔ ∃ v ∈ variants, c.ComesTo (v, unit) i := by
  constructor
  · rintro ⟨y, hy, hi⟩
    rcases sees_union_iff.mp hy with rfl | ⟨v, hv, hy⟩
    · exact absurd hi not_standsFor_union
    · exact ⟨v, hv, y, hy, hi⟩
  · rintro ⟨v, hv, y, hy, hi⟩
    exact ⟨y, .head (.variant hv) hy, hi⟩

/-- From a name it comes to the declaration, and on from its body. -/
theorem comesTo_named_iff {x : TypeExpr × Path} {i j : Fin c.size} (hi : c.StandsFor x i) :
    c.ComesTo x j ↔ j = i ∨ c.ComesTo ((c.get i).body, (c.get i).location.unit) j := by
  constructor
  · rintro ⟨y, hy, hj⟩
    rcases (sees_named_iff hi).mp hy with rfl | hy
    · obtain ⟨name, args, he, hi⟩ := hi
      exact Or.inl (Option.some.inj (((standsFor_iff he).mp hj).symm.trans hi))
    · exact Or.inr ⟨y, hy, hj⟩
  · rintro (rfl | ⟨y, hy, hj⟩)
    · exact ⟨x, .refl, hi⟩
    · exact ⟨y, .head (.body hi) hy, hj⟩

/-- Nothing lies behind an expression that is neither a union nor a declared name. -/
theorem sees_eq {x y : TypeExpr × Path} (hunion : ∀ variants, x.1 ≠ .union variants) (hname : ∀ i, ¬c.StandsFor x i)
    (h : c.Sees x y) : y = x := by
  rcases h.cases_head with rfl | ⟨_, hstep, -⟩
  · rfl
  · cases hstep with
    | variant _ => exact absurd rfl (hunion _)
    | body hi => exact absurd hi (hname _)

/-! ## The search

The search is recursive in the work that is left and in the declarations that were not visited yet. Its equations are
stated one per kind of expression first, and `search_induction` goes along them. -/

section Search

variable {visited : List (Fin c.size)} {work : List (TypeExpr × Path)}

/-- A search without work finds nothing. -/
theorem anyStructured_nil : c.anyStructured visited [] = false := by
  rw [anyStructured]

/-- A collection ends the search. -/
theorem anyStructured_collection {e : TypeExpr} {unit : Path} (he : e.IsCollection) :
    c.anyStructured visited ((e, unit) :: work) = true := by
  cases e with
  | object | map | array | tuple | intersection => rw [anyStructured]
  | _ => exact he.elim

/-- The variants of a union are looked at next. -/
theorem anyStructured_union {variants : List TypeExpr} {unit : Path} :
    c.anyStructured visited ((.union variants, unit) :: work) =
      c.anyStructured visited (within unit variants ++ work) := by
  rw [anyStructured]

/-- A declaration that has been visited ends the search as a collection does; any other is visited, and its body is
next. -/
theorem anyStructured_named {e : TypeExpr} {unit : Path} {i : Fin c.size} (hi : c.StandsFor (e, unit) i) :
    c.anyStructured visited ((e, unit) :: work) =
      (visited.contains i ||
        c.anyStructured (i :: visited) (((c.get i).body, (c.get i).location.unit) :: work)) := by
  obtain ⟨name, args, he, hi⟩ := hi
  rcases TypeExpr.form_eq_named he with rfl | ⟨rfl, -⟩ <;>
  · rw [anyStructured, hi]
    simp only
    split
    next h => rw [h, Bool.true_or]
    next h => rw [Bool.eq_false_iff.mpr h, Bool.false_or]

/-- Anything else is passed over. -/
theorem anyStructured_scalar {e : TypeExpr} {unit : Path} (he : ¬e.IsCollection)
    (hunion : ∀ variants, e ≠ .union variants) (hname : ∀ i, ¬c.StandsFor (e, unit) i) :
    c.anyStructured visited ((e, unit) :: work) = c.anyStructured visited work := by
  cases e with
  | object | map | array | tuple | intersection => exact absurd trivial he
  | union variants => exact absurd rfl (hunion variants)
  | primitive | enumeration | literal | typeParameter | callable => rw [anyStructured]
  | reference name | generic name args =>
    have hnone : c.lookup? name unit = none :=
      Option.eq_none_iff_forall_ne_some.mpr fun i hi => hname i ⟨name, _, rfl, hi⟩
    rw [anyStructured, hnone]

end Search

/-! ### Induction along the search

The cases are those of the equations above, with the hypothesis for the search that is left. -/

/-- The search by what it makes of the first expression. -/
theorem search_induction {P : List (Fin c.size) → List (TypeExpr × Path) → Prop}
    (nil : ∀ visited, P visited [])
    (collection : ∀ visited e unit work, e.IsCollection → P visited ((e, unit) :: work))
    (union : ∀ visited variants unit work, P visited (within unit variants ++ work) →
      P visited ((.union variants, unit) :: work))
    (again : ∀ visited e unit work i, c.StandsFor (e, unit) i → i ∈ visited → P visited ((e, unit) :: work))
    (name : ∀ visited e unit work i, c.StandsFor (e, unit) i → i ∉ visited →
      P (i :: visited) (((c.get i).body, (c.get i).location.unit) :: work) → P visited ((e, unit) :: work))
    (scalar : ∀ visited e unit work, ¬e.IsCollection → (∀ variants, e ≠ .union variants) →
      (∀ i, ¬c.StandsFor (e, unit) i) → P visited work → P visited ((e, unit) :: work))
    (visited : List (Fin c.size)) (work : List (TypeExpr × Path)) : P visited work := by
  induction visited, work using anyStructured.induct c with
  | case1 => exact nil _
  | case2 | case3 | case4 | case5 | case6 => exact collection _ _ _ _ trivial
  | case7 visited unit rest variants ih => exact union _ _ _ _ ih
  | case8 visited unit rest name' hnone ih | case11 visited unit rest name' _ hnone ih =>
    refine scalar _ _ _ _ id (fun _ h => by cases h) (fun i hi => ?_) ih
    rw [standsFor_iff rfl, hnone] at hi
    cases hi
  | case9 visited unit rest name' i hsome hmem | case12 visited unit rest name' _ i hsome hmem =>
    exact again _ _ _ _ i ⟨_, _, rfl, hsome⟩ (List.contains_iff_mem.mp hmem)
  | case10 visited unit rest name' i hsome hmem ih | case13 visited unit rest name' _ i hsome hmem ih =>
    exact name _ _ _ _ i ⟨_, _, rfl, hsome⟩ (fun h => hmem (List.contains_iff_mem.mpr h)) ih
  | case14 | case15 | case16 | case17 | case18 =>
    rename_i ih
    refine scalar _ _ _ _ id (fun _ h => by cases h) (fun i hi => ?_) ih
    obtain ⟨name', args, he, -⟩ := hi
    cases he

/-- What holds of all variants in a file holds of them one by one. -/
theorem forall_mem_within {unit : Path} {l : List TypeExpr} {P : TypeExpr × Path → Prop} :
    (∀ x ∈ within unit l, P x) ↔ ∀ e ∈ l, P (e, unit) := List.forall_mem_map

/-- One of the variants in a file is one of the variants. -/
theorem exists_mem_within {unit : Path} {l : List TypeExpr} {P : TypeExpr × Path → Prop} :
    (∃ x ∈ within unit l, P x) ↔ ∃ e ∈ l, P (e, unit) := by
  simp [within]

section Search

variable {visited : List (Fin c.size)} {work : List (TypeExpr × Path)}

/-- A search that finds nothing structured has seen everything: no collection, and no declaration twice. -/
theorem forall_sees_of_anyStructured (h : c.anyStructured visited work = false) :
    ∀ x ∈ work, ∀ y, c.Sees x y → ¬y.1.IsCollection ∧ ∀ i, c.StandsFor y i → i ∉ visited := by
  induction visited, work using search_induction with
  | nil => exact nofun
  | collection visited e unit work he =>
    rw [anyStructured_collection he] at h
    cases h
  | union visited variants unit work ih =>
    rw [anyStructured_union] at h
    obtain ⟨hvariants, hwork⟩ := List.forall_mem_append.mp (ih h)
    refine List.forall_mem_cons.mpr ⟨fun y hy => ?_, hwork⟩
    rcases sees_union_iff.mp hy with rfl | ⟨v, hv, hy⟩
    · exact ⟨id, fun i hi => absurd hi not_standsFor_union⟩
    · exact forall_mem_within.mp hvariants v hv y hy
  | again visited e unit work i hi hmem =>
    rw [anyStructured_named hi, List.contains_iff_mem.mpr hmem] at h
    cases h
  | name visited e unit work i hi hmem ih =>
    rw [anyStructured_named hi] at h
    obtain ⟨hbody, hwork⟩ := List.forall_mem_cons.mp (ih (Bool.or_eq_false_iff.mp h).2)
    -- the search of the body sees the declaration itself as visited
    have weaken {y : TypeExpr × Path} (hy : ∀ j, c.StandsFor y j → j ∉ i :: visited) (j : Fin c.size)
        (hj : c.StandsFor y j) : j ∉ visited := fun hv => hy j hj (List.mem_cons_of_mem _ hv)
    refine List.forall_mem_cons.mpr ⟨fun y hy => ?_, fun x hx y hy => ?_⟩
    · rcases (sees_named_iff hi).mp hy with rfl | hy
      · obtain ⟨name, args, he, hi⟩ := hi
        refine ⟨?_, fun j hj => ?_⟩
        · rcases TypeExpr.form_eq_named he with rfl | ⟨rfl, -⟩ <;> exact id
        · rwa [Option.some.inj (((standsFor_iff he).mp hj).symm.trans hi)]
      · exact (hbody y hy).imp_right weaken
    · exact (hwork x hx y hy).imp_right weaken
  | scalar visited e unit work he hunion hname ih =>
    rw [anyStructured_scalar he hunion hname] at h
    refine List.forall_mem_cons.mpr ⟨fun y hy => ?_, ih h⟩
    obtain rfl := sees_eq hunion hname hy
    exact ⟨he, fun i hi => absurd hi (hname i)⟩

/-- A search that finds nothing has not come to what was visited before. -/
theorem not_comesTo_of_anyStructured (h : c.anyStructured visited work = false) {x : TypeExpr × Path} (hx : x ∈ work)
    {i : Fin c.size} (hi : i ∈ visited) : ¬c.ComesTo x i := by
  rintro ⟨y, hy, hstands⟩
  exact (forall_sees_of_anyStructured h x hx y hy).2 i hstands hi

/-- Having been to other declarations makes no difference to a search that does not come to them. -/
theorem anyStructured_of_not_comesTo {visited' : List (Fin c.size)} (h : c.anyStructured visited work = false)
    (hv : ∀ i ∈ visited', i ∈ visited ∨ ∀ x ∈ work, ¬c.ComesTo x i) : c.anyStructured visited' work = false := by
  -- the two searches differ in what was visited only, and never come to where that matters
  induction visited, work using search_induction generalizing visited' with
  | nil => exact anyStructured_nil
  | collection visited e unit work he =>
    rw [anyStructured_collection he] at h
    cases h
  | union visited variants unit work ih =>
    rw [anyStructured_union] at h ⊢
    refine ih h fun i hi => (hv i hi).imp_right fun hx => ?_
    obtain ⟨hvariants, hwork⟩ := List.forall_mem_cons.mp hx
    rw [comesTo_union_iff, not_exists] at hvariants
    exact List.forall_mem_append.mpr ⟨forall_mem_within.mpr fun v hv hi => hvariants v ⟨hv, hi⟩, hwork⟩
  | again visited e unit work i hi hmem =>
    rw [anyStructured_named hi, List.contains_iff_mem.mpr hmem] at h
    cases h
  | name visited e unit work i hi hmem ih =>
    rw [anyStructured_named hi] at h ⊢
    have hnew : i ∉ visited' := by
      intro hi'
      rcases hv i hi' with hi' | hx
      · exact hmem hi'
      · exact (List.forall_mem_cons.mp hx).1 ((comesTo_named_iff hi).mpr (Or.inl rfl))
    refine Bool.or_eq_false_iff.mpr ⟨?_, ih (Bool.or_eq_false_iff.mp h).2 ?_⟩
    · rwa [← Bool.not_eq_true, List.contains_iff_mem]
    · refine List.forall_mem_cons.mpr ⟨Or.inl List.mem_cons_self, fun j hj => ?_⟩
      refine (hv j hj).imp (List.mem_cons_of_mem i) fun hx => ?_
      obtain ⟨hfirst, hwork⟩ := List.forall_mem_cons.mp hx
      exact List.forall_mem_cons.mpr ⟨fun hb => hfirst ((comesTo_named_iff hi).mpr (Or.inr hb)), hwork⟩
  | scalar visited e unit work he hunion hname ih =>
    rw [anyStructured_scalar he hunion hname] at h ⊢
    exact ih h fun i hi => (hv i hi).imp_right fun hx => (List.forall_mem_cons.mp hx).2

/-! ### Branches

What has been visited matters only if the search comes to it. So a search of two lists can be taken apart into the
searches of each, given that they do not come to one declaration. -/

/-- A search in which something was visited before. -/
theorem anyStructured_append_left_eq_false_iff (before : List (Fin c.size)) :
    c.anyStructured (before ++ visited) work = false ↔
      c.anyStructured visited work = false ∧ ∀ i ∈ before, ∀ x ∈ work, ¬c.ComesTo x i := by
  constructor
  · intro h
    refine ⟨anyStructured_of_not_comesTo h fun i hi => Or.inl (List.mem_append_right _ hi), fun i hi x hx => ?_⟩
    exact not_comesTo_of_anyStructured h hx (List.mem_append_left _ hi)
  · rintro ⟨h, hbefore⟩
    refine anyStructured_of_not_comesTo h fun i hi => ?_
    rcases List.mem_append.mp hi with hi | hi
    · exact Or.inr (hbefore i hi)
    · exact Or.inl hi

/-- A search of two lists, when the first has nothing structured, goes on with all that the first came to. -/
theorem exists_anyStructured_append (h : c.anyStructured visited work = false) :
    ∃ found, (∀ i, i ∈ found ↔ ∃ x ∈ work, c.ComesTo x i) ∧
      ∀ rest, c.anyStructured visited (work ++ rest) = c.anyStructured (found ++ visited) rest := by
  -- whatever the search comes to stays visited, so the rest is searched with all of it visited
  induction visited, work using search_induction with
  | nil => exact ⟨[], by simp, fun rest => rfl⟩
  | collection visited e unit work he =>
    rw [anyStructured_collection he] at h
    cases h
  | union visited variants unit work ih =>
    rw [anyStructured_union] at h
    obtain ⟨found, hfound, heq⟩ := ih h
    refine ⟨found, fun i => ?_, fun rest => ?_⟩
    · simp only [hfound, List.mem_append, List.mem_cons, or_and_right, exists_or, exists_eq_left, comesTo_union_iff,
        ← exists_mem_within (P := fun x => c.ComesTo x i)]
    · rw [List.cons_append, anyStructured_union, ← List.append_assoc, heq]
  | again visited e unit work i hi hmem =>
    rw [anyStructured_named hi, List.contains_iff_mem.mpr hmem] at h
    cases h
  | name visited e unit work i hi hmem ih =>
    rw [anyStructured_named hi] at h
    obtain ⟨hnew, h⟩ := Bool.or_eq_false_iff.mp h
    obtain ⟨found, hfound, heq⟩ := ih h
    refine ⟨found ++ [i], fun j => ?_, fun rest => ?_⟩
    · simp only [List.mem_append, hfound, List.mem_cons, exists_eq_or_imp, comesTo_named_iff hi, List.not_mem_nil,
        or_false]
      rw [or_right_comm, or_comm (b := j = i)]
    · rw [List.cons_append, anyStructured_named hi, hnew, Bool.false_or, ← List.cons_append, heq, List.append_assoc]
      rfl
  | scalar visited e unit work he hunion hname ih =>
    rw [anyStructured_scalar he hunion hname] at h
    obtain ⟨found, hfound, heq⟩ := ih h
    refine ⟨found, fun i => ?_, fun rest => ?_⟩
    · have hnot : ¬c.ComesTo (e, unit) i := by
        rintro ⟨y, hy, hi⟩
        obtain rfl := sees_eq hunion hname hy
        exact hname i hi
      simp only [hfound, List.mem_cons, exists_eq_or_imp, hnot, false_or]
    · rw [List.cons_append, anyStructured_scalar he hunion hname, heq]

/-- What is structured stays so with more to look at. -/
theorem anyStructured_append_of_true (h : c.anyStructured visited work = true) (rest : List (TypeExpr × Path)) :
    c.anyStructured visited (work ++ rest) = true := by
  induction visited, work using search_induction with
  | nil =>
    rw [anyStructured_nil] at h
    cases h
  | collection visited e unit work he => rw [List.cons_append, anyStructured_collection he]
  | union visited variants unit work ih =>
    rw [anyStructured_union] at h
    rw [List.cons_append, anyStructured_union, ← List.append_assoc]
    exact ih h
  | again visited e unit work i hi hmem =>
    rw [List.cons_append, anyStructured_named hi, List.contains_iff_mem.mpr hmem, Bool.true_or]
  | name visited e unit work i hi hmem ih =>
    rw [anyStructured_named hi] at h
    rw [List.cons_append, anyStructured_named hi]
    exact Bool.or_eq_true_iff.mpr ((Bool.or_eq_true_iff.mp h).imp_right ih)
  | scalar visited e unit work he hunion hname ih =>
    rw [anyStructured_scalar he hunion hname] at h
    rw [List.cons_append, anyStructured_scalar he hunion hname]
    exact ih h

/-- The branches of a search on their own: none is structured, and no two come to one declaration. -/
theorem anyStructured_eq_false_iff :
    c.anyStructured visited work = false ↔
      (∀ x ∈ work, c.anyStructured visited [x] = false) ∧
        work.Pairwise fun x y => ∀ i, ¬(c.ComesTo x i ∧ c.ComesTo y i) := by
  induction work generalizing visited with
  | nil => simp [anyStructured_nil]
  | cons x rest ih =>
    rw [List.forall_mem_cons, List.pairwise_cons]
    rcases hx : c.anyStructured visited [x] with _ | _
    · obtain ⟨found, hfound, heq⟩ := exists_anyStructured_append hx
      have hsplit (y : TypeExpr × Path) : c.anyStructured (found ++ visited) [y] = false ↔
          c.anyStructured visited [y] = false ∧ ∀ i, ¬(c.ComesTo x i ∧ c.ComesTo y i) := by
        rw [anyStructured_append_left_eq_false_iff]
        simp [hfound]
      rw [show x :: rest = [x] ++ rest from rfl, heq, ih]
      simp only [hsplit, forall_and]
      tauto
    · rw [show x :: rest = [x] ++ rest from rfl, anyStructured_append_of_true hx]
      simp

/-- Lists that searches cannot tell apart cannot be told apart behind another list. -/
theorem anyStructured_append_congr {a b : List (TypeExpr × Path)}
    (h : ∀ visited, c.anyStructured visited a = c.anyStructured visited b) :
    c.anyStructured visited (work ++ a) = c.anyStructured visited (work ++ b) := by
  rcases hwork : c.anyStructured visited work with _ | _
  · obtain ⟨found, -, heq⟩ := exists_anyStructured_append hwork
    rw [heq, heq, h]
  · rw [anyStructured_append_of_true hwork, anyStructured_append_of_true hwork]

/-- It does not matter how unions are nested. -/
theorem anyStructured_flatten (unit : Path) (variants : List TypeExpr) (visited : List (Fin c.size))
    (work : List (TypeExpr × Path)) :
    c.anyStructured visited (within unit (TypeExpr.flatten variants) ++ work) =
      c.anyStructured visited (within unit variants ++ work) := by
  have happend (l l' : List TypeExpr) : within unit (l ++ l') = within unit l ++ within unit l' := List.map_append
  induction variants using TypeExpr.flatten.induct generalizing visited work with
  | case1 => rw [TypeExpr.flatten]
  | case2 inner rest ihInner ihRest =>
    rw [TypeExpr.flatten, happend, List.append_assoc, ihInner]
    -- the rest is searched behind the inner variants, where more has been visited
    refine (anyStructured_append_congr fun visited => ihRest visited work).trans ?_
    exact anyStructured_union.symm
  | case3 v rest hv ihRest =>
    rw [TypeExpr.flatten]
    · show c.anyStructured visited ([(v, unit)] ++ _) = c.anyStructured visited ([(v, unit)] ++ _)
      exact anyStructured_append_congr fun visited => ihRest visited work
    · exact hv

end Search

/-! ## Shapes

A shape is asked for with nothing visited, so what remains of the search is what the expression comes to. -/

variable {e : TypeExpr} {unit : Path} {variants : List TypeExpr}

/-- A type is scalar if the search finds nothing. -/
theorem shapeOf_eq_scalar_iff : c.shapeOf e unit = .scalar ↔ c.anyStructured [] [(e, unit)] = false := by
  rw [shapeOf]
  cases c.anyStructured [] [(e, unit)] <;> simp

/-- There is no third shape. -/
theorem shapeOf_eq_structured_iff : c.shapeOf e unit = .structured ↔ ¬c.shapeOf e unit = .scalar := by
  cases c.shapeOf e unit <;> simp

/-- A type behind which there is a collection is structured. -/
theorem shapeOf_of_sees {y : TypeExpr × Path} (h : c.Sees (e, unit) y) (hy : y.1.IsCollection) :
    c.shapeOf e unit = .structured := by
  rw [shapeOf_eq_structured_iff, shapeOf_eq_scalar_iff]
  intro hscalar
  exact (forall_sees_of_anyStructured hscalar _ List.mem_cons_self y h).1 hy

/-- A name has the shape of what it stands for, unless that comes back to it. -/
theorem shapeOf_named {i : Fin c.size} (hi : c.StandsFor (e, unit) i) :
    c.shapeOf e unit = .scalar ↔ c.shapeOf (c.get i).body (c.get i).location.unit = .scalar ∧
      ¬c.ComesTo ((c.get i).body, (c.get i).location.unit) i := by
  have hsplit : c.anyStructured ([i] ++ []) [((c.get i).body, (c.get i).location.unit)] = false ↔ _ :=
    anyStructured_append_left_eq_false_iff [i]
  rw [shapeOf_eq_scalar_iff, shapeOf_eq_scalar_iff, anyStructured_named hi, List.contains_nil, Bool.false_or]
  simpa using hsplit

/-- What is seen behind a type that is not structured is not structured either. -/
theorem shapeOf_scalar_of_sees {x y : TypeExpr × Path} (h : c.Sees x y) (hx : c.shapeOf x.1 x.2 = .scalar) :
    c.shapeOf y.1 y.2 = .scalar := by
  induction h using Relation.ReflTransGen.head_induction_on with
  | refl => exact hx
  | head hstep _ ih =>
    refine ih ?_
    cases hstep with
    | variant hv =>
      rw [shapeOf_eq_scalar_iff, anyStructured_union, List.append_nil, anyStructured_eq_false_iff] at hx
      exact shapeOf_eq_scalar_iff.mpr (forall_mem_within.mp hx.1 _ hv)
    | body hi => exact ((shapeOf_named hi).mp hx).1

/-- A name has the shape of what it stands for, also if that comes back to it. -/
theorem shapeOf_of_standsFor {i : Fin c.size} (hi : c.StandsFor (e, unit) i) :
    c.shapeOf e unit = c.shapeOf (c.get i).body (c.get i).location.unit := by
  -- a name that is seen behind its own body would have been met before
  have hscalar : c.shapeOf e unit = .scalar ↔ c.shapeOf (c.get i).body (c.get i).location.unit = .scalar := by
    rw [shapeOf_named hi]
    refine and_iff_left_of_imp fun hbody hcomes => ?_
    obtain ⟨y, hy, hstands⟩ := hcomes
    exact ((shapeOf_named hstands).mp (shapeOf_scalar_of_sees hy hbody)).2 ⟨y, hy, hstands⟩
  cases h : c.shapeOf (c.get i).body (c.get i).location.unit with
  | scalar => exact hscalar.mpr h
  | structured =>
    rw [shapeOf_eq_structured_iff] at h ⊢
    exact fun hname => h (hscalar.mp hname)

/-- Two expressions in one file, with a declaration to which the search comes from both of them. -/
def Meet (c : Catalog) (unit : Path) (v w : TypeExpr) : Prop := ∃ i, c.ComesTo (v, unit) i ∧ c.ComesTo (w, unit) i

/-- Meeting is mutual. -/
theorem Meet.symm {v w : TypeExpr} (h : c.Meet unit v w) : c.Meet unit w v := by
  obtain ⟨i, hv, hw⟩ := h
  exact ⟨i, hw, hv⟩

/-- A union is scalar if its variants are and no two of them meet. -/
theorem shapeOf_union_eq_scalar_iff :
    c.shapeOf (.union variants) unit = .scalar ↔
      (∀ v ∈ variants, c.shapeOf v unit = .scalar) ∧ variants.Pairwise fun v w => ¬c.Meet unit v w := by
  rw [shapeOf_eq_scalar_iff, anyStructured_union, List.append_nil, anyStructured_eq_false_iff, forall_mem_within,
    within, List.pairwise_map]
  simp only [shapeOf_eq_scalar_iff, Meet, not_exists]

/-- **The shape of a union.** It is structured just when a variant is or two variants come to one declaration. The order
of the variants and the nesting of unions play no part. -/
theorem union_shape (c : Catalog) (variants : List TypeExpr) (unit : Path) :
    (c.shapeOf (.union variants) unit = .structured ↔
      (∃ v ∈ variants, c.shapeOf v unit = .structured) ∨ ∃ v w, [v, w].Sublist variants ∧ c.Meet unit v w) ∧
    (∀ others, others.Perm variants → c.shapeOf (.union others) unit = c.shapeOf (.union variants) unit) ∧
    c.shapeOf (.union (TypeExpr.flatten variants)) unit = c.shapeOf (.union variants) unit := by
  refine ⟨?_, fun others hperm => ?_, ?_⟩
  · rw [shapeOf_eq_structured_iff, shapeOf_union_eq_scalar_iff, List.pairwise_iff_forall_sublist]
    simp only [shapeOf_eq_structured_iff, not_and_or, not_forall, not_not, exists_prop]
  · have hscalar : c.shapeOf (.union others) unit = .scalar ↔ c.shapeOf (.union variants) unit = .scalar := by
      rw [shapeOf_union_eq_scalar_iff, shapeOf_union_eq_scalar_iff,
        hperm.pairwise_iff fun hnot hmeet => hnot hmeet.symm]
      simp only [hperm.mem_iff]
    cases h : c.shapeOf (.union variants) unit
    · exact hscalar.mpr h
    · rw [shapeOf_eq_structured_iff] at h ⊢
      exact fun hothers => h (hscalar.mp hothers)
  · have h := anyStructured_flatten (c := c) unit variants [] []
    rw [shapeOf, shapeOf, anyStructured_union, anyStructured_union, h]

/-- A string type and an alias of it. -/
def tagCatalog : Catalog where
  declarations := [
    { name := "Tag", body := .primitive .string, location := ⟨⟨"tags.rs"⟩, 1, 0⟩ },
    { name := "Label", body := .reference "Tag", location := ⟨⟨"tags.rs"⟩, 2, 0⟩ }]

/-- Two names of one string type make a structured union, in either order. -/
theorem union_shape_tag :
    tagCatalog.shapeOf (.reference "Tag") ⟨"tags.rs"⟩ = .scalar ∧
      tagCatalog.shapeOf (.reference "Label") ⟨"tags.rs"⟩ = .scalar ∧
      tagCatalog.shapeOf (.union [.reference "Tag", .reference "Label"]) ⟨"tags.rs"⟩ = .structured ∧
      tagCatalog.shapeOf (.union [.reference "Label", .reference "Tag"]) ⟨"tags.rs"⟩ = .structured := by
  have htag : tagCatalog.StandsFor (.reference "Tag", ⟨"tags.rs"⟩) (0 : Fin 2) := ⟨_, _, rfl, by decide +kernel⟩
  have hlabel : tagCatalog.StandsFor (.reference "Label", ⟨"tags.rs"⟩) (1 : Fin 2) := ⟨_, _, rfl, by decide +kernel⟩
  have hstring (visited : List (Fin tagCatalog.size)) :
      tagCatalog.anyStructured visited [(.primitive .string, ⟨"tags.rs"⟩)] = false := by
    rw [anyStructured, anyStructured_nil]
  obtain ⟨hiff, hperm, -⟩ := union_shape tagCatalog [.reference "Tag", .reference "Label"] ⟨"tags.rs"⟩
  have hunion := hiff.mpr <| Or.inr ⟨_, _, .refl _, (0 : Fin 2), ⟨_, .refl, htag⟩, ⟨_, .single (.body hlabel), htag⟩⟩
  refine ⟨?_, ?_, hunion, (hperm _ (.swap _ _ _)).trans hunion⟩
  · rw [shapeOf_eq_scalar_iff, anyStructured_named htag]
    exact hstring _
  · rw [shapeOf_eq_scalar_iff, anyStructured_named hlabel]
    refine Bool.or_eq_false_iff.mpr ⟨rfl, ?_⟩
    refine (anyStructured_named htag).trans ?_
    exact Bool.or_eq_false_iff.mpr ⟨rfl, hstring _⟩

end Catalog

end RouteManifest
