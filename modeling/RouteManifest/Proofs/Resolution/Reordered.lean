import RouteManifest.Proofs.Catalog
import RouteManifest.Proofs.Resolution.Runs
import RouteManifest.Resolution.Shape

/-!
# Resolution does not see the order of a catalog

A resolver remembers declarations by their positions. In a catalog with the same declarations in another
order it goes through the same states, except that every position is another one: `Alike` relates what
belongs to the same declarations, and computations that take related states to related states with equal
answers.

The relation is kept by computations one after another (`Resolving.Alike.bind`), so an induction on the expression is
enough where expressions are resolved. Names are looked up in either catalog to the same declaration
(`Catalog.Reordered.applied`); their expansion goes by recursion on the measure of what is pending, on both sides.
-/

namespace RouteManifest

variable {c c' : Catalog} {α β : Type}

/-! ## States

Registries do not hold positions, so they are simply the same. Identities do, and are related one by one. -/

/-- The same declaration with the same arguments. -/
def Identity.Alike (a : Identity c) (b : Identity c') : Prop :=
  c.get a.declaration = c'.get b.declaration ∧ a.args = b.args

/-- The same identities with the same ids, in the same order. -/
def IdsAlike : List (Identity c × String) → List (Identity c' × String) → Prop :=
  List.Forall₂ fun x y => x.1.Alike y.1 ∧ x.2 = y.2

/-- Resolvers with the same registry that know the same identities. -/
structure Resolver.Alike (r : Resolver c) (r' : Resolver c') : Prop where
  registry : r.registry = r'.registry
  known : IdsAlike r.known r'.known

/-- The same expansions have begun. -/
structure Pending.Alike (p : Pending c) (p' : Pending c') : Prop where
  depth : p.depth = p'.depth
  identities : IdsAlike p.identities p'.identities

/-- Two identities are the same just if those related to them are, since no two declarations are the same. -/
theorem Catalog.Reordered.eq_iff (hc : c.Reordered c') {a b : Identity c} {a' b' : Identity c'}
    (ha : a.Alike a') (hb : b.Alike b') : a = b ↔ a' = b' := by
  obtain ⟨i, args⟩ := a
  obtain ⟨j, others⟩ := b
  obtain ⟨i', args'⟩ := a'
  obtain ⟨j', others'⟩ := b'
  obtain ⟨hi, rfl⟩ := ha
  obtain ⟨hj, rfl⟩ := hb
  simp only at hi hj
  rw [Identity.mk.injEq, Identity.mk.injEq]
  refine and_congr_left fun _ => ⟨?_, ?_⟩
  · rintro rfl
    exact hc.distinct'.get_injective (hi.symm.trans hj)
  · rintro rfl
    exact hc.distinct.get_injective (hi.trans hj.symm)

/-- The same ids are looked up on both sides. -/
theorem Catalog.Reordered.lookup_eq (hc : c.Reordered c') {l : List (Identity c × String)}
    {l' : List (Identity c' × String)} (h : IdsAlike l l') {a : Identity c} {a' : Identity c'} (ha : a.Alike a') :
    l.lookup a = l'.lookup a' := by
  induction h with
  | nil => rfl
  | @cons x y rest rest' hxy _ ih =>
    rw [List.lookup_cons, List.lookup_cons, ih, hxy.2]
    have hbeq : (a == x.1) = (a' == y.1) := by
      rw [Bool.eq_iff_iff, beq_iff_eq, beq_iff_eq]
      exact hc.eq_iff ha hxy.1
    rw [hbeq]

/-! ## Computations

What a computation does to related resolvers. The answer is the same, a fault included. -/

/-- Computations that answer the same and keep resolvers alike. -/
def Resolving.Alike (m : Resolving c α) (m' : Resolving c' α) : Prop :=
  ∀ r r', r.Alike r' → (m.run r).1 = (m'.run r').1 ∧ (m.run r).2.Alike (m'.run r').2

namespace Resolving

/-- An answer that is there already is the same on both sides. -/
theorem alike_pure (a : α) : Alike (pure a : Resolving c α) (pure a : Resolving c' α) :=
  fun _ _ h => ⟨rfl, h⟩

/-- Alike computations of alike resolvers, with their one answer named. -/
theorem Alike.run {m : Resolving c α} {m' : Resolving c' α} (hm : Alike m m') {r : Resolver c} {r' : Resolver c'}
    (h : r.Alike r') : ∃ out s s', m.run r = (out, s) ∧ m'.run r' = (out, s') ∧ s.Alike s' :=
  ⟨(m.run r).1, (m.run r).2, (m'.run r').2, rfl, Prod.ext (hm r r' h).1.symm rfl, (hm r r' h).2⟩

theorem alike_throw (fault : Fault) : Alike (throw fault : Resolving c α) (throw fault : Resolving c' α) :=
  fun _ _ h => ⟨rfl, h⟩

/-- One computation after another. -/
theorem Alike.bind {m : Resolving c α} {m' : Resolving c' α} {f : α → Resolving c β} {f' : α → Resolving c' β}
    (hm : Alike m m') (hf : ∀ a, Alike (f a) (f' a)) : Alike (m >>= f) (m' >>= f') := by
  intro r r' h
  obtain ⟨out, s, s', hs, hs', hstate⟩ := hm.run h
  rw [run_bind, run_bind, hs, hs']
  cases out with
  | error fault => exact ⟨rfl, hstate⟩
  | ok a => exact hf a s s' hstate

/-- What is done to the answer is the same on both sides. -/
theorem Alike.map {m : Resolving c α} {m' : Resolving c' α} (hm : Alike m m') (f : α → β) :
    Alike (f <$> m) (f <$> m') := by
  intro r r' h
  rw [run_map, run_map, (hm r r' h).1]
  exact ⟨rfl, (hm r r' h).2⟩

/-- A fault is caught on both sides or on neither. -/
theorem Alike.tryCatch {m : Resolving c α} {m' : Resolving c' α} {f : Fault → Resolving c α}
    {f' : Fault → Resolving c' α} (hm : Alike m m') (hf : ∀ fault, Alike (f fault) (f' fault)) :
    Alike (tryCatch m f) (tryCatch m' f') := by
  intro r r' h
  obtain ⟨out, s, s', hs, hs', hstate⟩ := hm.run h
  rw [run_tryCatch, run_tryCatch, hs, hs']
  cases out with
  | error fault => exact hf fault s s' hstate
  | ok a => exact ⟨rfl, hstate⟩

/-- The registry is all that a computation may ask of the resolver. -/
theorem alike_registry {f : Resolver c → Resolving c α} {f' : Resolver c' → Resolving c' α}
    (hf : ∀ r r', r.registry = r'.registry → Alike (f r) (f' r')) : Alike (get >>= f) (get >>= f') := by
  intro r r' h
  rw [run_bind, run_bind, run_get, run_get]
  exact hf r r' h.registry r r' h

end Resolving

/-! ## Expressions and names

Where a name is applied the two catalogs come in, and nowhere else. -/

/-- A name applied to arguments means one declaration in both catalogs, or fails in one way. -/
theorem Catalog.Reordered.applied (hc : c.Reordered c') (name : String) (count : Nat) (origin : Location) :
    (∃ fault, c.applied name count origin = .error fault ∧ c'.applied name count origin = .error fault) ∨
      ∃ i j, c.applied name count origin = .ok i ∧ c'.applied name count origin = .ok j ∧ c.get i = c'.get j := by
  rw [Catalog.applied, Catalog.applied]
  rcases hc.lookup? name origin.unit with ⟨h, h'⟩ | ⟨i, j, h, h', hij⟩
  · rw [h, h']
    exact Or.inl ⟨_, rfl, rfl⟩
  · rw [h, h']
    simp only
    rw [hij]
    split
    · exact Or.inr ⟨i, j, rfl, rfl, hij⟩
    · left
      split <;> exact ⟨_, rfl, rfl⟩

/-- Names that stand for the same in both catalogs. -/
def NamesAlike (names : Names c) (names' : Names c') : Prop :=
  ∀ name i j args origin, c.get i = c'.get j →
    Resolving.Alike (names name i args origin) (names' name j args origin)

section Node

variable {names : Names c} {names' : Names c'} {scope : Table Schema} {origin : Location}

/-- Several expressions have the same schemas if each of them has. -/
theorem resolveList_alike {es : List TypeExpr}
    (h : ∀ e ∈ es, Resolving.Alike (resolveNode names scope origin e) (resolveNode names' scope origin e)) :
    Resolving.Alike (resolveList names scope origin es) (resolveList names' scope origin es) := by
  induction es with
  | nil =>
    rw [resolveList, resolveList]
    exact Resolving.alike_pure []
  | cons e rest ih =>
    rw [resolveList, resolveList]
    refine (h e List.mem_cons_self).bind fun s => ?_
    exact (ih fun e he => h e (List.mem_cons_of_mem _ he)).bind fun l => Resolving.alike_pure _

/-- An expression has the same schema in both catalogs if names stand for the same. -/
theorem resolveNode_alike (hc : c.Reordered c') (hnames : NamesAlike names names') (e : TypeExpr) :
    Resolving.Alike (resolveNode names scope origin e) (resolveNode names' scope origin e) := by
  -- the two sides have the same expression and the same scope, so they go through the same form
  rcases he : e.form with ⟨parts, build⟩ | ⟨name, args⟩ | name | _
  · have hparts : Resolving.Alike (resolveList names scope origin parts) (resolveList names' scope origin parts) :=
      resolveList_alike fun v hv => resolveNode_alike hc hnames v
    intro r r' h
    obtain ⟨out, s, s', hs, hs', hstate⟩ := hparts.run h
    rw [run_resolveNode_built _ _ _ he, run_resolveNode_built _ _ _ he, hs, hs']
    cases out with
    | error fault => exact ⟨rfl, hstate⟩
    | ok l =>
      simp only
      rw [hstate.registry]
      exact ⟨rfl, hstate⟩
  · -- only where the name is looked up do the catalogs come in
    by_cases hs : args = [] → scope.find? name = none
    · rw [resolveNode_named _ _ _ he hs, resolveNode_named _ _ _ he hs]
      rcases hc.applied name args.length origin with ⟨fault, h, h'⟩ | ⟨i, j, h, h', hij⟩
      · rw [h, h']
        exact Resolving.alike_throw fault
      · rw [h, h']
        refine (resolveList_alike fun v hv => resolveNode_alike hc hnames v).bind fun l => ?_
        exact hnames name i j l origin hij
    · rw [Classical.not_imp] at hs
      obtain ⟨rfl, hs⟩ := hs
      obtain ⟨s, hs⟩ := Option.ne_none_iff_exists'.mp hs
      rw [resolveNode_bound _ _ _ (Or.inl he) hs, resolveNode_bound _ _ _ (Or.inl he) hs]
      exact Resolving.alike_pure s
  · rcases hs : scope.find? name with _ | s
    · obtain rfl := TypeExpr.form_eq_parameter he
      rw [resolveNode, resolveNode, hs]
      exact Resolving.alike_throw _
    · rw [resolveNode_bound _ _ _ (Or.inr he) hs, resolveNode_bound _ _ _ (Or.inr he) hs]
      exact Resolving.alike_pure s
  · obtain rfl := TypeExpr.form_eq_callable he
    rw [resolveNode, resolveNode]
    exact Resolving.alike_throw _
termination_by sizeOf e
decreasing_by
  · exact TypeExpr.sizeOf_lt_of_mem_parts he hv
  · exact TypeExpr.sizeOf_lt_of_mem_args he hv

end Node

/-- The resolver after an expansion has begun. -/
theorem Resolver.Alike.opened {r : Resolver c} {r' : Resolver c'} (h : r.Alike r') {i : Fin c.size}
    {j : Fin c'.size} (hij : c.get i = c'.get j) (args : List Schema) :
    r.expansionId i args = r'.expansionId j args ∧ (r.opened i args).Alike (r'.opened j args) := by
  rw [Resolver.expansionId, Resolver.expansionId, Resolver.opened, Resolver.opened, h.registry, hij]
  exact ⟨rfl, rfl, h.known⟩

/-- The resolver after an expansion has ended. -/
theorem Resolver.Alike.filled {r : Resolver c} {r' : Resolver c'} (h : r.Alike r') {a : Identity c}
    {b : Identity c'} (hab : a.Alike b) (id : String) (schema : Schema) (owner : Location) :
    (r.filled a id schema owner).Alike (r'.filled b id schema owner) := by
  rw [Resolver.filled, Resolver.filled, h.registry]
  exact ⟨rfl, .cons ⟨hab, rfl⟩ h.known⟩

theorem Resolver.Alike.released {r : Resolver c} {r' : Resolver c'} (h : r.Alike r') (id : String) :
    (r.released id).Alike (r'.released id) := by
  rw [Resolver.released, Resolver.released, h.registry]
  exact ⟨rfl, h.known⟩

/-- A declared name stands for the same in both catalogs. -/
theorem expand_alike (hc : c.Reordered c') {p : Pending c} {p' : Pending c'} (hp : p.Alike p') :
    NamesAlike (expand p) (expand p') := by
  intro name i j args origin hij
  have hidentity : (c.identity i args).Alike (c'.identity j args) := ⟨hij, rfl⟩
  have hid : p.id? (c.identity i args) = p'.id? (c'.identity j args) := hc.lookup_eq hp.identities hidentity
  rcases hpending : p.id? (c.identity i args) with _ | id
  · intro r r' h
    have hknown : r.id? (c.identity i args) = r'.id? (c'.identity j args) := hc.lookup_eq h.known hidentity
    -- ids are handed out by the registries, which are equal
    obtain ⟨hopenId, hopen⟩ := h.opened hij args
    rw [run_expand hpending, run_expand (hid ▸ hpending), ← hknown]
    rcases r.id? (c.identity i args) with _ | id
    · by_cases hd : args ≠ [] ∧ maxGenericDepth ≤ p.depth
      · simp only
        rw [if_pos hd, if_pos (hp.depth ▸ hd)]
        exact ⟨rfl, h⟩
      · have hpush : (p.push (c.identity i args) (r.expansionId i args)).Alike
            (p'.push (c'.identity j args) (r'.expansionId j args)) := by
          refine ⟨?_, .cons ⟨hidentity, hopenId⟩ hp.identities⟩
          show (if args.map Schema.fingerprint |>.isEmpty then p.depth else p.depth + 1) = _
          rw [hp.depth]
          rfl
        simp only
        rw [if_neg hd, if_neg (hp.depth ▸ hd)]
        rw [← hij]
        have hbody : Resolving.Alike
            (resolveNode (expand (p.push (c.identity i args) (r.expansionId i args))) ((c.get i).scope args)
              (c.get i).location (c.get i).body)
            (resolveNode (expand (p'.push (c'.identity j args) (r'.expansionId j args))) ((c.get i).scope args)
              (c.get i).location (c.get i).body) :=
          resolveNode_alike hc (expand_alike hc hpush) (c.get i).body
        obtain ⟨out, s, s', hs, hs', hstate⟩ := hbody.run hopen
        rw [hs, hs', ← hopenId]
        cases out with
        | error fault => exact ⟨rfl, hstate.released _⟩
        | ok body =>
          refine ⟨?_, hstate.filled hidentity _ body _⟩
          simp only
          rw [hstate.registry]
    · exact ⟨rfl, h⟩
  · rw [expand_pending hpending, expand_pending (hid ▸ hpending)]
    exact Resolving.alike_pure _
termination_by p.measure
decreasing_by exact Pending.measure_push_lt p _ _ _ hpending (by simpa using hd)

/-- An expression has the same schema in both catalogs, or fails in one way. -/
theorem resolve_alike (hc : c.Reordered c') (e : TypeExpr) (origin : Location) :
    Resolving.Alike (resolve e origin : Resolving c Schema) (resolve e origin : Resolving c' Schema) := by
  have hp : ({} : Pending c).Alike ({} : Pending c') := ⟨rfl, List.Forall₂.nil⟩
  exact resolveNode_alike hc (expand_alike hc hp) e

/-! ## Shapes

The search for the shape of a type keeps a list of positions, too. -/

/-- A declaration has been visited on both sides or on neither. -/
theorem Catalog.Reordered.contains_eq (hc : c.Reordered c') {l : List (Fin c.size)} {l' : List (Fin c'.size)}
    (h : List.Forall₂ (fun i j => c.get i = c'.get j) l l') {i : Fin c.size} {j : Fin c'.size}
    (hij : c.get i = c'.get j) : l.contains i = l'.contains j := by
  induction h with
  | nil => rfl
  | @cons a b rest rest' hab _ ih =>
    rw [List.contains_cons, List.contains_cons, ih]
    have hbeq : (i == a) = (j == b) := by
      rw [Bool.eq_iff_iff, beq_iff_eq, beq_iff_eq]
      constructor
      · rintro rfl
        exact hc.distinct'.get_injective (hij.symm.trans hab)
      · rintro rfl
        exact hc.distinct.get_injective (hij.trans hab.symm)
    rw [hbeq]

/-- The search goes through the same steps. -/
theorem Catalog.Reordered.anyStructured_eq (hc : c.Reordered c') (visited : List (Fin c.size))
    (work : List (TypeExpr × Path)) (visited' : List (Fin c'.size))
    (h : List.Forall₂ (fun i j => c.get i = c'.get j) visited visited') :
    c.anyStructured visited work = c'.anyStructured visited' work := by
  -- both searches come to the same declarations, whatever their places in the catalogs
  induction visited, work using Catalog.anyStructured.induct c generalizing visited' with
  | case1 => rw [anyStructured, anyStructured]
  | case2 | case3 | case4 | case5 | case6 => rw [anyStructured, anyStructured]
  | case7 visited unit rest variants ih =>
    rw [anyStructured, anyStructured]
    exact ih visited' h
  | case8 visited unit rest name hnone ih =>
    rw [anyStructured, anyStructured, hnone, hc.lookup?_eq_none hnone]
    exact ih visited' h
  | case9 visited unit rest name i hsome hmem =>
    obtain ⟨j, hj, hij⟩ := hc.lookup?_eq_some hsome
    rw [anyStructured, anyStructured, hsome, hj]
    simp only
    rw [dif_pos hmem, dif_pos (hc.contains_eq h hij ▸ hmem)]
  | case10 visited unit rest name i hsome hmem ih =>
    obtain ⟨j, hj, hij⟩ := hc.lookup?_eq_some hsome
    rw [anyStructured, anyStructured, hsome, hj]
    simp only
    rw [dif_neg hmem, dif_neg (hc.contains_eq h hij ▸ hmem), ih (j :: visited') (.cons hij h), hij]
  | case11 visited unit rest name args hnone ih =>
    rw [anyStructured, anyStructured, hnone, hc.lookup?_eq_none hnone]
    exact ih visited' h
  | case12 visited unit rest name args i hsome hmem =>
    obtain ⟨j, hj, hij⟩ := hc.lookup?_eq_some hsome
    rw [anyStructured, anyStructured, hsome, hj]
    simp only
    rw [dif_pos hmem, dif_pos (hc.contains_eq h hij ▸ hmem)]
  | case13 visited unit rest name args i hsome hmem ih =>
    obtain ⟨j, hj, hij⟩ := hc.lookup?_eq_some hsome
    rw [anyStructured, anyStructured, hsome, hj]
    simp only
    rw [dif_neg hmem, dif_neg (hc.contains_eq h hij ▸ hmem), ih (j :: visited') (.cons hij h), hij]
  | case14 | case15 | case16 | case17 | case18 =>
    rename_i ih
    rw [anyStructured, anyStructured]
    exact ih visited' h

/-- A type has the same shape in both catalogs. -/
theorem Catalog.Reordered.shapeOf_eq (hc : c.Reordered c') (e : TypeExpr) (unit : Path) :
    c.shapeOf e unit = c'.shapeOf e unit := by
  rw [shapeOf, shapeOf, hc.anyStructured_eq [] _ [] .nil]

end RouteManifest
