import RouteManifest.Proofs.Meaning.Fine
import RouteManifest.Proofs.Meaning.Keyed
import RouteManifest.Proofs.Meaning.Values
import RouteManifest.Proofs.Resolution.Evaluation

/-!
# Resolution preserves the meaning of types

A value belongs to a type just if it validates against the schema that the type is resolved to, where `$ref`s are
followed through the registry (`resolve_preserves_meaning`). Both sides are least relations, `Belongs` over
expressions and `Validates` over schemas, and neither mentions how the other comes about.

What connects them is `Compiled`: a schema is compiled from an expression in its scope, if it was built from schemas
that were compiled from the parts, or is the reference of what the expression stands for. The proof has three parts.
Inversion says what a compiled schema looks like. Then there is one induction for each direction: over `Validates`
to find that the value belongs to every type the schema may have been compiled from, and over `Belongs` to find that
it validates against every schema compiled from the type. Last, whatever is resolved is compiled, after any calls
that have succeeded.
-/

namespace RouteManifest

variable {c : Catalog}

/-! ## Inversion

Sharing gives way to one entry for several declarations, so a schema tells what it was compiled from only up to its
shape. Each lemma therefore speaks of `canonical` and not of the schema itself. -/

namespace Compiled

variable {r : Registry} {keys : Key c → Prop} {s : Schema} {cl : Closure}

/-- The schema of what is built from its parts was built. -/
theorem of_built (h : Compiled r keys s cl) {parts : List TypeExpr} {build : Registry → List Schema → Schema}
    (hform : cl.node.form = .built parts build) (hnode : ∀ members, cl.node ≠ .intersection members) :
    ∃ (entries : Registry) (l : List Schema), s.canonical = (build entries l).canonical ∧ l.length = parts.length ∧
      (∀ t ∈ l, t.Tidy) ∧ ∀ p ∈ l.zip parts, Compiled r keys p.1 (cl.within p.2) := by
  induction h with
  | given h => exact h.elim
  | viewed h => exact h.elim
  | shape _ hshape ih =>
    obtain ⟨entries, l, hbuild, h⟩ := ih hform hnode
    exact ⟨entries, l, hshape.symm.trans hbuild, h⟩
  | target htarget =>
    rw [Closure.target?_built hform] at htarget
    cases htarget
  | key _ htarget =>
    rw [Closure.target?_built hform] at htarget
    cases htarget
  | built entries hform' _ hlength htidy hparts =>
    rw [hform] at hform'
    cases hform'
    exact ⟨entries, _, rfl, hlength, htidy, hparts⟩
  | intersection hmembers => exact absurd hmembers (hnode _)

/-- The schema of an intersection has the shape of the `allOf` of schemas compiled from its members. -/
theorem of_intersection (h : Compiled r keys s cl) {members : List TypeExpr} (hnode : cl.node = .intersection members) :
    ∃ l : List Schema, s.canonical = (({} : Registry).allOf l).canonical ∧ l.length = members.length ∧
      (∀ t ∈ l, t.Tidy) ∧ ∀ p ∈ l.zip members, Compiled r keys p.1 (cl.within p.2) := by
  induction h with
  | given h => exact h.elim
  | viewed h => exact h.elim
  | shape _ hshape ih =>
    obtain ⟨l, hbuild, h⟩ := ih hnode
    exact ⟨l, hshape.symm.trans hbuild, h⟩
  | target htarget =>
    rw [Closure.target?_intersection hnode] at htarget
    cases htarget
  | key _ htarget =>
    rw [Closure.target?_intersection hnode] at htarget
    cases htarget
  | built _ _ hother => exact absurd hnode (hother _)
  | intersection hnode' hlength htidy hparts =>
    rw [hnode] at hnode'
    cases hnode'
    exact ⟨_, rfl, hlength, htidy, hparts⟩

/-- The schema of what stands for something else is that one's, or the reference of a key. -/
theorem of_target (h : Compiled r keys s cl) {target : Closure} (htarget : cl.target? c = some target) :
    Compiled r keys s target ∨ ∃ (key : Key c) (args : List Closure), keys key ∧
      target = c.applied? key.declaration args ∧
      s.canonical = (Schema.reference key.id).canonical ∧ args.length = key.args.length ∧
      ∀ t a, (some t, a) ∈ key.args.zip args → Compiled r keys t a := by
  induction h with
  | given h => exact h.elim
  | viewed h => exact h.elim
  | shape _ hshape ih =>
    rcases ih htarget with h | ⟨key, args, hkey, happlied, hreference, hargs⟩
    · exact Or.inl (.shape h hshape)
    · exact Or.inr ⟨key, args, hkey, happlied, hshape.symm.trans hreference, hargs⟩
  | target htarget' h =>
    obtain rfl := Option.some.inj (htarget'.symm.trans htarget)
    exact Or.inl h
  | @key key cl args hkey htarget' hlength hargs =>
    exact Or.inr ⟨key, args, hkey, Option.some.inj (htarget.symm.trans htarget'), rfl, hlength, hargs⟩
  | built _ hform =>
    rw [Closure.target?_built hform] at htarget
    cases htarget
  | intersection hnode =>
    rw [Closure.target?_intersection hnode] at htarget
    cases htarget

/-- What is registered for a key is compiled from what it stands for, applied to arguments that are. -/
theorem entry (hgood : ∀ key entry, keys key → r.get? key.id = some entry → key.Good r keys) (htidy : r.Tidy)
    {key : Key c} {entry : Schema} (hkey : keys key) (hget : r.get? key.id = some entry) {args : List Closure}
    (hlength : args.length = key.args.length) (hargs : ∀ t a, (some t, a) ∈ key.args.zip args → Compiled r keys t a) :
    Compiled r keys entry (c.applied? key.declaration args) := by
  obtain ⟨body, hbody, hcompiles⟩ := hgood key entry hkey hget
  obtain rfl := Option.some.inj (hget.symm.trans hbody)
  exact (hcompiles args hlength).cut hargs fun t a object ht hview => (hargs t a ht).view hgood htidy hview

end Compiled

/-! ## Closed objects

A closed object rejects the properties of the other parts of an intersection, and merging loses that. The parts of an
intersection that is fine are open, and what they are compiled to is open as well. -/

/-- Schemas of one shape are open together, so an entry that was shared is as open as the one it stands for. -/
theorem Schema.isOpen_of_shape {s t : Schema} (h : s.canonical = t.canonical) (hs : s.IsOpen) : t.IsOpen := by
  intro hobject hnull
  rw [← isObject_canonical, ← h, isObject_canonical] at hobject
  rw [← isNullable_canonical, ← h, isNullable_canonical] at hnull
  have hadditional := hs hobject hnull
  obtain ⟨k⟩ := s
  obtain ⟨k'⟩ := t
  have hmap := (Keywords.sameShape h).additional
  rw [show k.additional = none from hadditional] at hmap
  exact Option.map_eq_none_iff.mp hmap.symm

/-- What does not look like an object is not closed to anything. -/
theorem Schema.isOpen_of_not_isObject {s : Schema} (h : s.isObject = false) : s.IsOpen := fun hobject => by
  rw [h] at hobject
  cases hobject

/-- The schema of a type that is more than closed objects can be merged. -/
theorem Compiled.isOpen {r : Registry} {keys : Key c → Prop} {s : Schema} {cl : Closure} (h : Compiled r keys s cl)
    (hcl : ¬cl.Sealed c) : s.IsOpen := by
  induction h with
  | given h => exact h.elim
  | viewed h => exact h.elim
  | shape _ hshape ih => exact Schema.isOpen_of_shape hshape (ih hcl)
  | target htarget _ ih => exact ih fun hsealed => hcl (.named htarget hsealed)
  | key => exact Schema.isOpen_of_not_isObject rfl
  | @built cl parts build l entries hform hnode hlength htidy _ ih =>
    obtain ⟨e, scope, unit⟩ := cl
    rcases TypeExpr.build_cases hnode hform entries l with ⟨variants, s, rfl, rfl, hany, hs, rfl⟩ | ⟨-, hobject⟩
    · -- the schema has the shape of every alternative, and some alternative is more than closed objects
      have hmem : s ∈ l := mem_of_mem_distinctShapes (by rw [hs]; exact List.mem_cons_self)
      obtain ⟨other, hother⟩ := exists_mem_zip_left hlength.symm hmem
      have hne : TypeExpr.flatten variants ≠ [] :=
        List.ne_nil_of_mem (List.mem_filter.mp (List.of_mem_zip hother).2).1
      obtain ⟨e, he, hsealed⟩ : ∃ e ∈ TypeExpr.flatten variants, ¬(Closure.mk e scope unit).Sealed c := by
        by_contra hall
        exact hcl (.union hne fun e he => by_contra fun hsealed => hall ⟨e, he, hsealed⟩)
      have hproper : e ∈ TypeExpr.proper variants :=
        List.mem_filter.mpr ⟨he, by simpa using List.any_eq_false.mp hany e he⟩
      obtain ⟨t, ht⟩ := exists_mem_zip_left hlength hproper
      have hopen : t.IsOpen := ih (t, e) (mem_zip_swap ht) hsealed
      obtain ⟨u, hu, hshape⟩ := exists_shape_of_mem htidy (List.of_mem_zip ht).2
      rw [hs, List.mem_singleton] at hu
      rw [hu] at hshape
      rw [Registry.oneOf_single hs]
      exact Schema.isOpen_of_shape hshape hopen
    · -- only an object that is written out can be closed, and then the type is closed itself
      intro hobject' hnull
      rcases hobject hobject' with hnull' | ⟨properties, closed, rfl⟩
      · exact absurd hnull' hnull
      · cases hform
        cases closed with
        | false => rfl
        | true => exact absurd .object hcl
  | @intersection cl members l hnode hlength htidy _ ih =>
    -- one member alone is taken as it is, and what is merged is open
    rcases Registry.allOf_cases {} l with ⟨s, rfl, heq⟩ | ⟨properties, required, -, heq⟩ | ⟨-, heq⟩
    · obtain ⟨e, rfl⟩ := List.length_eq_one_iff.mp hlength.symm
      rw [heq]
      refine ih (s, e) List.mem_cons_self fun hsealed => hcl ?_
      obtain ⟨_, scope, unit⟩ := cl
      obtain rfl := hnode
      exact .intersection hsealed
    · rw [heq]
      exact fun _ _ => rfl
    · rw [heq]
      exact Schema.isOpen_of_not_isObject rfl

/-! ## From schemas to types

The induction is over the derivation that the value validates. A schema has finitely many nodes but a `$ref` may lead
back to it, so what carries the proof is the derivation and not the size of the schema. -/

section Meaning

variable {r : Registry} {keys : Key c → Prop}

/-- A value belongs to all types that a schema was compiled from. -/
def Covers (r : Registry) (keys : Key c → Prop) (s : Schema) (v : Json) : Prop :=
  ∀ cl : Closure, Compiled r keys s cl → cl.Fine c → Belongs c cl v

/-- Which types a schema covers is a matter of its shape. -/
theorem Covers.of_shape {s t : Schema} {v : Json} (h : s.canonical = t.canonical) (hs : Covers r keys s v) :
    Covers r keys t v := fun cl hcl hfine => hs cl (.shape hcl h.symm) hfine

/-- What a schema admits belongs to the types that it was compiled from, if that is so for subschemas and what is
registered. -/
theorem belongs_of_admits (hgood : ∀ key entry, keys key → r.get? key.id = some entry → key.Good r keys)
    (htidy : r.Tidy) {s : Schema} {cl : Closure} {v : Json} (h : Compiled r keys s cl) (hfine : cl.Fine c)
    (hv : s.keywords.Admits r.get? (Covers r keys) v) : Belongs c cl v := by
  induction h generalizing v with
  | given h => exact h.elim
  | viewed h => exact h.elim
  | @shape s t cl h hshape ih =>
    obtain ⟨k⟩ := s
    obtain ⟨k'⟩ := t
    exact ih hfine (Keywords.Admits.of_shape hshape.symm (fun _ _ _ hst hs => hs.of_shape hst) hv)
  | target htarget h ih => exact .named htarget (ih (hfine.target htarget) hv)
  | @key key cl args hkey htarget hlength hargs ih =>
    -- a reference asks about its entry, which is where the induction on the value takes over
    obtain ⟨entry, hget, hentry⟩ := Schema.admits_reference.mp hv
    exact .named htarget (hentry _ (Compiled.entry hgood htidy hkey hget hlength hargs) (hfine.target htarget))
  | @built cl parts build l entries hform hnode hlength htidy hparts ih =>
    obtain ⟨e, scope, unit⟩ := cl
    refine belongs_of_build hnode hfine.sensible.union hform hlength (fun p hp w hw => ?_) hv
    have hpart := hfine.part hform (List.of_mem_zip hp).2
    exact hw.elim (ih p hp hpart) fun hw => hw _ (hparts p hp) hpart
  | @intersection cl members l hnode hlength htidy hparts ih =>
    obtain ⟨e, scope, unit⟩ := cl
    obtain rfl : e = .intersection members := hnode
    obtain ⟨-, hmembers⟩ := hfine.sensible.intersection members rfl
    refine .intersection fun e he => ?_
    obtain ⟨s, hs⟩ := exists_mem_zip_left hlength he
    have hs := mem_zip_swap hs
    have hpart : (Closure.mk e scope unit).Fine c := hfine.part rfl he
    -- the members are not sealed, so their schemas can be merged without losing anything
    have hopen : ∀ t ∈ l, t.IsOpen := fun t ht => by
      obtain ⟨a, ha⟩ := exists_mem_zip_left hlength.symm ht
      exact Compiled.isOpen (hparts _ ha) (hmembers a (List.of_mem_zip ha).2)
    have hshape : ∀ s t w, s.canonical = t.canonical → Covers r keys s w → Covers r keys t w :=
      fun _ _ _ hst hs => hs.of_shape hst
    rcases Registry.admits_allOf hshape htidy hopen hv s (List.of_mem_zip hs).1 with hw | hw
    · exact ih (s, e) hs hpart hw
    · exact hw _ (hparts (s, e) hs) hpart

/-- What validates against a schema belongs to the types that it was compiled from. -/
theorem belongs_of_validates (hgood : ∀ key entry, keys key → r.get? key.id = some entry → key.Good r keys)
    (htidy : r.Tidy) {s : Schema} {v : Json} (hv : Validates r s v) : Covers r keys s v := by
  refine Validates.least (P := Covers r keys) (fun s v hadmits cl hcl hfine => ?_) hv
  exact belongs_of_admits hgood htidy hcl hfine hadmits

/-! ## From types to schemas

The induction is over the derivation that the value belongs. A union is taken apart as a whole, since a value that
belongs to a nested union belongs to a variant of the flattened one. -/

/-- A value validates against all schemas that were compiled from a type. -/
def Complete (r : Registry) (keys : Key c → Prop) (cl : Closure) (v : Json) : Prop :=
  cl.Fine c → ∀ s, Compiled r keys s cl → Validates r s v

/-- For what is built from its parts only built schemas matter. -/
theorem complete_of_built {cl : Closure} {v : Json} {parts : List TypeExpr} {build : Registry → List Schema → Schema}
    (hform : cl.node.form = .built parts build) (hnode : ∀ members, cl.node ≠ .intersection members)
    (h : ∀ entries l, l.length = parts.length → (∀ s ∈ l, s.Tidy) →
      (∀ p ∈ l.zip parts, ∀ w, Complete r keys (cl.within p.2) w → Validates r p.1 w) →
      Validates r (build entries l) v) :
    Complete r keys cl v := by
  intro hfine s hs
  obtain ⟨entries, l, hshape, hlength, htidy, hparts⟩ := hs.of_built hform hnode
  refine Validates.of_shape hshape.symm (h entries l hlength htidy fun p hp w hw => ?_)
  exact hw (hfine.part hform (List.of_mem_zip hp).2) p.1 (hparts p hp)

/-- A value that is complete for all members is complete for their intersection, merged or not. -/
theorem complete_intersection {members : List TypeExpr} {scope : List (String × Closure)} {unit : Path} {v : Json}
    (h : ∀ e ∈ members, Complete r keys (.mk e scope unit) v) :
    Complete r keys (.mk (.intersection members) scope unit) v := by
  intro hfine s hs
  obtain ⟨hne, hmembers⟩ := hfine.sensible.intersection members rfl
  obtain ⟨l, hshape, hlength, htidy, hparts⟩ := hs.of_intersection rfl
  have hmember {t : Schema} (ht : t ∈ l) : ∃ e ∈ members, Compiled r keys t (.mk e scope unit) := by
    obtain ⟨e, he⟩ := exists_mem_zip_left hlength.symm ht
    exact ⟨e, (List.of_mem_zip he).2, hparts (t, e) he⟩
  refine Validates.of_shape hshape.symm (Registry.validates_allOf ?_ htidy (fun t ht => ?_) fun t ht => ?_)
  · rintro rfl
    exact hne (List.length_eq_zero_iff.mp hlength.symm)
  · obtain ⟨e, he, ht⟩ := hmember ht
    exact ht.isOpen (hmembers e he)
  · obtain ⟨e, he, ht⟩ := hmember ht
    exact h e he (hfine.part rfl he) t ht

/-- What stands for a key is complete if the entry of the key is. -/
theorem complete_target (hgood : ∀ key entry, keys key → r.get? key.id = some entry → key.Good r keys) (htidy : r.Tidy)
    (hfilled : ∀ key, keys key → ∃ entry, r.get? key.id = some entry) {cl target : Closure} {v : Json}
    (htarget : cl.target? c = some target) (h : Complete r keys target v) : Complete r keys cl v := by
  intro hfine s hs
  rcases hs.of_target htarget with hs | ⟨key, args, hkey, rfl, hshape, hlength, hargs⟩
  · exact h (hfine.target htarget) s hs
  · obtain ⟨entry, hget⟩ := hfilled key hkey
    refine Validates.of_shape hshape.symm (validates_iff.mpr (Schema.admits_reference.mpr ⟨entry, hget, ?_⟩))
    exact h (hfine.target htarget) entry (Compiled.entry hgood htidy hkey hget hlength hargs)

/-- What belongs to a type validates against the schemas that were compiled from it. Of a union it belongs to a
variant that is no union. -/
theorem validates_of_belongs (hgood : ∀ key entry, keys key → r.get? key.id = some entry → key.Good r keys)
    (htidy : r.Tidy) (hfilled : ∀ key, keys key → ∃ entry, r.get? key.id = some entry) {cl : Closure} {v : Json}
    (h : Belongs c cl v) : Complete r keys cl v ∧ ∀ variants, cl.node = .union variants →
      ∃ e ∈ TypeExpr.flatten variants, Belongs c (cl.within e) v ∧ Complete r keys (cl.within e) v := by
  have hother {cl : Closure} {v : Json} (hnode : ∀ variants, cl.node ≠ .union variants) (h : Complete r keys cl v) :
      Complete r keys cl v ∧ ∀ variants, cl.node = .union variants →
        ∃ e ∈ TypeExpr.flatten variants, Belongs c (cl.within e) v ∧ Complete r keys (cl.within e) v :=
    ⟨h, fun variants heq => absurd heq (hnode variants)⟩
  induction h with
  | primitive hv =>
    refine hother nofun (complete_of_built rfl nofun fun _ l _ _ _ => ?_)
    exact validates_iff.mpr (Schema.admits_ofPrimitive.mpr hv)
  | @object properties closed scope unit members _ hrequired hclosed ih =>
    refine hother nofun (complete_of_built rfl nofun fun _ l hlength _ hparts => ?_)
    refine validates_iff.mpr (Schema.admits_object.mpr ⟨members, rfl, fun ⟨name, s⟩ hp m hm hname => ?_, ?_, ?_⟩)
    · obtain ⟨member, hmember, hs⟩ := Table.exists_member hp
      exact hparts _ hs m.2 (ih _ hmember m hm hname).1
    · intro name hname
      obtain ⟨p, hp, hrequire, rfl⟩ := TypeExpr.mem_requiredNames.mp hname
      exact hrequired p hp hrequire
    · intro hclose m hm
      rw [Table.names_zip_names hlength]
      exact hclosed hclose m hm
  | @map value scope unit members _ ih =>
    refine hother nofun (complete_of_built rfl nofun fun _ l hlength _ hparts => ?_)
    obtain ⟨s, rfl⟩ := List.length_eq_one_iff.mp hlength
    refine validates_iff.mpr (Schema.admits_map.mpr ⟨members, rfl, fun m hm => ?_⟩)
    exact hparts (s, value) List.mem_cons_self m.2 (ih m hm).1
  | @array element scope unit items _ ih =>
    refine hother nofun (complete_of_built rfl nofun fun _ l hlength _ hparts => ?_)
    obtain ⟨s, rfl⟩ := List.length_eq_one_iff.mp hlength
    refine validates_iff.mpr (Schema.admits_array.mpr ⟨items, rfl, fun w hw => ?_⟩)
    exact hparts (s, element) List.mem_cons_self w (ih w hw).1
  | @tuple elements scope unit items hitems _ ih =>
    refine hother nofun (complete_of_built rfl nofun fun _ l hlength _ hparts => ?_)
    refine validates_iff.mpr (Schema.admits_tuple.mpr ⟨items, rfl, hlength.trans hitems, fun ⟨s, w⟩ hp => ?_⟩)
    obtain ⟨e, hs, hw⟩ := exists_mem_zip_between hlength.symm hp
    exact hparts (s, e) hs w (ih (e, w) hw).1
  | @union variants scope unit variant v hmem hv ih =>
    -- the variant is one that is no union, or has one inside
    have hflat : ∃ e ∈ TypeExpr.flatten variants, Belongs c (.mk e scope unit) v ∧
        Complete r keys (.mk e scope unit) v := by
      by_cases hnested : ∃ inner, variant = .union inner
      · obtain ⟨inner, rfl⟩ := hnested
        obtain ⟨e, he, h⟩ := ih.2 inner rfl
        exact ⟨e, TypeExpr.mem_flatten_of_union hmem he, h⟩
      · exact ⟨variant, TypeExpr.mem_flatten_of_mem hmem fun inner heq => hnested ⟨inner, heq⟩, hv, ih.1⟩
    refine ⟨?_, fun other heq => ?_⟩
    · obtain ⟨e, he, hv, hcomplete⟩ := hflat
      obtain ⟨parts, build, hform⟩ := TypeExpr.form_union variants
      refine complete_of_built hform nofun fun entries l hlength htidy hparts => ?_
      exact validates_of_union hform hlength htidy he hv (fun s hs => hparts (s, e) hs v hcomplete) entries
    · cases heq
      exact hflat
  | intersection _ ih => exact hother nofun (complete_intersection fun e he => (ih e he).1)
  | @enumeration literals scope unit l hl =>
    refine hother nofun (complete_of_built rfl nofun fun _ _ _ _ _ => ?_)
    exact validates_iff.mpr (Schema.admits_ofLiterals.mpr ⟨l, hl, rfl⟩)
  | @literal l scope unit =>
    refine hother nofun (complete_of_built rfl nofun fun _ _ _ _ _ => ?_)
    exact validates_iff.mpr (Schema.admits_ofLiterals.mpr ⟨l, List.mem_cons_self, rfl⟩)
  | @named cl target v htarget _ ih =>
    refine hother (fun variants heq => ?_) (complete_target hgood htidy hfilled htarget ih.1)
    obtain ⟨parts, build, hform⟩ := TypeExpr.form_union variants
    rw [← heq] at hform
    rw [Closure.target?_built hform] at htarget
    cases htarget

end Meaning

/-! ## Resolving

The invariant of a resolver that was reached by successful calls is `Keyed`: every id that is registered belongs to a
key, a declaration with the arguments it is applied to, and is filled with what that compiles to. -/

/-- A resolver after any successful resolutions. -/
inductive Resolver.Reached : Resolver c → Prop where
  | fresh : Reached {}
  | resolved {r : Resolver c} {e : TypeExpr} {origin : Location} {s : Schema} {r' : Resolver c} :
      Reached r → (resolve e origin).run r = (.ok s, r') → Reached r'

/-- Outside any expansion a resolution compiles its type. -/
theorem compiled_of_resolve (hc : c.Separate) {keys : Key c → Prop} {r r' : Resolver c}
    (hr : Keyed {} (fun _ => False) keys r) {e : TypeExpr} {origin : Location} {s : Schema}
    (h : (resolve e origin).run r = (.ok s, r')) :
    ∃ keys' : Key c → Prop, Keyed {} (fun _ => False) keys' r' ∧
      Compiled r'.registry keys' s (.mk e [] origin.unit) := by
  have hrun : Runs {} (.node [] origin e) r (.ok s) r' := runs_iff.mpr h
  have hstart : (Task.node [] origin e).Ready {} (fun _ => False) keys r :=
    ⟨hr, Pending.leadTo_empty _, trivial, nofun, nofun, nofun⟩
  obtain ⟨keys', hr', -, -, hcompiled⟩ := hrun.compiled hc rfl hstart
  exact ⟨keys', hr', hcompiled _ [] fun _ => ⟨fun _ => rfl, fun _ hs => by cases hs⟩⟩

/-- The invariant holds after any successful calls, since each of them keeps it. -/
theorem Resolver.Reached.keyed (hc : c.Separate) {r : Resolver c} (hr : r.Reached) :
    ∃ keys, Keyed {} (fun _ => False) keys r := by
  induction hr with
  | fresh => exact ⟨_, keyed_empty⟩
  | resolved _ h ih =>
    obtain ⟨keys, hkeys⟩ := ih
    obtain ⟨keys', hkeys', -⟩ := compiled_of_resolve hc hkeys h
    exact ⟨keys', hkeys'⟩

/-- Resolution preserves the meaning of types: after any successful resolutions, a value validates against the schema
that is answered for a type if and only if it belongs to the type. -/
theorem resolve_preserves_meaning (hc : c.Separate) {r r' : Resolver c} (hr : r.Reached) {e : TypeExpr}
    {origin : Location} {s : Schema} (h : (resolve e origin).run r = (.ok s, r'))
    (hfine : (Closure.mk e [] origin.unit).Fine c) (v : Json) :
    Validates r'.registry s v ↔ Belongs c (.mk e [] origin.unit) v := by
  obtain ⟨keys, hkeys⟩ := hr.keyed hc
  obtain ⟨keys', hkeys', hcompiled⟩ := compiled_of_resolve hc hkeys h
  -- nothing is being expanded any more, so every key has its schema
  have hgood : ∀ key, keys' key → key.Good r'.registry keys' := fun key hkey => (hkeys'.good key hkey).resolve_left id
  have hfilled : ∀ key, keys' key → ∃ entry, r'.registry.get? key.id = some entry := fun key hkey => by
    obtain ⟨entry, hentry, -⟩ := hgood key hkey
    exact ⟨entry, hentry⟩
  constructor
  · exact fun hv => belongs_of_validates (fun key _ hkey _ => hgood key hkey) hkeys'.tidy hv _ hcompiled hfine
  · exact fun hv => (validates_of_belongs (fun key _ hkey _ => hgood key hkey) hkeys'.tidy hfilled hv).1 hfine
      s hcompiled

/-! ### Trees of labels

A catalog with a recursive generic, a union in a union and an intersection that is merged. -/

/-- Trees of anything, and labels for them: a note, or a number, or nothing. -/
def treeCatalog : Catalog where
  declarations := [
    { name := "Tree", typeParams := ["T"], location := ⟨⟨"tree.rs"⟩, 1, 0⟩,
      body := .object [("value", ⟨.reference "T", true⟩),
        ("children", ⟨.array (.generic "Tree" [.reference "T"]), true⟩)] true },
    { name := "Label", location := ⟨⟨"tree.rs"⟩, 5, 0⟩,
      body := .union [.reference "Note", .union [.primitive .i64, .null]] },
    { name := "Note", location := ⟨⟨"tree.rs"⟩, 7, 0⟩,
      body := .intersection [.object [("text", ⟨.string, true⟩)] false, .object [("page", ⟨.primitive .i64, true⟩)] false] }]

/-- Trees of labels. -/
def labelledTree : TypeExpr := .generic "Tree" [.reference "Label"]

/-- No id is asked for by two declarations of the catalog. -/
theorem treeCatalog_separate : treeCatalog.Separate := by
  have hnone : ∀ i, (treeCatalog.get i).externalId = none := by decide
  refine Catalog.separate_of_alone fun i _ id ⟨hid, _⟩ => ?_
  rw [hnone] at hid
  cases hid

/-- Variants of unions are there, and an intersection is one of open objects. -/
theorem treeCatalog_plain (i : Fin treeCatalog.size) : (treeCatalog.get i).body.Plain := by
  have hname (name : String) : (TypeExpr.reference name).Plain := .of_named rfl (List.forall_mem_nil _)
  have hprimitive (kind : Primitive) : (TypeExpr.primitive kind).Plain := .of_built rfl trivial (List.forall_mem_nil _)
  have hall : ∀ d ∈ treeCatalog.declarations, d.body.Plain := by
    refine List.forall_mem_cons.mpr ⟨?tree, List.forall_mem_cons.mpr ⟨?label, List.forall_mem_singleton.mpr ?note⟩⟩
    case tree =>
      have hchild : (TypeExpr.generic "Tree" [.reference "T"]).Plain :=
        .of_named rfl (List.forall_mem_singleton.mpr (hname "T"))
      have hchildren : (TypeExpr.array (.generic "Tree" [.reference "T"])).Plain :=
        .of_built rfl trivial (List.forall_mem_singleton.mpr hchild)
      exact .of_built rfl trivial (List.forall_mem_cons.mpr ⟨hname "T", List.forall_mem_singleton.mpr hchildren⟩)
    case label =>
      -- the number stands in a union inside the union, and null is no part
      have hflat : TypeExpr.flatten [.reference "Note", .union [.primitive .i64, .null]] =
          [.reference "Note", .primitive .i64, .null] := by
        rw [← TypeExpr.leavesOf_eq]
        rfl
      have hsimple : (TypeExpr.union [.reference "Note", .union [.primitive .i64, .null]]).Simple := by
        simp [TypeExpr.Simple, hflat]
      have hproper : TypeExpr.proper [.reference "Note", .union [.primitive .i64, .null]] =
          [.reference "Note", .primitive .i64] := by
        rw [TypeExpr.proper, hflat]
        rfl
      obtain ⟨parts, build, hform⟩ := TypeExpr.form_union [.reference "Note", .union [.primitive .i64, .null]]
      refine .of_built hform hsimple ?_
      cases TypeExpr.unionForm hform with
      | null | literals => exact List.forall_mem_nil _
      | alternatives =>
        rw [hproper]
        exact List.forall_mem_cons.mpr ⟨hname "Note", List.forall_mem_singleton.mpr (hprimitive .i64)⟩
    case note =>
      refine .of_built rfl ⟨List.cons_ne_nil _ _, ?_⟩ ?_
      · exact List.forall_mem_cons.mpr ⟨⟨_, rfl⟩, List.forall_mem_singleton.mpr ⟨_, rfl⟩⟩
      · refine List.forall_mem_cons.mpr ⟨?_, List.forall_mem_singleton.mpr ?_⟩
        · exact .of_built rfl trivial (List.forall_mem_singleton.mpr (hprimitive .string))
        · exact .of_built rfl trivial (List.forall_mem_singleton.mpr (hprimitive .i64))
  exact hall _ (List.get_mem _ _)

/-- Trees of labels have a schema for just their values: inside a tree its parameter stands for the label, the union inside
the label is flattened, and the members of a note are merged. -/
theorem resolve_preserves_meaning_tree : ∃ (s : Schema) (r' : Resolver treeCatalog),
    (resolve labelledTree ⟨⟨"tree.rs"⟩, 9, 0⟩).run {} = (.ok s, r') ∧
      ∀ v, Validates r'.registry s v ↔ Belongs treeCatalog (.mk labelledTree [] ⟨"tree.rs"⟩) v := by
  have hok : ((resolve labelledTree ⟨⟨"tree.rs"⟩, 9, 0⟩).run ({} : Resolver treeCatalog)).1.isOk = true := by
    rw [resolve_eq_within]
    decide +kernel
  have hfine : (Closure.mk labelledTree [] ⟨"tree.rs"⟩).Fine treeCatalog :=
    Closure.Plain.fine treeCatalog_plain
      (.mk (.of_named rfl (List.forall_mem_singleton.mpr (.of_named rfl nofun))) nofun)
  rcases h : (resolve labelledTree ⟨⟨"tree.rs"⟩, 9, 0⟩).run ({} : Resolver treeCatalog) with ⟨fault | s, r'⟩
  · rw [h] at hok
    cases hok
  · exact ⟨s, r', rfl, resolve_preserves_meaning treeCatalog_separate .fresh h hfine⟩

end RouteManifest
