import RouteManifest.Proofs.Schema.Canonical

/-!
# Renaming ids

`Schema.mapRefs` renames all that a schema points at. Renaming is a matter of the ids in the schema alone, and one
renaming after the other is one renaming. It changes nothing else: shapes are renamed as the schemas are, so a renaming
that does not confuse the ids of two schemas does not confuse the schemas either, and sees them as equal just if they
are (`fingerprint_mapRefs`, `same_mapRefs`).

That a renaming does not confuse ids is said by a function that undoes it on the ids in question. Two schemas that are
equal when renamed are then equal when renamed back.
-/

namespace RouteManifest

/-- Renames the ids that a discriminator sends its tags to. -/
def Discriminator.mapRefs (f : String → String) (d : Discriminator) : Discriminator :=
  { d with mapping := d.mapping.map (Table.mapValues f) }

/-! ## One node

A node points at things by itself in two ways, by its own reference and by the targets of its mapping, and both are
renamed with the subschemas left alone. -/

namespace Keywords

variable {σ τ : Type} {f g : String → String}

/-- Renaming what a node points at and changing its subschemas do not get in each other's way. -/
theorem mapOwnRefs_map (f : String → String) (h : σ → τ) (k : Keywords σ) :
    (k.map h).mapOwnRefs f = (k.mapOwnRefs f).map h := rfl

/-- One renaming after the other is one renaming. -/
theorem mapOwnRefs_mapOwnRefs (f g : String → String) (k : Keywords σ) :
    (k.mapOwnRefs f).mapOwnRefs g = k.mapOwnRefs (g ∘ f) := by
  have hmapping (m : Table String) : (m.mapValues f).mapValues g = m.mapValues (g ∘ f) := by simp [Table.mapValues]
  simp [mapOwnRefs, Function.comp_def, hmapping]

/-- Renaming nothing changes nothing. -/
theorem mapOwnRefs_id (k : Keywords σ) : k.mapOwnRefs id = k := by
  have hmapping (m : Table String) : m.mapValues id = m := by simp [Table.mapValues]
  simp [mapOwnRefs, funext hmapping, Option.map_id']

/-- Only the ids that the node points at matter. -/
theorem mapOwnRefs_congr {k : Keywords σ} (h : ∀ id ∈ k.ownRefs, f id = g id) : k.mapOwnRefs f = k.mapOwnRefs g := by
  have href : k.ref.map f = k.ref.map g :=
    Option.map_congr fun id hid => h id (List.mem_append_left _ (by rw [hid]; exact List.mem_cons_self))
  have hdiscriminator : k.discriminator.map (Discriminator.mapRefs f) = k.discriminator.map (Discriminator.mapRefs g) := by
    refine Option.map_congr fun d hd => ?_
    have hmapping : d.mapping.map (Table.mapValues f) = d.mapping.map (Table.mapValues g) := by
      refine Option.map_congr fun m hm => List.map_congr_left fun e he => ?_
      show (e.1, f e.2) = (e.1, g e.2)
      rw [h e.2 (List.mem_append_right _ ?_)]
      rw [hd, Option.bind_some, hm]
      exact List.mem_map_of_mem he
    rw [Discriminator.mapRefs, hmapping]
    rfl
  rw [mapOwnRefs, href]
  exact congrArg (fun d => { k with ref := k.ref.map g, discriminator := d }) hdiscriminator

/-- Properties and mappings are sorted by their names, which are not renamed. -/
theorem canonical_mapOwnRefs (f : String → String) (k : Keywords σ) :
    (k.mapOwnRefs f).canonical = k.canonical.mapOwnRefs f := by
  simp [mapOwnRefs, canonical, Function.comp_def, Table.sortByName_mapValues]

theorem ordered_mapOwnRefs (f : String → String) (k : Keywords σ) :
    (k.mapOwnRefs f).ordered = k.ordered.mapOwnRefs f := by
  simp [mapOwnRefs, ordered, Function.comp_def, Table.sortByName_mapValues]

end Keywords

/-! ## Whole schemas

By induction on the schema, from one node to all of them. -/

namespace Schema

variable {f g : String → String}

/-- Renamings that agree on the ids of a schema do the same to it. -/
theorem mapRefs_congr {s : Schema} (h : ∀ id ∈ s.refIds, f id = g id) : s.mapRefs f = s.mapRefs g := by
  induction s using Schema.induction with
  | step k ih =>
    have hchildren : k.map (mapRefs f) = k.map (mapRefs g) :=
      Keywords.map_congr fun s hs => ih s hs fun id hid => h id (mem_refIds_mk.mpr (Or.inr ⟨s, hs, hid⟩))
    rw [mapRefs_mk, mapRefs_mk, hchildren]
    exact congrArg mk (Keywords.mapOwnRefs_congr fun id hid => h id (mem_refIds_mk.mpr (Or.inl hid)))

/-- Two renamings are one. -/
theorem mapRefs_mapRefs (f g : String → String) (s : Schema) : (s.mapRefs f).mapRefs g = s.mapRefs (g ∘ f) := by
  induction s using Schema.induction with
  | step k ih =>
    rw [mapRefs_mk, mapRefs_mk, mapRefs_mk, ← Keywords.mapOwnRefs_map, Keywords.mapOwnRefs_mapOwnRefs, Keywords.map_map,
      Keywords.map_congr (f := mapRefs g ∘ mapRefs f) ih]

theorem mapRefs_id (s : Schema) : s.mapRefs id = s := by
  induction s using Schema.induction with
  | step k ih =>
    have hmap : k.map id = k := by
      have htable (t : Table Schema) : t.mapValues id = t := by simp [Table.mapValues]
      have hadditional (a : Additional Schema) : a.map id = a := by cases a <;> rfl
      simp [Keywords.map, funext htable, funext hadditional, Option.map_id']
    rw [mapRefs_mk, Keywords.map_congr (f := mapRefs id) (g := id) ih, hmap, Keywords.mapOwnRefs_id]

/-- What is renamed can be renamed back, if no two of its ids were given one name. -/
theorem mapRefs_inverse {s : Schema} (h : ∀ id ∈ s.refIds, g (f id) = id) : (s.mapRefs f).mapRefs g = s := by
  rw [mapRefs_mapRefs, mapRefs_congr (g := id) (f := g ∘ f) h, mapRefs_id]

/-- The shape of a renamed schema is the renamed shape. -/
theorem canonical_mapRefs (f : String → String) (s : Schema) : (s.mapRefs f).canonical = s.canonical.mapRefs f := by
  induction s using Schema.induction with
  | step k ih =>
    rw [mapRefs_mk, canonical_mk, canonical_mk, mapRefs_mk, ← Keywords.mapOwnRefs_map, Keywords.map_map,
      Keywords.canonical_mapOwnRefs, Keywords.map_congr (f := canonical ∘ mapRefs f) (g := mapRefs f ∘ canonical) ih,
      ← Keywords.map_map, Keywords.canonical_map]

/-- Putting in order and renaming do not get in each other's way. -/
theorem ordered_mapRefs (f : String → String) (s : Schema) : (s.mapRefs f).ordered = s.ordered.mapRefs f := by
  induction s using Schema.induction with
  | step k ih =>
    rw [mapRefs_mk, ordered_mk, ordered_mk, mapRefs_mk, ← Keywords.mapOwnRefs_map, Keywords.map_map,
      Keywords.ordered_mapOwnRefs, Keywords.map_congr (f := ordered ∘ mapRefs f) (g := mapRefs f ∘ ordered) ih,
      ← Keywords.map_map, Keywords.ordered_map]

/-! ## Shapes

Fingerprints and equality are told from the shape, so they need the schemas to be spelled. `Over` packs that together
with where the ids come from. -/

/-- A property of nodes that renaming keeps is kept throughout. -/
theorem Every.mapRefs {p : Keywords Schema → Prop} (h : ∀ k, p k → p ((k.map (mapRefs f)).mapOwnRefs f)) {s : Schema}
    (hs : Every p s) : Every p (s.mapRefs f) := by
  induction hs with
  | @mk k node _ ih =>
    rw [mapRefs_mk]
    refine .mk (h k node) fun s hs => ?_
    have hs : s ∈ (k.map (Schema.mapRefs f)).children := hs
    rw [Keywords.children_map] at hs
    obtain ⟨t, ht, rfl⟩ := List.mem_map.mp hs
    exact ih t ht

/-- Values are not renamed. -/
theorem Spelled.mapRefs {s : Schema} (hs : s.Spelled) (f : String → String) : (s.mapRefs f).Spelled :=
  Every.mapRefs (fun _ h => h) hs

/-- A tidy schema that points at ids with a property. -/
structure Over (P : String → Prop) (s : Schema) : Prop where
  tidy : s.Tidy
  closed : s.Closed P

theorem Over.ids {P : String → Prop} {s : Schema} (h : s.Over P) : ∀ id ∈ s.refIds, P id :=
  fun id hid => (h.closed.refIds id hid).1

/-- The properties of a schema point where it does. -/
theorem Over.of_mem_properties {P : String → Prop} {s t : Schema} (h : s.Over P)
    (ht : t ∈ Table.values (s.keywords.properties.getD [])) : t.Over P := by
  refine ⟨h.tidy.of_mem_properties ht, ?_⟩
  obtain ⟨⟨n, v⟩, hv, rfl⟩ := List.mem_map.mp ht
  exact h.closed.properties hv

section Faithful

variable {P : String → Prop} (hf : ∀ id, P id → g (f id) = id) {a b : Schema} (ha : a.Over P) (hb : b.Over P)
include hf ha hb

/-- A renaming that can be undone keeps shapes apart. -/
theorem fingerprint_mapRefs : (a.mapRefs f).fingerprint = (b.mapRefs f).fingerprint ↔ a.fingerprint = b.fingerprint := by
  constructor
  · intro h
    have hshape := congrArg (Schema.mapRefs g)
      (canonical_eq_of_fingerprint (ha.tidy.spelled.mapRefs f) (hb.tidy.spelled.mapRefs f) h)
    rw [← canonical_mapRefs, ← canonical_mapRefs, mapRefs_inverse fun id hid => hf id (ha.ids id hid),
      mapRefs_inverse fun id hid => hf id (hb.ids id hid)] at hshape
    rw [fingerprint, hshape, fingerprint]
  · intro h
    rw [fingerprint, canonical_mapRefs, canonical_eq_of_fingerprint ha.tidy.spelled hb.tidy.spelled h, ← canonical_mapRefs,
      fingerprint]

/-- Renamed schemas are the same just if the schemas are. -/
theorem same_mapRefs : (a.mapRefs f).same (b.mapRefs f) = a.same b := by
  rw [Bool.eq_iff_iff, same_iff (ha.tidy.spelled.mapRefs f) (hb.tidy.spelled.mapRefs f), same_iff ha.tidy.spelled hb.tidy.spelled,
    ordered_mapRefs, ordered_mapRefs]
  refine ⟨fun h => ?_, congrArg _⟩
  have hordered := congrArg (Schema.mapRefs g) h
  rwa [← ordered_mapRefs, ← ordered_mapRefs, ← ordered_mapRefs, ← ordered_mapRefs,
    mapRefs_inverse fun id hid => hf id (ha.ids id hid), mapRefs_inverse fun id hid => hf id (hb.ids id hid)] at hordered

end Faithful

end Schema

end RouteManifest
