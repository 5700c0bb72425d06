import RouteManifest.Proofs.Table
import RouteManifest.Schema.References

/-!
# What a schema points at

`Schema.refIds` and `Schema.references` are folds, and are read off one node here. The two do not list the
same ids: a mapping's targets are among the first alone. `Schema.Closed` says of a schema that all it points
at has a property, and that nothing is a target of a mapping without being a `$ref` somewhere in the schema;
so whoever looks at `$ref`s alone overlooks nothing.

Every function on schemas goes down to the subschemas of a node (`Keywords.children`). Where they stand is said
once (`Keywords.mem_children`), so an induction over schemas has one case, whatever keywords there are.
-/

namespace RouteManifest

namespace Keywords

variable {σ τ : Type}

/-- The places of subschemas. -/
theorem mem_children {k : Keywords σ} {s : σ} : s ∈ k.children ↔
    (∃ t, k.properties = some t ∧ s ∈ Table.values t) ∨ k.additional = some (.schema s) ∨ k.items = some s ∨
      (∃ l, k.prefixItems = some l ∧ s ∈ l) ∨ (∃ l, k.oneOf = some l ∧ s ∈ l) ∨
        ∃ l, k.allOf = some l ∧ s ∈ l := by
  obtain ⟨-, -, properties, -, additional, items, prefixItems, -, -, -, oneOf, allOf, -, -, -⟩ := k
  have hproperties : s ∈ (properties.map Table.values).getD [] ↔
      ∃ t, properties = some t ∧ s ∈ Table.values t := by
    cases properties <;> simp
  have hadditional : s ∈ (additional.map Additional.children).getD [] ↔ additional = some (.schema s) := by
    rcases additional with _ | (_ | a)
    · simp
    · simp [Additional.children]
    · simp [Additional.children, eq_comm]
  have hlist (o : Option (List σ)) : s ∈ o.getD [] ↔ ∃ l, o = some l ∧ s ∈ l := by
    cases o <;> simp
  rw [children, List.mem_append, List.mem_append, List.mem_append, List.mem_append, List.mem_append,
    hproperties, hadditional, hlist, hlist, hlist, Option.mem_toList]
  simp only [or_assoc]

section Places

variable {k : Keywords σ} {s : σ}

theorem mem_children_of_properties {t : Table σ} (h : k.properties = some t) (hs : s ∈ Table.values t) :
    s ∈ k.children :=
  mem_children.mpr (Or.inl ⟨t, h, hs⟩)

theorem mem_children_of_additional (h : k.additional = some (.schema s)) : s ∈ k.children :=
  mem_children.mpr (Or.inr (Or.inl h))

theorem mem_children_of_items (h : k.items = some s) : s ∈ k.children :=
  mem_children.mpr (Or.inr (Or.inr (Or.inl h)))

theorem mem_children_of_prefixItems {l : List σ} (h : k.prefixItems = some l) (hs : s ∈ l) : s ∈ k.children :=
  mem_children.mpr (Or.inr (Or.inr (Or.inr (Or.inl ⟨l, h, hs⟩))))

theorem mem_children_of_oneOf {l : List σ} (h : k.oneOf = some l) (hs : s ∈ l) : s ∈ k.children :=
  mem_children.mpr (Or.inr (Or.inr (Or.inr (Or.inr (Or.inl ⟨l, h, hs⟩)))))

theorem mem_children_of_allOf {l : List σ} (h : k.allOf = some l) (hs : s ∈ l) : s ∈ k.children :=
  mem_children.mpr (Or.inr (Or.inr (Or.inr (Or.inr (Or.inr ⟨l, h, hs⟩)))))

end Places

/-- Changing the subschemas of a node changes each where it stands. -/
theorem children_map (f : σ → τ) (k : Keywords σ) : (k.map f).children = k.children.map f := by
  have hAdditional (a : Additional σ) : (a.map f).children = a.children.map f := by cases a <;> rfl
  obtain ⟨-, -, properties, -, additional, items, prefixItems, -, -, -, oneOf, allOf, -, -, -⟩ := k
  simp only [children, map, List.map_append]
  congr 1
  · congr 1
    · congr 1
      · congr 1
        · congr 1
          · cases properties with
            | none => rfl
            | some t => simp [Table.values, Table.mapValues]
          · cases additional with
            | none => rfl
            | some a => exact hAdditional a
        · cases items <;> rfl
      · cases prefixItems <;> rfl
    · cases oneOf <;> rfl
  · cases allOf <;> rfl

/-- What a node points at itself does not depend on its subschemas. -/
theorem ownRefs_map (f : σ → τ) (k : Keywords σ) : (k.map f).ownRefs = k.ownRefs := rfl

end Keywords

namespace Schema

/-! ## One node

Three folds and their equations. Everything later goes through these, or through `mem_children`, and opens no fold. -/

/-- The ids of a schema are those of the node, and then those of its subschemas. -/
theorem refIds_mk (k : Keywords Schema) : refIds (.mk k) = k.ownRefs ++ (k.children.map refIds).flatten := by
  rw [refIds, fold_mk, Keywords.children_map, Keywords.ownRefs_map]

/-- Each id of a schema belongs to the node or to a subschema. -/
theorem mem_refIds_mk {k : Keywords Schema} {id : String} :
    id ∈ refIds (.mk k) ↔ id ∈ k.ownRefs ∨ ∃ s ∈ k.children, id ∈ s.refIds := by
  rw [refIds_mk, List.mem_append, List.mem_flatten]
  refine or_congr_right ⟨?_, ?_⟩
  · rintro ⟨_, hl, hid⟩
    obtain ⟨s, hs, rfl⟩ := List.mem_map.mp hl
    exact ⟨s, hs, hid⟩
  · rintro ⟨s, hs, hid⟩
    exact ⟨_, List.mem_map_of_mem hs, hid⟩

/-- The target of a reference is among them. -/
theorem mem_refIds_of_ref {s : Schema} {id : String} (h : s.keywords.ref = some id) : id ∈ s.refIds := by
  obtain ⟨k⟩ := s
  rw [mem_refIds_mk, Keywords.ownRefs, show k.ref = some id from h]
  exact Or.inl List.mem_cons_self

/-- Renaming is done at the node and at its subschemas. -/
theorem mapRefs_mk (f : String → String) (k : Keywords Schema) :
    mapRefs f (.mk k) = .mk ((k.map (mapRefs f)).mapOwnRefs f) := fold_mk _ k

/-- A schema holds a reference to an id at the node, or in a subschema; the mapping is not looked at. -/
theorem references_mk {k : Keywords Schema} {id : String} :
    references id (.mk k) = true ↔ k.ref = some id ∨ ∃ s ∈ k.children, s.references id = true := by
  rw [references, fold_mk, Keywords.children_map, Bool.or_eq_true, List.contains_iff_mem, List.mem_map]
  exact or_congr beq_iff_eq Iff.rfl

/-- A reference refers to its target alone. -/
theorem references_reference {id other : String} : references id (reference other) = true ↔ other = id := by
  rw [reference, references_mk]
  constructor
  · rintro (h | ⟨s, hs, -⟩)
    · exact Option.some.inj h
    · cases hs
  · exact fun h => Or.inl (congrArg some h)

/-- What a subschema refers to, the schema does. -/
theorem references_of_mem_children {k : Keywords Schema} {s : Schema} (hs : s ∈ k.children) {id : String}
    (h : s.references id = true) : references id (.mk k) = true :=
  references_mk.mpr (Or.inr ⟨s, hs, h⟩)

/-- The ids of a renamed schema are the renamed ids, in the same order. -/
theorem refIds_mapRefs (f : String → String) (s : Schema) : (s.mapRefs f).refIds = s.refIds.map f := by
  induction s using Schema.induction with
  | step k ih =>
    have hchildren : ((k.map (mapRefs f)).mapOwnRefs f).children = k.children.map (mapRefs f) :=
      Keywords.children_map (mapRefs f) k
    have hown : ((k.map (mapRefs f)).mapOwnRefs f).ownRefs = k.ownRefs.map f := by
      obtain ⟨-, -, -, -, -, -, -, -, -, -, -, -, discriminator, -, ref⟩ := k
      rcases discriminator with _ | ⟨name, _ | mapping⟩ <;> cases ref <;>
        simp [Keywords.ownRefs, Keywords.mapOwnRefs, Keywords.map, Table.values, Table.mapValues]
    rw [mapRefs_mk, refIds_mk, refIds_mk, hown, hchildren, List.map_append, List.map_flatten, List.map_map,
      List.map_map]
    congr 2
    exact List.map_congr_left ih

/-! ## Closed schemas

Closedness is asked of a schema and of its subschemas, so it is a predicate with one rule. What a mapping points at is
an alternative beside it, which is how resolution makes mappings. -/

/-- All that the schema points at has the property, and at every node is a `$ref` at the node or inside it. -/
inductive Closed (P : String → Prop) : Schema → Prop where
  | mk {k : Keywords Schema} (children : ∀ s ∈ k.children, Closed P s)
      (own : ∀ id ∈ k.ownRefs, P id ∧ references id (.mk k) = true) : Closed P (.mk k)

variable {P Q : String → Prop}

/-- Subschemas of a closed schema are closed. -/
theorem Closed.of_mem_children {k : Keywords Schema} (h : Closed P (.mk k)) {s : Schema} (hs : s ∈ k.children) :
    s.Closed P := by
  obtain ⟨children, -⟩ := h
  exact children s hs

/-- Every id of a closed schema has the property, and the schema holds a reference to it. -/
theorem Closed.refIds {s : Schema} (h : s.Closed P) : ∀ id ∈ s.refIds, P id ∧ s.references id = true := by
  induction h with
  | mk _ own ih =>
    intro id hid
    rcases mem_refIds_mk.mp hid with hid | ⟨s, hs, hid⟩
    · exact own id hid
    · have := ih s hs id hid
      exact ⟨this.1, references_of_mem_children hs this.2⟩

/-- What a closed schema refers to has the property. -/
theorem Closed.of_references {s : Schema} (h : s.Closed P) {id : String} (href : s.references id = true) : P id := by
  induction h with
  | @mk k _ own ih =>
    rcases references_mk.mp href with hid | ⟨s, hs, hid⟩
    · refine (own id ?_).1
      rw [Keywords.ownRefs, hid]
      exact List.mem_cons_self
    · exact ih s hs hid

/-- The property matters for the ids that are `$ref`s of the schema. -/
theorem Closed.mono {s : Schema} (hs : s.Closed P) (h : ∀ id, P id → s.references id = true → Q id) :
    s.Closed Q := by
  induction hs with
  | @mk k _ own ih =>
    refine .mk (fun s hs => ih s hs fun id hP href => h id hP (references_of_mem_children hs href)) ?_
    exact fun id hid => ⟨h id (own id hid).1 (own id hid).2, (own id hid).2⟩

/-- A node that points at nothing itself is closed if its subschemas are. -/
theorem closed_of_children {k : Keywords Schema} (hown : k.ownRefs = [])
    (hchildren : ∀ s ∈ k.children, s.Closed P) : Closed P (.mk k) :=
  .mk hchildren fun id hid => by
    rw [hown] at hid
    cases hid

/-- References to different ids are different. -/
theorem reference_inj {id target : String} (h : reference id = reference target) : id = target :=
  Option.some.inj (congrArg refId? h)

/-- A reference is closed if its target has the property: it is a target of no mapping. -/
theorem closed_reference {id : String} (h : P id) : (reference id).Closed P :=
  .mk (fun _ hs => by cases hs) fun other hid => by
    obtain rfl := List.mem_singleton.mp hid
    exact ⟨h, references_mk.mpr (Or.inl rfl)⟩

/-- The properties of a closed schema. -/
theorem Closed.properties {s v : Schema} {name : String} (hs : s.Closed P)
    (hv : (name, v) ∈ s.keywords.properties.getD []) : v.Closed P := by
  obtain ⟨k⟩ := s
  refine hs.of_mem_children ?_
  rcases hp : k.properties with _ | t
  · rw [keywords, hp] at hv
    cases hv
  · rw [keywords, hp] at hv
    have : v ∈ (k.properties.map Table.values).getD [] := by
      rw [hp]
      exact List.mem_map_of_mem (f := Prod.snd) hv
    simp only [Keywords.children, List.mem_append]
    exact Or.inl (Or.inl (Or.inl (Or.inl (Or.inl this))))

/-- What is left of a closed schema without null is closed. -/
theorem closed_unwrapNullable? {s inner : Schema} (hs : s.Closed P) (h : s.unwrapNullable? = some inner) :
    inner.Closed P := by
  obtain ⟨k⟩ := s
  rw [unwrapNullable?] at h
  split at h
  next only heq =>
    split at h
    · obtain rfl := Option.some.inj h
      have heq : k.oneOf = some [only] := heq
      refine hs.of_mem_children ?_
      simp [Keywords.children, heq]
    · cases h
  · cases h

/-- An object is closed if its properties are. -/
theorem closed_object {properties : Table Schema} (h : ∀ s ∈ properties.values, s.Closed P)
    (required : List String) (closed : Bool) : (object properties required closed).Closed P := by
  refine closed_of_children rfl fun s hs => h s ?_
  cases closed <;> simpa [Keywords.children, Additional.children] using hs

end Schema

end RouteManifest
