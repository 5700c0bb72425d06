import RouteManifest.Proofs.Lists
import RouteManifest.Proofs.Meaning.Building
import RouteManifest.Proofs.Meaning.Compiled

/-!
# Merged objects

An intersection is either kept as an `allOf` of its parts, or its parts are merged into one object. The merged object
has the properties and the required names of all parts (`Registry.validates_merged_iff`), but it is always open: what it
does not say any more is that a part was closed. So it admits what the `allOf` admits just if no part is closed, or
rather, of each value, if the value has no member that a closed part does not declare.
-/

namespace RouteManifest

/-! ## Objects that are merged

What a merged object asks for is what its parts ask for, except that closed parts also enclose a value. The two are
separated here, first for objects and then for schemas in which objects are seen. -/

/-- A value has no member that is foreign to the object seen in a schema, if that object is closed. -/
def Registry.Encloses (r : Registry) (s : Schema) (v : Json) : Prop :=
  ∀ object members, r.objectView? s = some object → v = .object members → object.Encloses members

namespace Registry

variable {r : Registry} {v : Json}

/-- A schema has the values of the object that is seen in it. -/
theorem validates_objectView? {s object : Schema} (h : r.objectView? s = some object) :
    Validates r s v ↔ Validates r object v := by
  obtain ⟨-, ⟨-, rfl⟩ | ⟨id, hid, hget⟩⟩ := objectView?_eq_some.mp h
  · rfl
  · rw [Schema.eq_reference_of_refId? hid, validates_iff, Schema.admits_reference, hget]
    simp

/-- All objects admit a value just if the merged object does, and the closed ones declare all its members. -/
theorem validates_mergedObjects_iff {objects : List Schema} (hne : objects ≠ []) (htidy : ∀ s ∈ objects, s.Tidy)
    {properties : Table Schema} {required : List String}
    (h : ({} : Registry).mergeParts [] [] objects = some (properties, required)) :
    (∀ s ∈ objects, Validates r s v) ↔ Validates r (Schema.object properties required false) v ∧
      ∀ s ∈ objects, ∀ members, v = .object members → s.Encloses members := by
  have hvalidates : ∀ s ∈ objects, Validates r s v ↔
      ∃ members, v = .object members ∧ s.Asks (Validates r) members ∧ s.Encloses members := fun s hs => by
    obtain ⟨hobject, hnull⟩ := isObject_of_mergeParts h s hs
    rw [validates_iff, admits_tidyObject (htidy s hs) hobject hnull]
  have hmerged (members : Table Json) : (properties.Fits (Validates r) members ∧
      ∀ name ∈ required, name ∈ members.names) ↔ ∀ s ∈ objects, s.Asks (Validates r) members := by
    have hasks : (properties.Fits (Validates r) members ∧ ∀ name ∈ required, name ∈ members.names) ↔
        (Table.Fits (Validates r) [] members ∧ ∀ name ∈ [], name ∈ members.names) ∧
          ∀ s ∈ objects, s.Asks (Validates r) members :=
      asks_mergeParts (fun _ _ _ hshape hs => hs.of_shape hshape) htidy (fun _ hs => by cases hs) h
    simpa [Table.Fits, Table.names] using hasks
  rw [validates_iff, Schema.admits_object]
  -- each object admits the value by members of its own, which are the members of one value
  constructor
  · intro hall
    have hmembers (members : Table Json) (hv : v = .object members) :
        ∀ s ∈ objects, s.Asks (Validates r) members ∧ s.Encloses members := fun s hs => by
      obtain ⟨_, hv', hadmits⟩ := (hvalidates s hs).mp (hall s hs)
      rwa [Json.object.inj (hv'.symm.trans hv)] at hadmits
    obtain ⟨s, hs⟩ := List.exists_mem_of_ne_nil objects hne
    obtain ⟨members, hv, -⟩ := (hvalidates s hs).mp (hall s hs)
    obtain ⟨hfits, hrequired⟩ := (hmerged members).mpr fun s hs => (hmembers members hv s hs).1
    exact ⟨⟨members, hv, hfits, hrequired, fun hclosed => by cases hclosed⟩,
      fun s hs members hv => (hmembers members hv s hs).2⟩
  · rintro ⟨⟨members, hv, hfits, hrequired, -⟩, hencloses⟩ s hs
    exact (hvalidates s hs).mpr
      ⟨members, hv, (hmerged members).mp ⟨hfits, hrequired⟩ s hs, hencloses s hs members hv⟩

/-- All parts admit a value just if the merged object does, and the closed parts declare all its members. -/
theorem validates_merged_iff (hr : r.Tidy) {parts : List Schema} (hne : parts ≠ []) (hparts : ∀ s ∈ parts, s.Tidy)
    {properties : Table Schema} {required : List String}
    (h : r.mergeParts [] [] parts = some (properties, required)) :
    (∀ s ∈ parts, Validates r s v) ↔
      Validates r (Schema.object properties required false) v ∧ ∀ s ∈ parts, r.Encloses s v := by
  obtain ⟨views, hlength, hviews, hmerge⟩ := mergeParts_views h
  have hview : List.Forall₂ (fun view part => r.objectView? part = some view) views parts := by
    rw [List.forall₂_iff_zip]
    exact ⟨hlength, fun {view part} hmem => hviews (view, part) hmem⟩
  have htidy : ∀ view ∈ views, view.Tidy := fun view hmem => by
    obtain ⟨part, hpart⟩ := exists_mem_zip_left hlength.symm hmem
    exact tidy_objectView? hr (hparts part (List.of_mem_zip hpart).2) (hviews (view, part) hpart)
  have hvalidates : (∀ s ∈ parts, Validates r s v) ↔ ∀ view ∈ views, Validates r view v := by
    refine (forall_mem_congr_of_forall₂ (hview.imp fun view part h => ?_)).symm
    exact (validates_objectView? h).symm
  have hencloses : (∀ s ∈ parts, r.Encloses s v) ↔ ∀ view ∈ views, ∀ members, v = .object members →
      view.Encloses members := by
    refine (forall_mem_congr_of_forall₂ (hview.imp fun view part h => ?_)).symm
    refine ⟨fun hview object members hobject => ?_, fun hpart members => hpart view members h⟩
    obtain rfl := Option.some.inj (h.symm.trans hobject)
    exact hview members
  rw [hvalidates, hencloses]
  exact validates_mergedObjects_iff (fun hnil => hne (List.length_eq_zero_iff.mp (by rw [← hlength, hnil]; rfl)))
    htidy hmerge

end Registry

variable {c : Catalog}

/-! ## Intersections that are resolved

The parts are schemas that the members were resolved to, and what is seen in them is registered then and later. -/

/-- What becomes of an intersection of several members that is merged into one object. -/
theorem Runs.merged {p : Pending c} {scope : Table Schema} {origin : Location} {members : List TypeExpr}
    {r r' : Resolver c} {out : Except Fault Schema} {s : Schema}
    (h : Runs p (.node scope origin (.intersection members)) r out r') (hout : out = .ok s)
    (hmembers : 2 ≤ members.length) (hs : s.isObject = true) :
    ∃ parts properties required, Runs p (.list scope origin members) r (.ok parts) r' ∧
      r'.registry.mergeParts [] [] parts = some (properties, required) ∧
      s = .object properties required false := by
  cases h with
  | @built _ _ _ _ _ _ _ parts _ hform hparts =>
    cases hform
    cases hout
    have hlength : parts.length = members.length := hparts.length_eq
    rcases r'.registry.allOf_cases parts with ⟨part, rfl, -⟩ | ⟨properties, required, hmerge, heq⟩ | ⟨-, heq⟩
    · rw [← hlength, List.length_singleton] at hmembers
      omega
    · exact ⟨parts, properties, required, hparts, hmerge, heq⟩
    · simp only [heq] at hs
      cases hs
  | builtFault => cases hout
  | bound hform => rcases hform with hform | hform <;> cases hform
  | named hform | namedFault hform | misapplied hform | unbound hform | callable hform => cases hform

/-- An intersection of several members that was merged into one object, at any moment of any call of a resolver that was
called in any way before. The object and the parts admit the same values, except that a part which is closed admits no
members that it does not declare, while the object does; if no part is closed they are equivalent. -/
theorem merge_equivalent {r : Resolver c} (hr : r.Called fun _ _ _ => True) {e : TypeExpr} {origin : Location}
    {p : Pending c} {scope : Table Schema} {location : Location} {members : List TypeExpr} {r₁ : Resolver c}
    (hm : (Moment.call e origin r).Within ⟨p, .node scope location (.intersection members), r₁⟩)
    (hmembers : 2 ≤ members.length) {s : Schema} {r' : Resolver c}
    (hrun : Runs p (.node scope location (.intersection members)) r₁ (.ok s) r') (hs : s.isObject = true) :
    ∃ parts, Runs p (.list scope location members) r₁ (.ok parts) r' ∧
      (∀ v, (∀ part ∈ parts, Validates r'.registry part v) ↔
        Validates r'.registry s v ∧ ∀ part ∈ parts, r'.registry.Encloses part v) ∧
      ((∀ part ∈ parts, ∀ object, r'.registry.objectView? part = some object → object.keywords.additional = none) →
        ∀ v, Validates r'.registry s v ↔ Validates r'.registry (.mk { allOf := some parts }) v) := by
  obtain ⟨parts, properties, required, hparts, hmerge, rfl⟩ := hrun.merged rfl hmembers hs
  have htidy := inherited_tidy.within hr hm
  obtain ⟨hregistry, houtputs⟩ := hparts.inherits inherited_tidy htidy.resolver htidy.inputs
  have hne : parts ≠ [] := by
    rintro rfl
    have hlength := hparts.length_eq
    rw [← hlength] at hmembers
    cases hmembers
  have hiff (v : Json) := Registry.validates_merged_iff (v := v) hregistry.registered hne (houtputs parts rfl) hmerge
  refine ⟨parts, hparts, hiff, fun hopen v => ?_⟩
  have hencloses : ∀ part ∈ parts, r'.registry.Encloses part v := fun part hmem object members hview _ hclosed => by
    rw [hopen part hmem object hview] at hclosed
    cases hclosed
  rw [validates_iff (s := .mk { allOf := some parts }), Schema.admits_allOf, hiff, and_iff_left hencloses]

/-- A name and nothing else, together with an age. -/
def cardType : TypeExpr := .intersection [
  .object [("name", ⟨.string, true⟩)] true,
  .object [("age", ⟨.primitive .i32, false⟩)] false]

def cardParts : List Schema := [
  .object [("name", .ofPrimitive .string)] ["name"] true,
  .object [("age", .ofPrimitive .i32)] [] false]

/-- The two parts are merged, and the object admits an age next to the name, as the first part does not. -/
theorem merge_equivalent_card : ∃ (s : Schema) (r' : Resolver {}),
    Runs {} (.node [] ⟨⟨"card.rs"⟩, 1, 0⟩ cardType) {} (.ok s) r' ∧
      (∀ v, (∀ part ∈ cardParts, Validates r'.registry part v) ↔
        Validates r'.registry s v ∧ ∀ part ∈ cardParts, r'.registry.Encloses part v) ∧
      ∃ v, Validates r'.registry s v ∧ ¬∀ part ∈ cardParts, Validates r'.registry part v := by
  have hlist : Runs ({} : Pending {}) (.list [] ⟨⟨"card.rs"⟩, 1, 0⟩ [
      .object [("name", ⟨.string, true⟩)] true, .object [("age", ⟨.primitive .i32, false⟩)] false]) {}
      (.ok cardParts) {} := Task.runs {} (.list [] _ _) {}
  have hrun : Runs ({} : Pending {}) (.node [] ⟨⟨"card.rs"⟩, 1, 0⟩ cardType) {}
      (.ok (({} : Registry).allOf cardParts)) {} := .built rfl hlist
  obtain ⟨parts, hparts, hiff, -⟩ := merge_equivalent .fresh .refl (le_refl 2) hrun rfl
  obtain rfl : parts = cardParts := Except.ok.inj (Prod.mk.inj (hparts.eq.symm.trans hlist.eq)).1
  refine ⟨_, {}, hrun, hiff, .object [("name", .string "Ada"), ("age", .int 36)], ?_, fun hall => ?_⟩
  · show Validates _ (Schema.object [("name", .ofPrimitive .string), ("age", .ofPrimitive .i32)] ["name"] false) _
    rw [validates_iff, Schema.admits_object]
    refine ⟨_, rfl, ?_, by simp [Table.names], nofun⟩
    simp [validates_iff, Schema.admits_ofPrimitive, Primitive.Admits]
  · have hencloses := ((hiff _).mp hall).2 _ List.mem_cons_self _ _ rfl rfl rfl ("age", .int 36) (by simp)
    simp [Schema.keywords, Schema.object, Table.names] at hencloses

end RouteManifest
