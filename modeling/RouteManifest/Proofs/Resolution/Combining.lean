import RouteManifest.Proofs.Table
import RouteManifest.Resolution.Combining

/-!
# How schemas are combined

What `oneOf` and `allOf` can come to, and where the pieces of their results come from. Nothing here looks
inside the schemas that are combined.

A union drops alternatives of a shape it has already, and one alternative alone is answered as it is; otherwise it is a
`oneOf`, perhaps with a discriminator. An intersection is merged into one object if every part shows an object in the
registry and the properties of one name agree, and it is an `allOf` otherwise. The lemmas `oneOf_cases` and `allOf_cases`
say this once, and later proofs split by them instead of unfolding the functions.

The registry matters only for what an id shows as an object. So `mergeParts_views` replaces parts by the objects that are
seen in them, after which the registry can be forgotten (`allOf_views`). This is how a property of schemas that does not
depend on the registry is carried from the parts of an intersection to what they are merged to: it has to hold of what is
seen in the parts, and of the merging of plain objects.

The same goes for the discriminator, of which only `mem_mapping?` and `discriminator?_mapping` are needed here: that
its targets are ids of the alternatives.
-/

namespace RouteManifest

/-- Dropping alternatives adds none. -/
theorem mem_of_mem_distinctShapes {seen : List String} {l : List Schema} {s : Schema}
    (h : s ∈ distinctShapes seen l) : s ∈ l := by
  induction l generalizing seen with
  | nil => exact h
  | cons t rest ih =>
    rw [distinctShapes] at h
    split at h
    · exact List.mem_cons_of_mem _ (ih h)
    · rcases List.mem_cons.mp h with rfl | h
      · exact List.mem_cons_self
      · exact List.mem_cons_of_mem _ (ih h)

/-! ## Different shapes

Alternatives are told apart by their fingerprints, and the first of each shape is kept. -/

/-- Alternatives that are all the same leave one of them. -/
theorem distinctShapes_of_eq {l : List Schema} {s : Schema} (hne : l ≠ []) (hl : ∀ t ∈ l, t = s) :
    distinctShapes [] l = [s] := by
  have hseen {seen : List String} (hmem : s.fingerprint ∈ seen) (l : List Schema) (hl : ∀ t ∈ l, t = s) :
      distinctShapes seen l = [] := by
    induction l with
    | nil => rfl
    | cons t rest ih =>
      obtain rfl := hl t List.mem_cons_self
      rw [distinctShapes, if_pos (List.contains_iff_mem.mpr hmem)]
      exact ih fun u hu => hl u (List.mem_cons_of_mem _ hu)
  cases l with
  | nil => exact absurd rfl hne
  | cons t rest =>
    obtain rfl := hl t List.mem_cons_self
    rw [distinctShapes, if_neg (by simp)]
    rw [hseen List.mem_cons_self rest fun u hu => hl u (List.mem_cons_of_mem _ hu)]

/-- Nothing is dropped where all fingerprints differ. -/
theorem distinctShapes_of_nodup {seen : List String} {l : List Schema} (hl : (l.map Schema.fingerprint).Nodup)
    (hseen : ∀ s ∈ l, s.fingerprint ∉ seen) : distinctShapes seen l = l := by
  induction l generalizing seen with
  | nil => rfl
  | cons s rest ih =>
    obtain ⟨hs, hrest⟩ := List.nodup_cons.mp hl
    obtain ⟨hnew, hseen⟩ := List.forall_mem_cons.mp hseen
    rw [distinctShapes, if_neg (mt List.contains_iff_mem.mp hnew), ih hrest]
    intro t ht hmem
    rcases List.mem_cons.mp hmem with heq | hmem
    · exact hs (heq ▸ List.mem_map_of_mem ht)
    · exact hseen t ht hmem

namespace Schema

/-! ## References and objects

A schema is a reference if it has a `$ref` and nothing else, so no object is one. -/

/-- The id of a schema that is nothing but a `$ref` is its `$ref`. -/
theorem ref_of_refId? {s : Schema} {id : String} (h : s.refId? = some id) : s.keywords.ref = some id := by
  rw [refId?] at h
  split at h
  · exact h
  · cases h

/-- A schema that is nothing but a `$ref`. -/
theorem eq_reference_of_refId? {s : Schema} {id : String} (h : s.refId? = some id) : s = reference id := by
  have href := ref_of_refId? h
  rw [refId?] at h
  split at h
  next hempty =>
    obtain ⟨_, _, _, _, _, _, _, _, _, _, _, _, _, _, _⟩ := s
    simp only [keywords, Keywords.isEmpty, Bool.and_eq_true, Option.isNone_iff_eq_none] at hempty href
    obtain ⟨⟨⟨⟨⟨⟨⟨⟨⟨⟨⟨⟨⟨⟨rfl, rfl⟩, rfl⟩, rfl⟩, rfl⟩, rfl⟩, rfl⟩, rfl⟩, rfl⟩, rfl⟩, rfl⟩, rfl⟩, rfl⟩, rfl⟩, -⟩ := hempty
    rw [href]
    rfl
  · cases h

/-- An object is not a reference. -/
theorem refId?_of_isObject {s : Schema} (h : s.isObject = true) : s.refId? = none := by
  rcases hid : s.refId? with _ | id
  · rfl
  · rw [eq_reference_of_refId? hid] at h
    cases h

/-- The properties of the result were collected before or are added now. -/
theorem addProperties_mem {collected added result : Table Schema} (h : addProperties collected added = some result)
    {s : Schema} (hs : s ∈ result.values) : s ∈ collected.values ∨ s ∈ added.values := by
  induction added generalizing collected with
  | nil =>
    obtain rfl := Option.some.inj h
    exact Or.inl hs
  | cons e rest ih =>
    obtain ⟨name, schema⟩ := e
    rw [addProperties] at h
    split at h
    · split at h
      · exact (ih h).imp_right (List.mem_cons_of_mem _)
      · cases h
    · rcases ih h with hs | hs
      · rcases Table.mem_values_insert hs with rfl | hs
        · exact Or.inr List.mem_cons_self
        · exact Or.inl hs
      · exact Or.inr (List.mem_cons_of_mem _ hs)

end Schema

namespace Registry

variable {r : Registry}

/-! ## Unions and intersections

What each function can come to, by cases that do not overlap. -/

/-- An object is seen in a schema that is one, or in the schema of the id that it points at. -/
theorem objectView?_eq_some {s object : Schema} :
    r.objectView? s = some object ↔
      object.isObject = true ∧
        (s.refId? = none ∧ s = object ∨ ∃ id, s.refId? = some id ∧ r.get? id = some object) := by
  rw [objectView?, Option.bind_eq_some_iff]
  constructor
  · rintro ⟨target, htarget, h⟩
    split at h
    next hobject =>
      obtain rfl := Option.some.inj h
      refine ⟨hobject, ?_⟩
      split at htarget
      next id hid => exact Or.inr ⟨id, hid, htarget⟩
      next hid => exact Or.inl ⟨hid, Option.some.inj htarget⟩
    · cases h
  · rintro ⟨hobject, ⟨hid, rfl⟩ | ⟨id, hid, hget⟩⟩
    · exact ⟨s, by rw [hid], if_pos hobject⟩
    · exact ⟨object, by rw [hid]; exact hget, if_pos hobject⟩

/-- A union is its only alternative, or a `oneOf` of its alternatives. -/
theorem oneOf_cases (r : Registry) (alternatives : List Schema) :
    (∃ s, distinctShapes [] alternatives = [s] ∧ r.oneOf alternatives = s) ∨
      r.oneOf alternatives = .mk {
        oneOf := some (distinctShapes [] alternatives)
        discriminator := r.discriminator? (distinctShapes [] alternatives) } := by
  unfold oneOf
  split
  next s heq => exact Or.inl ⟨s, heq, rfl⟩
  · exact Or.inr rfl

/-- A union with one shape is answered as that alternative. -/
theorem oneOf_single {alternatives : List Schema} {s : Schema}
    (h : distinctShapes [] alternatives = [s]) : r.oneOf alternatives = s := by
  unfold oneOf
  rw [h]

/-- One alternative is taken as it is, whatever is registered. -/
theorem oneOf_of_length_le {alternatives : List Schema} (h : alternatives.length ≤ 1) (r r' : Registry) :
    r'.oneOf alternatives = r.oneOf alternatives := by
  match alternatives, h with
  | [], _ | [_], _ => rfl

/-- One part is taken as it is, whatever is registered. -/
theorem allOf_of_length_le {parts : List Schema} (h : parts.length ≤ 1) (r r' : Registry) :
    r'.allOf parts = r.allOf parts := by
  match parts, h with
  | [], _ | [_], _ => rfl

/-- An intersection is its only part, an object with the properties of all parts, or an `allOf`. -/
theorem allOf_cases (r : Registry) (parts : List Schema) :
    (∃ s, parts = [s] ∧ r.allOf parts = s) ∨
      (∃ properties required, r.mergeParts [] [] parts = some (properties, required) ∧
        r.allOf parts = .object properties required false) ∨
      (r.mergeParts [] [] parts = none ∧ r.allOf parts = .mk { allOf := some parts }) := by
  unfold allOf
  split
  next s => exact Or.inl ⟨s, rfl, rfl⟩
  · split
    next properties required h => exact Or.inr (Or.inl ⟨properties, required, h, rfl⟩)
    next h => exact Or.inr (Or.inr ⟨h, rfl⟩)

/-- An object is its own view in every registry. -/
theorem objectView?_of_isObject {s : Schema} (h : s.isObject = true) : r.objectView? s = some s :=
  objectView?_eq_some.mpr ⟨h, Or.inl ⟨Schema.refId?_of_isObject h, rfl⟩⟩

/-- Without a registry an object is seen in itself only. -/
theorem objectView?_empty {s object : Schema} (h : ({} : Registry).objectView? s = some object) :
    s = object ∧ object.isObject = true := by
  obtain ⟨hobject, ⟨-, rfl⟩ | ⟨id, -, hget⟩⟩ := objectView?_eq_some.mp h
  · exact ⟨rfl, hobject⟩
  · cases hget

/-- Merging takes one part after another and fails where a part shows no object. -/
theorem mergeParts_cons {properties : Table Schema} {required : List String} {part : Schema} {rest : List Schema}
    {result : Table Schema × List String} :
    r.mergeParts properties required (part :: rest) = some result ↔ ∃ object, r.objectView? part = some object ∧
      ¬object.isNullable = true ∧ ∃ all,
        Schema.addProperties properties (object.keywords.properties.getD []) = some all ∧
        r.mergeParts all (Schema.addNames required (object.keywords.required.getD [])) rest = some result := by
  rw [mergeParts]
  simp only [Option.bind_eq_bind, Option.bind_eq_some_iff]
  refine exists_congr fun object => and_congr_right fun _ => ?_
  split
  next hnull => simp [hnull]
  next hnull => simp [hnull, Option.bind_eq_some_iff]

/-! ## Merging

Parts are merged from the left to the right, and each adds its properties to those so far. A property of a name that is
there already has to have the same shape, and is left out. -/

/-- The properties of merged parts are those of the objects that are seen in them. -/
theorem mem_mergeParts {parts : List Schema} {properties : Table Schema} {required : List String}
    {result : Table Schema × List String} (h : r.mergeParts properties required parts = some result) {s : Schema}
    (hs : s ∈ result.1.values) : s ∈ properties.values ∨ ∃ part ∈ parts, ∃ object, r.objectView? part = some object ∧
      s ∈ Table.values (object.keywords.properties.getD []) := by
  induction parts generalizing properties required with
  | nil =>
    obtain rfl := Option.some.inj h
    exact Or.inl hs
  | cons part rest ih =>
    obtain ⟨object, hview, -, all, hall, h⟩ := mergeParts_cons.mp h
    rcases ih h with hs | ⟨other, hother, hs⟩
    · rcases Schema.addProperties_mem hall hs with hs | hs
      · exact Or.inl hs
      · exact Or.inr ⟨part, List.mem_cons_self, object, hview, hs⟩
    · exact Or.inr ⟨other, List.mem_cons_of_mem _ hother, hs⟩

/-- Parts are merged as the objects that are seen in them. -/
theorem mergeParts_views {parts : List Schema} {properties : Table Schema} {required : List String}
    {result : Table Schema × List String} (h : r.mergeParts properties required parts = some result) :
    ∃ views, views.length = parts.length ∧ (∀ p ∈ views.zip parts, r.objectView? p.2 = some p.1) ∧
      ({} : Registry).mergeParts properties required views = some result := by
  induction parts generalizing properties required with
  | nil => exact ⟨[], rfl, fun _ hp => (by cases hp), h⟩
  | cons part rest ih =>
    obtain ⟨object, hview, hnull, all, hall, h⟩ := mergeParts_cons.mp h
    obtain ⟨views, hlength, hviews, hmerge⟩ := ih h
    refine ⟨object :: views, congrArg Nat.succ hlength, fun p hp => ?_, ?_⟩
    · rcases List.mem_cons.mp hp with rfl | hp
      · exact hview
      · exact hviews p hp
    · exact mergeParts_cons.mpr
        ⟨object, objectView?_of_isObject (objectView?_eq_some.mp hview).1, hnull, all, hall, hmerge⟩

/-- What is merged without a registry is merged alike in every registry. -/
theorem mergeParts_of_empty {parts : List Schema} {properties : Table Schema} {required : List String}
    {result : Table Schema × List String} (h : ({} : Registry).mergeParts properties required parts = some result) :
    r.mergeParts properties required parts = some result := by
  induction parts generalizing properties required with
  | nil => exact h
  | cons part rest ih =>
    obtain ⟨object, hview, hnull, all, hall, h⟩ := mergeParts_cons.mp h
    obtain ⟨rfl, hobject⟩ := objectView?_empty hview
    exact mergeParts_cons.mpr ⟨part, objectView?_of_isObject hobject, hnull, all, hall, ih h⟩

/-- Without a registry only objects that are not nullable are merged. -/
theorem isObject_of_mergeParts {parts : List Schema} {properties : Table Schema} {required : List String}
    {result : Table Schema × List String} (h : ({} : Registry).mergeParts properties required parts = some result) :
    ∀ s ∈ parts, s.isObject = true ∧ ¬s.isNullable = true := by
  induction parts generalizing properties required with
  | nil => exact fun _ hs => by cases hs
  | cons part rest ih =>
    obtain ⟨object, hview, hnull, all, hall, h⟩ := mergeParts_cons.mp h
    obtain ⟨rfl, hobject⟩ := objectView?_empty hview
    intro s hs
    rcases List.mem_cons.mp hs with rfl | hs
    · exact ⟨hobject, hnull⟩
    · exact ih h s hs

/-- Several parts are merged if they can be. -/
theorem allOf_of_not_single (r : Registry) {parts : List Schema} (h : parts.length ≠ 1) : r.allOf parts =
    (r.mergeParts [] [] parts).elim (.mk { allOf := some parts }) fun merged => .object merged.1 merged.2 false := by
  unfold allOf
  split
  next s => exact absurd rfl h
  · cases r.mergeParts [] [] parts <;> rfl

/-- The intersection of parts in a registry is one of schemas that need no registry: of the parts themselves or
of the objects that are seen in them. -/
theorem allOf_views (r : Registry) (parts : List Schema) :
    ∃ views, views.length = parts.length ∧ (∀ p ∈ views.zip parts, p.1 = p.2 ∨ r.objectView? p.2 = some p.1) ∧
      r.allOf parts = ({} : Registry).allOf views := by
  have hself : ∀ p ∈ parts.zip parts, p.1 = p.2 ∨ r.objectView? p.2 = some p.1 := fun p hp => by
    rw [List.zip_eq_zipWith, List.zipWith_self] at hp
    obtain ⟨s, -, rfl⟩ := List.mem_map.mp hp
    exact Or.inl rfl
  by_cases hsingle : parts.length = 1
  · obtain ⟨s, rfl⟩ := List.length_eq_one_iff.mp hsingle
    exact ⟨[s], rfl, hself, rfl⟩
  rcases hmerge : r.mergeParts [] [] parts with _ | ⟨properties, required⟩
  · refine ⟨parts, rfl, hself, ?_⟩
    have hempty : ({} : Registry).mergeParts [] [] parts = none := by
      rcases h : ({} : Registry).mergeParts [] [] parts with _ | result
      · rfl
      · rw [mergeParts_of_empty h] at hmerge
        cases hmerge
    rw [r.allOf_of_not_single hsingle, allOf_of_not_single {} hsingle, hmerge, hempty]
  · obtain ⟨views, hlength, hviews, hmerge'⟩ := mergeParts_views hmerge
    refine ⟨views, hlength, fun p hp => Or.inr (hviews p hp), ?_⟩
    rw [r.allOf_of_not_single hsingle, allOf_of_not_single {} (hlength ▸ hsingle), hmerge, hmerge', Option.elim_some,
      Option.elim_some]

/-! ## Discriminators

A mapping is made only if every alternative is a reference. -/

/-- A mapping's targets are `$ref`s of the alternatives. -/
theorem mem_mapping? {alternatives : List Schema} {tags : List Json} {mapping : Table String}
    (h : Schema.mapping? alternatives tags = some mapping) {id : String} (hid : id ∈ mapping.values) :
    ∃ s ∈ alternatives, s.keywords.ref = some id := by
  rw [Schema.mapping?] at h
  split at h
  · obtain rfl := Option.some.inj h
    obtain ⟨⟨key, target⟩, hmem, rfl⟩ := List.mem_map.mp hid
    obtain ⟨⟨a, tag⟩, hzip, ha⟩ := List.mem_filterMap.mp (Table.mem_of_mem_ofEntries hmem)
    obtain ⟨target', ht, heq⟩ := Option.map_eq_some_iff.mp ha
    cases heq
    exact ⟨a, (List.of_mem_zip hzip).1, Schema.ref_of_refId? ht⟩
  · cases h

/-- A mapping sends the tag of every alternative to the id that the alternative is a reference to. -/
theorem discriminator?_mapping {alternatives : List Schema} {d : Discriminator}
    (h : r.discriminator? alternatives = some d) {mapping : Table String} (hm : d.mapping = some mapping)
    {id : String} (hid : id ∈ mapping.values) : ∃ s ∈ alternatives, s.keywords.ref = some id := by
  rw [discriminator?] at h
  simp only [Option.bind_eq_bind, Option.bind_eq_some_iff] at h
  obtain ⟨objects, -, first, -, properties, -, h⟩ := h
  obtain ⟨property, -, h⟩ := List.exists_of_findSome?_eq_some h
  simp only [Option.bind_eq_some_iff] at h
  obtain ⟨tags, -, h⟩ := h
  split at h
  · obtain rfl := Option.some.inj h
    exact mem_mapping? hm hid
  · cases h

end Registry

end RouteManifest
