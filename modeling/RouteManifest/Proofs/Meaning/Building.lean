import RouteManifest.Proofs.Meaning.Basic
import RouteManifest.Proofs.Resolution.Tidy

/-!
# The values of built schemas

What each way of building a schema admits, in terms of what its parts admit. Everything is said for any
relation `ok` in the place of what subschemas admit, so that it can be used in the middle of an induction as
well as at its end.

Most builders look at their parts as they are, and then the keywords of the node can be read off one by one
(`Keywords.Admits`). The only builder that looks into its parts is the intersection of objects. It keeps one of
several properties of a name, so `ok` must not tell schemas of one shape apart; and it forgets that a part was closed, so
no part may be. What merged objects ask for is what all of them ask for (`asks_mergeParts`), whether they are closed or
not, so the two conditions are needed only where that is turned into what is admitted.
-/

namespace RouteManifest

namespace Schema

variable {target? : String → Option Schema} {ok : Schema → Json → Prop} {v : Json}

/-! ## Single schemas

One lemma for each kind of node that resolution builds. A node admits a value if each of its keywords does, and a
keyword that is absent admits everything. -/

/-- A reference admits what its target does, and nothing if it has none. -/
theorem admits_reference {id : String} :
    (reference id).keywords.Admits target? ok v ↔ ∃ s, target? id = some s ∧ ok s v := by
  simp [Keywords.Admits, Keywords.met_iff, reference, keywords]

theorem admits_scalar {type format : Option String} :
    (mk { type := type, format := format }).keywords.Admits target? ok v ↔ ∀ t, type = some t → v.HasType t := by
  simp [Keywords.Admits, Keywords.met_iff, keywords]

/-- The schema of a primitive type admits the values of that type. -/
theorem admits_ofPrimitive {p : Primitive} : (ofPrimitive p).keywords.Admits target? ok v ↔ p.Admits v := by
  rw [ofPrimitive, admits_scalar]
  cases p <;> cases v <;> simp [Primitive.schemaType?, Primitive.Admits, Json.HasType]

/-- A node that says what an object looks like. -/
theorem admits_objectNode {properties : Table Schema} {required : Option (List String)} {nullable : Option Bool}
    {closed : Bool} :
    (mk {
      type := some "object"
      properties := some properties
      required := required
      additional := if closed then some (.allowed false) else none
      nullable := nullable }).keywords.Admits target? ok v ↔
      nullable = some true ∧ v = .null ∨ ∃ members, v = .object members ∧
        (∀ p ∈ properties, ∀ m ∈ members, m.1 = p.1 → ok p.2 m.2) ∧
        (∀ name ∈ required.getD [], name ∈ Table.names members) ∧
        (closed = true → ∀ m ∈ members, m.1 ∈ Table.names properties) := by
  refine or_congr_right ?_
  constructor
  · intro h
    obtain ⟨members, rfl⟩ : ∃ members, v = .object members := by
      have := h.type "object" rfl
      cases v <;> simp [Json.HasType] at this ⊢
    refine ⟨members, rfl, h.properties members rfl, h.required members rfl, fun hclosed m hm => ?_⟩
    by_contra hnew
    exact (h.additional members rfl m hm hnew).1 (if_pos hclosed)
  · rintro ⟨members, rfl, hproperties, hrequired, hclosed⟩
    rw [Keywords.met_iff]
    cases closed with
    | false => simpa [-Prod.forall, keywords, Json.HasType] using ⟨hproperties, hrequired⟩
    | true => simpa [-Prod.forall, keywords, Json.HasType] using ⟨hproperties, hrequired, hclosed rfl⟩

/-- An object has a value for every required name, the right one for every property, and if it is closed no other
members. -/
theorem admits_object {properties : Table Schema} {required : List String} {closed : Bool} :
    (object properties required closed).keywords.Admits target? ok v ↔ ∃ members, v = .object members ∧
      (∀ p ∈ properties, ∀ m ∈ members, m.1 = p.1 → ok p.2 m.2) ∧
      (∀ name ∈ required, name ∈ Table.names members) ∧
      (closed = true → ∀ m ∈ members, m.1 ∈ Table.names properties) := by
  have hrequired : (if required.isEmpty = true then none else some required : Option (List String)).getD [] =
      required := by
    cases required <;> rfl
  rw [object, admits_objectNode, hrequired]
  simp

/-- A map has values of one schema under any names. -/
theorem admits_map {s : Schema} :
    (Schema.mk { type := some "object", additional := some (.schema s) }).keywords.Admits target? ok v ↔
      ∃ members, v = .object members ∧ ∀ m ∈ members, ok s m.2 := by
  cases v <;> simp [Keywords.Admits, Keywords.met_iff, keywords, Json.HasType, Table.names]

/-- An array has items of one schema. -/
theorem admits_array {s : Schema} :
    (array s).keywords.Admits target? ok v ↔ ∃ items, v = .array items ∧ ∀ w ∈ items, ok s w := by
  cases v <;> simp [Keywords.Admits, Keywords.met_iff, array, keywords, Json.HasType]

/-- A tuple has as many items as there are schemas, each of its own. -/
theorem admits_tuple {schemas : List Schema} :
    (Schema.mk {
      type := some "array"
      prefixItems := some schemas
      minItems := some schemas.length
      maxItems := some schemas.length }).keywords.Admits target? ok v ↔
      ∃ items, v = .array items ∧ schemas.length = items.length ∧ ∀ p ∈ schemas.zip items, ok p.1 p.2 := by
  cases v with
  | array items =>
    constructor
    · rintro (⟨hnull, -⟩ | h)
      · cases hnull
      · exact ⟨items, rfl, le_antisymm (h.minItems items rfl _ rfl) (h.maxItems items rfl _ rfl),
          h.prefixItems items rfl⟩
    · rintro ⟨_, hv, hlength, hitems⟩
      obtain rfl := Json.array.inj hv
      simpa [-Prod.forall, Keywords.Admits, Keywords.met_iff, keywords, Json.HasType, hlength] using hitems
  | _ => simp [Keywords.Admits, Keywords.met_iff, keywords, Json.HasType]

/-- A union admits what one of its alternatives does. A discriminator only says which. -/
theorem admits_oneOf {alternatives : List Schema} {d : Option Discriminator} :
    (Schema.mk { oneOf := some alternatives, discriminator := d }).keywords.Admits target? ok v ↔
      ∃ s ∈ alternatives, ok s v := by
  simp [Keywords.Admits, Keywords.met_iff, keywords]

/-- An intersection that could not be merged admits what all of its parts do. -/
theorem admits_allOf {parts : List Schema} :
    (Schema.mk { allOf := some parts }).keywords.Admits target? ok v ↔ ∀ s ∈ parts, ok s v := by
  simp [Keywords.Admits, Keywords.met_iff, keywords]

/-- Null is its own type. -/
theorem admits_null : (typed "null").keywords.Admits target? ok v ↔ v = .null := by
  rw [typed, admits_scalar]
  cases v <;> simp [Json.HasType]

/-- A literal is a value of the type that is written beside it. -/
theorem hasType_toJson (l : Literal) : l.toJson.HasType l.schemaType := by
  cases l <;> simp [Literal.toJson, Literal.schemaType, Json.HasType]

/-- The common type of literals is the type of each of them. -/
theorem schemaType_of_commonType? {literals : List Literal} {type : String} (h : commonType? literals = some type) :
    ∀ l ∈ literals, l.schemaType = type := by
  obtain ⟨first, -, h⟩ := Option.bind_eq_some_iff.mp h
  split at h
  next hall =>
    intro l hl
    rw [← Option.some.inj h]
    exact beq_iff_eq.mp (List.all_eq_true.mp hall l hl)
  · cases h

/-- Literals admit themselves; the type that is written beside them shuts none of them out. -/
theorem admits_ofLiterals {literals : List Literal} :
    (ofLiterals literals).keywords.Admits target? ok v ↔ ∃ l ∈ literals, v = l.toJson := by
  constructor
  · rintro (⟨hnull, -⟩ | h)
    · cases hnull
    · obtain ⟨l, hl, rfl⟩ := List.mem_map.mp (h.enumeration _ rfl)
      exact ⟨l, hl, rfl⟩
  · rintro ⟨l, hl, rfl⟩
    have htype : ∀ type, commonType? literals = some type → l.toJson.HasType type := fun type h => by
      rw [← schemaType_of_commonType? h l hl]
      exact hasType_toJson l
    simpa [Keywords.Admits, Keywords.met_iff, ofLiterals, keywords] using ⟨htype, l, hl, rfl⟩

/-- Null is added to what a schema admits. A reference is wrapped, so that it is asked for as a subschema. -/
theorem admits_orNull {s : Schema} : s.orNull.keywords.Admits target? ok v ↔
    v = .null ∨ if s.keywords.ref.isSome = true then ok s v else s.keywords.Admits target? ok v := by
  rw [orNull]
  split
  · simp [Keywords.Admits, Keywords.met_iff, keywords]
  · have hmet : (mk { s.keywords with nullable := some true }).keywords.Met target? ok v ↔
        s.keywords.Met target? ok v := by
      rw [Keywords.met_iff, Keywords.met_iff]
      rfl
    rw [Keywords.Admits, Keywords.Admits, hmet]
    constructor
    · rintro (⟨-, h⟩ | h)
      · exact Or.inl h
      · exact Or.inr (Or.inr h)
    · rintro (h | ⟨-, h⟩ | h)
      · exact Or.inl ⟨rfl, h⟩
      · exact Or.inl ⟨rfl, h⟩
      · exact Or.inr h

/-- Allowing null admits null, and what was admitted before. -/
theorem validates_orNull {r : Registry} {s : Schema} :
    Validates r s.orNull v ↔ v = .null ∨ Validates r s v := by
  rw [validates_iff, admits_orNull, ← validates_iff, ite_id]

end Schema

/-! ## Unions

A union of one alternative is that alternative, and a longer one holds its alternatives without repetition of a shape.
So a value that it admits is admitted by an alternative, and an alternative that was left out is made up for by one of
its shape. -/

namespace Registry

variable {r : Registry} {target? : String → Option Schema} {ok : Schema → Json → Prop} {v : Json}

/-- What a union admits, one of its alternatives admits. Of a single alternative the keywords themselves are asked. -/
theorem admits_oneOf {alternatives : List Schema}
    (h : (r.oneOf alternatives).keywords.Admits target? ok v) :
    ∃ s ∈ alternatives, s.keywords.Admits target? ok v ∨ ok s v := by
  rcases r.oneOf_cases alternatives with ⟨s, hs, heq⟩ | heq
  · rw [heq] at h
    exact ⟨s, mem_of_mem_distinctShapes (by rw [hs]; exact List.mem_cons_self), Or.inl h⟩
  · rw [heq, Schema.admits_oneOf] at h
    obtain ⟨s, hs, hsv⟩ := h
    exact ⟨s, mem_of_mem_distinctShapes hs, Or.inr hsv⟩

/-- What an alternative admits, the union admits. -/
theorem validates_oneOf {entries : Registry} {alternatives : List Schema} (htidy : ∀ s ∈ alternatives, s.Tidy)
    {s : Schema} (hs : s ∈ alternatives) (hv : Validates entries s v) :
    Validates entries (r.oneOf alternatives) v := by
  obtain ⟨t, ht, hshape⟩ := exists_shape_of_mem htidy hs
  rcases r.oneOf_cases alternatives with ⟨u, hu, heq⟩ | heq
  · rw [hu] at ht
    obtain rfl := List.mem_singleton.mp ht
    rw [heq]
    exact hv.of_shape hshape
  · rw [heq, validates_iff, Schema.admits_oneOf]
    exact ⟨t, ht, hv.of_shape hshape⟩

end Registry

/-! ## Intersections

Objects are merged property by property. `Table.Fits` and `Schema.Asks` say what a list of members has to be like for
the properties that have been collected so far, which is what the induction over the parts carries along. -/

/-- An object that is merged with others admits further members. -/
def Schema.IsOpen (s : Schema) : Prop :=
  s.isObject = true → ¬s.isNullable = true → s.keywords.additional = none

/-- The members of an object fit the schemas of their names. -/
def Table.Fits (ok : Schema → Json → Prop) (properties : Table Schema) (members : Table Json) : Prop :=
  ∀ p ∈ properties, ∀ m ∈ members, m.1 = p.1 → ok p.2 m.2

namespace Schema

/-- The members of an object fit the properties of a schema, and have the names that it requires. -/
def Asks (ok : Schema → Json → Prop) (s : Schema) (members : Table Json) : Prop :=
  Table.Fits ok (s.keywords.properties.getD []) members ∧
    ∀ name ∈ s.keywords.required.getD [], name ∈ Table.names members

/-- A schema that is closed has a property for every member. -/
def Encloses (s : Schema) (members : Table Json) : Prop :=
  s.keywords.additional = some (.allowed false) → ∀ m ∈ members, m.1 ∈ Table.names (s.keywords.properties.getD [])

variable {target? : String → Option Schema} {ok : Schema → Json → Prop} {v : Json}

/-- Names that are collected are those of all parts. -/
theorem mem_addNames {collected added : List String} {name : String} :
    name ∈ addNames collected added ↔ name ∈ collected ∨ name ∈ added := by
  induction added generalizing collected with
  | nil => simp [addNames]
  | cons other rest ih =>
    rw [addNames]
    split
    next hmem =>
      rw [ih, List.mem_cons]
      constructor
      · exact Or.imp_right Or.inr
      · rintro (h | rfl | h)
        · exact Or.inl h
        · exact Or.inl (List.contains_iff_mem.mp hmem)
        · exact Or.inr h
    next => simp [ih, or_assoc]

/-- Collected properties ask for what all of them ask for, if those that were left out have the shape of one
that was kept. -/
theorem fits_addProperties (hok : ∀ s t w, s.canonical = t.canonical → ok s w → ok t w)
    {collected added result : Table Schema} (hcollected : ∀ s ∈ collected.values, s.Tidy)
    (hadded : ∀ s ∈ added.values, s.Tidy) (h : addProperties collected added = some result) {members : Table Json} :
    result.Fits ok members ↔ collected.Fits ok members ∧ added.Fits ok members := by
  induction added generalizing collected with
  | nil =>
    obtain rfl := Option.some.inj h
    exact ⟨fun h => ⟨h, fun _ hp => by cases hp⟩, And.left⟩
  | cons e rest ih =>
    obtain ⟨name, schema⟩ := e
    have hrest : ∀ s ∈ Table.values rest, s.Tidy := fun s hs => hadded s (List.mem_cons_of_mem _ hs)
    have hcons : Table.Fits ok ((name, schema) :: rest) members ↔
        Table.Fits ok [(name, schema)] members ∧ Table.Fits ok rest members := by
      simp only [Table.Fits, List.forall_mem_cons, List.not_mem_nil, IsEmpty.forall_iff, implies_true, and_true]
    rw [addProperties] at h
    split at h
    next existing hfound =>
      split at h
      next hsame =>
        have hmem := Table.mem_of_find? hfound
        have hshape : existing.canonical = schema.canonical :=
          canonical_eq_of_same (hcollected _ (List.mem_map_of_mem (f := Prod.snd) hmem)).spelled
            (hadded _ List.mem_cons_self).spelled hsame
        -- the property is left out, and the one that is kept asks for the same
        rw [ih hcollected hrest h, hcons]
        refine ⟨fun hfits => ⟨hfits.1, fun p hp m hm hname => ?_, hfits.2⟩, fun hfits => ⟨hfits.1, hfits.2.2⟩⟩
        obtain rfl := List.mem_singleton.mp hp
        exact hok _ _ _ hshape (hfits.1 _ hmem m hm hname)
      · cases h
    next hnew =>
      have hinsert := Table.insert_of_not_mem (Table.find?_eq_none_iff.mp hnew) schema
      have hcollected' : ∀ s ∈ Table.values (collected.insert name schema), s.Tidy := fun s hs => by
        rcases Table.mem_values_insert hs with rfl | hs
        · exact hadded _ List.mem_cons_self
        · exact hcollected s hs
      have happend : (collected.insert name schema).Fits ok members ↔
          collected.Fits ok members ∧ Table.Fits ok [(name, schema)] members := by
        rw [hinsert]
        simp only [Table.Fits, List.forall_mem_append]
      rw [ih hcollected' hrest h, hcons, happend, and_assoc]

end Schema

namespace Registry

variable {target? : String → Option Schema} {ok : Schema → Json → Prop} {v : Json}

/-- A tidy object that is not nullable admits the objects that have what it asks for and that it encloses. -/
theorem admits_tidyObject {s : Schema} (htidy : s.Tidy) (hobject : s.isObject = true) (hnull : ¬s.isNullable = true) :
    s.keywords.Admits target? ok v ↔ ∃ members, v = .object members ∧ s.Asks ok members ∧ s.Encloses members := by
  obtain ⟨k⟩ := s
  obtain ⟨properties, required, nullable, closed, rfl⟩ := htidy.node.object (by
    rw [Schema.isObject, Bool.and_eq_true] at hobject
    exact hobject.2)
  have hnullable : ¬nullable = some true := fun h => hnull (by simp [Schema.isNullable, Schema.keywords, h])
  have hclosed : (if closed = true then some (Additional.allowed false) else none : Option (Additional Schema)) =
      some (.allowed false) ↔ closed = true := by
    cases closed <;> simp
  rw [Schema.admits_objectNode]
  simp only [hnullable, false_and, false_or, Schema.Asks, Schema.Encloses, Table.Fits, Schema.keywords, hclosed,
    Option.getD_some, and_assoc]

/-- An object that is tidy, open and not nullable asks for its properties and required names. -/
theorem admits_part {s : Schema} (htidy : s.Tidy) (hobject : s.isObject = true) (hnull : ¬s.isNullable = true)
    (hopen : s.keywords.additional = none) :
    s.keywords.Admits target? ok v ↔ ∃ members, v = .object members ∧ s.Asks ok members := by
  have hencloses (members : Table Json) : s.Encloses members := fun h => by
    rw [hopen] at h
    cases h
  rw [admits_tidyObject htidy hobject hnull]
  simp only [hencloses, and_true]

/-- Objects taken together ask for what all of them ask for. -/
theorem asks_mergeParts (hok : ∀ s t w, s.canonical = t.canonical → ok s w → ok t w) {parts : List Schema}
    (htidy : ∀ s ∈ parts, s.Tidy) {properties properties' : Table Schema} {required required' : List String}
    (hproperties : ∀ s ∈ properties.values, s.Tidy)
    (h : ({} : Registry).mergeParts properties required parts = some (properties', required')) {members : Table Json} :
    (properties'.Fits ok members ∧ ∀ name ∈ required', name ∈ members.names) ↔
      (properties.Fits ok members ∧ ∀ name ∈ required, name ∈ members.names) ∧ ∀ s ∈ parts, s.Asks ok members := by
  induction parts generalizing properties required with
  | nil =>
    obtain ⟨rfl, rfl⟩ := Prod.mk.inj (Option.some.inj h)
    simp
  | cons part rest ih =>
    obtain ⟨object, hview, -, all, hall, h⟩ := mergeParts_cons.mp h
    obtain ⟨rfl, -⟩ := objectView?_empty hview
    have hadded : ∀ s ∈ Table.values (part.keywords.properties.getD []), s.Tidy :=
      fun s hs => (htidy part List.mem_cons_self).of_mem_properties hs
    have hall' : ∀ s ∈ Table.values all, s.Tidy := fun s hs =>
      (Schema.addProperties_mem hall hs).elim (hproperties s) (hadded s)
    have hrequired : (∀ name ∈ Schema.addNames required (part.keywords.required.getD []), name ∈ members.names) ↔
        (∀ name ∈ required, name ∈ members.names) ∧
          ∀ name ∈ part.keywords.required.getD [], name ∈ members.names := by
      simp only [Schema.mem_addNames, or_imp, forall_and]
    rw [ih (fun s hs => htidy s (List.mem_cons_of_mem _ hs)) hall' h,
      Schema.fits_addProperties hok hproperties hadded hall, List.forall_mem_cons, hrequired, Schema.Asks,
      and_and_and_comm, and_assoc]

/-- Open objects taken together ask for what all of them admit. -/
theorem fits_mergeParts (hok : ∀ s t w, s.canonical = t.canonical → ok s w → ok t w) {parts : List Schema}
    (htidy : ∀ s ∈ parts, s.Tidy) (hopen : ∀ s ∈ parts, s.IsOpen)
    {properties properties' : Table Schema} {required required' : List String}
    (hproperties : ∀ s ∈ properties.values, s.Tidy)
    (h : ({} : Registry).mergeParts properties required parts = some (properties', required')) {members : Table Json} :
    (properties'.Fits ok members ∧ ∀ name ∈ required', name ∈ members.names) ↔
      (properties.Fits ok members ∧ ∀ name ∈ required, name ∈ members.names) ∧
        ∀ s ∈ parts, s.keywords.Admits target? ok (.object members) := by
  rw [asks_mergeParts hok htidy hproperties h]
  refine and_congr_right fun _ => forall₂_congr fun s hs => ?_
  obtain ⟨hobject, hnull⟩ := isObject_of_mergeParts h s hs
  rw [admits_part (htidy s hs) hobject hnull (hopen s hs hobject hnull)]
  simp

/-- The intersection of parts that needs no registry asks for what all parts ask for. Parts that are kept as they are
are asked for as subschemas. -/
theorem admits_allOf (hok : ∀ s t w, s.canonical = t.canonical → ok s w → ok t w) {parts : List Schema}
    (htidy : ∀ s ∈ parts, s.Tidy) (hopen : ∀ s ∈ parts, s.IsOpen)
    (h : (({} : Registry).allOf parts).keywords.Admits target? ok v) :
    ∀ s ∈ parts, s.keywords.Admits target? ok v ∨ ok s v := by
  rcases Registry.allOf_cases {} parts with ⟨s, rfl, heq⟩ | ⟨properties, required, hmerge, heq⟩ | ⟨-, heq⟩
  · rw [heq] at h
    intro t ht
    obtain rfl := List.mem_singleton.mp ht
    exact Or.inl h
  · rw [heq, Schema.admits_object] at h
    obtain ⟨members, rfl, hfits, hrequired, -⟩ := h
    have hparts : ∀ s ∈ parts, s.keywords.Admits target? ok (.object members) :=
      ((fits_mergeParts hok htidy hopen (fun _ hs => by cases hs) hmerge).mp ⟨hfits, hrequired⟩).2
    exact fun s hs => Or.inl (hparts s hs)
  · rw [heq, Schema.admits_allOf] at h
    exact fun s hs => Or.inr (h s hs)

/-- What all parts admit, the intersection admits, whether it was merged or kept. -/
theorem validates_allOf {entries : Registry} {parts : List Schema} (hne : parts ≠ []) (htidy : ∀ s ∈ parts, s.Tidy)
    (hopen : ∀ s ∈ parts, s.IsOpen) (h : ∀ s ∈ parts, Validates entries s v) :
    Validates entries (({} : Registry).allOf parts) v := by
  rcases Registry.allOf_cases {} parts with ⟨s, rfl, heq⟩ | ⟨properties, required, hmerge, heq⟩ | ⟨-, heq⟩
  · rw [heq]
    exact h s List.mem_cons_self
  · rw [heq, validates_iff, Schema.admits_object]
    obtain ⟨part, hpart⟩ := List.exists_mem_of_ne_nil parts hne
    obtain ⟨hobject, hnull⟩ := isObject_of_mergeParts hmerge part hpart
    obtain ⟨members, rfl, -⟩ :=
      (admits_part (htidy part hpart) hobject hnull (hopen part hpart hobject hnull)).mp
        (validates_iff.mp (h part hpart))
    have hparts : ∀ s ∈ parts, s.keywords.Admits entries.get? (Validates entries) (.object members) :=
      fun s hs => validates_iff.mp (h s hs)
    have hok : ∀ s t w, s.canonical = t.canonical → Validates entries s w → Validates entries t w :=
      fun _ _ _ hshape hs => hs.of_shape hshape
    have hmerged := (fits_mergeParts hok htidy hopen (fun _ hs => by cases hs) hmerge).mpr
      ⟨⟨fun _ hp => (by cases hp), fun _ hp => (by cases hp)⟩, hparts⟩
    exact ⟨members, rfl, hmerged.1, hmerged.2, fun hclosed => by cases hclosed⟩
  · rw [heq, validates_iff, Schema.admits_allOf]
    exact h

end Registry

end RouteManifest
