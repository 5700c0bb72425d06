import RouteManifest.Proofs.Resolution.Parts
import RouteManifest.Proofs.Resolution.Tidy
import RouteManifest.Proofs.Schema.Renaming

/-!
# Building commutes with renaming

Ids are put into schemas and compared, and nothing else is done with them. So if the parts of an expression are renamed
without confusing any two ids, and renamed objects are seen in them, what is built is the renamed schema
(`TypeExpr.build_mapRefs`): unions keep the same alternatives and have the same discriminator, with the new ids in its
mapping, and intersections are merged just if they were.

Objects are looked for in the parts of a union or an intersection alone, and only if there are several to put together
(`TypeExpr.Looks`). Everything else is built in the same way in any registry, so nothing has to be seen there.
-/

namespace RouteManifest

/-! ## Single schemas

Renaming keeps every keyword but `$ref` and the targets of mappings. So all that is read off a schema to put it together
with others is the same before and after, or renamed as well. -/

namespace Schema

variable {f : String → String}

/-- A node is renamed if its subschemas are and it points at the new ids itself. -/
theorem mk_eq_mapRefs {k k' : Keywords Schema} (h : k' = (k.map (mapRefs f)).mapOwnRefs f) :
    mk k' = (mk k).mapRefs f := by rw [mapRefs_mk, h]

/-- Renaming an object is renaming its properties. -/
theorem mapRefs_object (properties : Table Schema) (required : List String) (closed : Bool) :
    (object properties required closed).mapRefs f = object (properties.mapValues (mapRefs f)) required closed := by
  rw [object, mapRefs_mk]
  cases closed <;> rfl

/-- Renaming a reference is referring to the new id. -/
theorem mapRefs_reference (id : String) : (reference id).mapRefs f = reference (f id) := by
  rw [reference, mapRefs_mk]
  rfl

/-- Of a renamed schema every keyword is renamed, one by one. -/
theorem keywords_mapRefs (f : String → String) (s : Schema) :
    (s.mapRefs f).keywords = (s.keywords.map (mapRefs f)).mapOwnRefs f := by
  obtain ⟨k⟩ := s
  rw [mapRefs_mk]
  rfl

/-- Null has no ids in it, so it can be allowed before or after. -/
theorem mapRefs_orNull (s : Schema) : s.orNull.mapRefs f = (s.mapRefs f).orNull := by
  have href : (s.mapRefs f).keywords.ref.isSome = s.keywords.ref.isSome := by
    rw [keywords_mapRefs]
    exact Option.isSome_map
  by_cases hs : s.keywords.ref.isSome = true
  · rw [orNull, if_pos hs, orNull, if_pos (href.trans hs), mapRefs_mk]
    rfl
  · rw [orNull, if_neg hs, orNull, if_neg (href.symm ▸ hs), mapRefs_mk, keywords_mapRefs]
    rfl

/-- Literals have none either. -/
theorem mapRefs_ofLiterals (literals : List Literal) : (ofLiterals literals).mapRefs f = ofLiterals literals := by
  rw [ofLiterals, mapRefs_mk]
  rfl

/-- A renamed schema is a reference just if the schema was one. -/
theorem refId?_mapRefs (f : String → String) (s : Schema) : (s.mapRefs f).refId? = s.refId?.map f := by
  rw [refId?, refId?, keywords_mapRefs]
  have hempty : ({ ((s.keywords.map (mapRefs f)).mapOwnRefs f) with ref := none } : Keywords Schema).isEmpty =
      ({ s.keywords with ref := none } : Keywords Schema).isEmpty := by
    simp [Keywords.isEmpty, Keywords.map, Keywords.mapOwnRefs]
  simp only [hempty]
  split <;> rfl

/-- A renamed schema is an object just if the schema was one. -/
theorem isObject_mapRefs (f : String → String) (s : Schema) : (s.mapRefs f).isObject = s.isObject := by
  simp [isObject, keywords_mapRefs, Keywords.map, Keywords.mapOwnRefs]

theorem isNullable_mapRefs (f : String → String) (s : Schema) : (s.mapRefs f).isNullable = s.isNullable := by
  rw [isNullable, keywords_mapRefs]
  rfl

theorem required_mapRefs (f : String → String) (s : Schema) : (s.mapRefs f).keywords.required = s.keywords.required := by
  rw [keywords_mapRefs]
  rfl

theorem properties_mapRefs (f : String → String) (s : Schema) :
    (s.mapRefs f).keywords.properties = s.keywords.properties.map (Table.mapValues (mapRefs f)) := by
  rw [keywords_mapRefs]
  rfl

/-- Of a discriminator only the targets of the mapping are renamed. -/
theorem discriminator_mapRefs (f : String → String) (s : Schema) :
    (s.mapRefs f).keywords.discriminator = s.keywords.discriminator.map (Discriminator.mapRefs f) := by
  rw [keywords_mapRefs]
  rfl

/-- A renamed schema holds the same single literal, if any. -/
theorem singleLiteral?_mapRefs (f : String → String) (s : Schema) : (s.mapRefs f).singleLiteral? = s.singleLiteral? := by
  rw [singleLiteral?, keywords_mapRefs]
  rfl

/-- A renamed schema has the same literal under a property, so the same property can tell it from others. -/
theorem tag?_mapRefs (f : String → String) (property : String) (object : Schema) :
    tag? property (object.mapRefs f) = tag? property object := by
  have hproperties : ((object.mapRefs f).keywords.properties.getD []) =
      Table.mapValues (mapRefs f) (object.keywords.properties.getD []) := by
    rw [properties_mapRefs]
    cases object.keywords.properties <;> rfl
  rw [tag?, tag?, required_mapRefs, hproperties, Table.find?_mapValues, Option.bind_map]
  simp only [Function.comp_def, singleLiteral?_mapRefs]

/-- The entry of an alternative with a literal in a mapping. -/
def mapped? (p : Schema × Json) : Option (String × String) := p.1.refId?.map fun id => (literalKey p.2, id)

/-- A mapping has an entry for each alternative with a literal, and is given up if two of them are in one place or an
alternative has none. -/
theorem mapping?_eq (alternatives : List Schema) (tags : List Json) : mapping? alternatives tags =
    if (Table.ofEntries ((alternatives.zip tags).filterMap mapped?)).length = alternatives.length then
      some (Table.ofEntries ((alternatives.zip tags).filterMap mapped?))
    else none := rfl

/-- The mapping of renamed alternatives has the new ids under the same literals. -/
theorem mapping?_mapRefs (f : String → String) (alternatives : List Schema) (tags : List Json) :
    mapping? (alternatives.map (mapRefs f)) tags = (mapping? alternatives tags).map (Table.mapValues f) := by
  have hentry (p : Schema × Json) :
      mapped? (p.1.mapRefs f, p.2) = (mapped? p).map fun e => (e.1, f e.2) := by
    rw [mapped?, mapped?, refId?_mapRefs, Option.map_map, Option.map_map]
    rfl
  have hentries : ((alternatives.map (mapRefs f)).zip tags).filterMap mapped? =
      Table.mapValues f ((alternatives.zip tags).filterMap mapped?) := by
    rw [List.zip_map_left, List.filterMap_map, Table.mapValues, List.map_filterMap]
    exact congrArg (List.filterMap · _) (funext hentry)
  have hlength (t : Table String) : (t.mapValues f).length = t.length := List.length_map _
  rw [mapping?_eq, mapping?_eq, hentries, Table.ofEntries_mapValues, hlength, List.length_map]
  split <;> rfl

end Schema

/-! ## Unions and intersections

Shapes are compared here, so two ids must not become one: `g` undoes `f` on the ids that occur. Objects are looked up,
too, so the renamed object has to be registered under the renamed id. -/

section Faithful

variable {f g : String → String} {P : String → Prop} (hf : ∀ id, P id → g (f id) = id)
include hf

/-- The first of each shape are renamed, if what was seen before is. -/
theorem distinctShapes_mapRefs {l : List Schema} (hl : ∀ s ∈ l, s.Over P) {seen seen' : List String}
    (hseen : ∀ s ∈ l, s.fingerprint ∈ seen ↔ (s.mapRefs f).fingerprint ∈ seen') :
    distinctShapes seen' (l.map (Schema.mapRefs f)) = (distinctShapes seen l).map (Schema.mapRefs f) := by
  induction l generalizing seen seen' with
  | nil => rfl
  | cons s rest ih =>
    obtain ⟨hs, hrest⟩ := List.forall_mem_cons.mp hl
    obtain ⟨hseen, hseenRest⟩ := List.forall_mem_cons.mp hseen
    rw [List.map_cons, distinctShapes, distinctShapes]
    simp only [List.contains_iff_mem]
    by_cases hmem : s.fingerprint ∈ seen
    · rw [if_pos hmem, if_pos (hseen.mp hmem)]
      exact ih hrest hseenRest
    · rw [if_neg hmem, if_neg (mt hseen.mpr hmem), List.map_cons]
      refine congrArg (_ :: ·) (ih hrest fun t ht => ?_)
      rw [List.mem_cons, List.mem_cons, Schema.fingerprint_mapRefs hf (hrest t ht) hs, hseenRest t ht]

/-- Renamed properties can be added to renamed ones just if they could be before: two schemas of one name have one shape
after a faithful renaming just if they had one. -/
theorem addProperties_mapRefs {collected added : Table Schema}
    (hcollected : ∀ s ∈ collected.values, s.Over P)
    (hadded : ∀ s ∈ added.values, s.Over P) :
    Schema.addProperties (collected.mapValues (Schema.mapRefs f)) (added.mapValues (Schema.mapRefs f)) =
      (Schema.addProperties collected added).map (Table.mapValues (Schema.mapRefs f)) := by
  induction added generalizing collected with
  | nil => rfl
  | cons e rest ih =>
    obtain ⟨name, schema⟩ := e
    obtain ⟨hschema, hrest⟩ := List.forall_mem_cons.mp hadded
    rw [show Table.mapValues (Schema.mapRefs f) ((name, schema) :: rest) =
      (name, schema.mapRefs f) :: Table.mapValues (Schema.mapRefs f) rest from rfl]
    rw [Schema.addProperties, Schema.addProperties, Table.find?_mapValues]
    rcases hfound : collected.find? name with _ | existing
    · rw [Option.map_none, Table.insert_mapValues]
      refine ih (fun s hs => ?_) hrest
      rcases Table.mem_values_insert hs with rfl | hs
      · exact hschema
      · exact hcollected s hs
    · have hexisting := hcollected existing (List.mem_map_of_mem (f := Prod.snd) (Table.mem_of_find? hfound))
      simp only [Option.map_some]
      rw [Schema.same_mapRefs hf hexisting hschema]
      split
      · exact ih hcollected hrest
      · rfl

end Faithful

namespace Registry

variable {r r' : Registry} {f g : String → String} {P : String → Prop}

/-- Renamed objects are seen in renamed schemas. -/
def SeesRenamed (r r' : Registry) (f : String → String) (l : List Schema) : Prop :=
  ∀ s ∈ l, r'.objectView? (s.mapRefs f) = (r.objectView? s).map (Schema.mapRefs f)

/-- In the empty registry a schema that is nothing but a `$ref` shows nothing, and any other one itself. -/
theorem seesRenamed_empty (f : String → String) (l : List Schema) : ({} : Registry).SeesRenamed {} f l := by
  intro s _
  rw [objectView?, objectView?, Schema.refId?_mapRefs]
  rcases s.refId? with _ | id
  · by_cases hobject : s.isObject = true <;> simp [Schema.isObject_mapRefs, hobject]
  · rfl

/-- Where objects are seen in all schemas, the renamed ones are seen in the renamed schemas. -/
theorem SeesRenamed.mapM {l : List Schema} (h : r.SeesRenamed r' f l) :
    (l.map (Schema.mapRefs f)).mapM r'.objectView? = (l.mapM r.objectView?).map (List.map (Schema.mapRefs f)) := by
  induction l with
  | nil => rfl
  | cons s rest ih =>
    obtain ⟨hs, hrest⟩ := List.forall_mem_cons.mp h
    rw [List.map_cons, List.mapM_cons, List.mapM_cons, hs, ih hrest]
    cases r.objectView? s with
    | none => rfl
    | some object => cases rest.mapM r.objectView? <;> rfl

/-! ### Looking objects up

Renamed objects have to be seen in renamed schemas. With that the discriminator and the merging are those of the
original schemas. -/

/-- Renamed alternatives have the renamed discriminator. -/
theorem discriminator?_mapRefs {l : List Schema} (h : r.SeesRenamed r' f l) :
    r'.discriminator? (l.map (Schema.mapRefs f)) = (r.discriminator? l).map (Discriminator.mapRefs f) := by
  rw [discriminator?, discriminator?, h.mapM]
  rcases l.mapM r.objectView? with _ | objects
  · rfl
  rcases objects with _ | ⟨first, rest⟩
  · rfl
  have htags (property : String) : ((first :: rest).map (Schema.mapRefs f)).mapM (Schema.tag? property) =
      (first :: rest).mapM (Schema.tag? property) := by
    rw [List.mapM_map]
    exact congrArg (List.mapM · _) (funext (Schema.tag?_mapRefs f property))
  simp only [Option.map_some, Option.bind_eq_bind, Option.bind_some, List.map_cons, List.head?_cons,
    Schema.properties_mapRefs]
  simp only [← List.map_cons, htags, Schema.mapping?_mapRefs]
  rcases first.keywords.properties with _ | properties
  · rfl
  · simp only [Option.map_some, Option.bind_some, Table.names_mapValues]
    rw [List.map_findSome?]
    refine congrArg (List.findSome? · _) (funext fun property => ?_)
    rw [Function.comp_apply]
    rcases (first :: rest).mapM (Schema.tag? property) with _ | tags
    · rfl
    · simp only [Option.bind_some]
      split <;> rfl

/-- Renamed alternatives make up the renamed union: as many are left, since no two shapes are confused. -/
theorem oneOf_mapRefs (hf : ∀ id, P id → g (f id) = id) {l : List Schema}
    (hl : ∀ s ∈ l, s.Over P) (h : r.SeesRenamed r' f l) :
    r'.oneOf (l.map (Schema.mapRefs f)) = (r.oneOf l).mapRefs f := by
  have hdistinct : distinctShapes [] (l.map (Schema.mapRefs f)) = (distinctShapes [] l).map (Schema.mapRefs f) :=
    distinctShapes_mapRefs hf hl fun s _ => ⟨nofun, nofun⟩
  have hsees : r.SeesRenamed r' f (distinctShapes [] l) := fun s hs => h s (mem_of_mem_distinctShapes hs)
  by_cases hsingle : ∃ s, distinctShapes [] l = [s]
  · obtain ⟨s, hs⟩ := hsingle
    rw [oneOf_single hs, oneOf_single (by rw [hdistinct, hs]; rfl)]
  · rcases r.oneOf_cases l with ⟨s, hs, -⟩ | heq
    · exact absurd ⟨s, hs⟩ hsingle
    rcases r'.oneOf_cases (l.map (Schema.mapRefs f)) with ⟨s, hs, -⟩ | heq'
    · rw [hdistinct] at hs
      obtain ⟨t, ht, -⟩ := List.map_eq_singleton_iff.mp hs
      exact absurd ⟨t, ht⟩ hsingle
    · rw [heq, heq', hdistinct, discriminator?_mapRefs hsees, Schema.mapRefs_mk]
      rfl

/-- Properties that are added come from one side or the other. -/
theorem mem_values_addProperties {Q : Schema → Prop} {collected added result : Table Schema}
    (h : Schema.addProperties collected added = some result) (hcollected : ∀ s ∈ collected.values, Q s)
    (hadded : ∀ s ∈ added.values, Q s) : ∀ s ∈ result.values, Q s :=
  fun s hs => (Schema.addProperties_mem h hs).elim (hcollected s) (hadded s)

/-- Renamed parts are merged, or not, as the parts were. By induction on the parts, with what was collected before. -/
theorem mergeParts_mapRefs (hf : ∀ id, P id → g (f id) = id) {parts : List Schema}
    (hseen : ∀ s ∈ parts, ∀ object, r.objectView? s = some object → object.Over P) (h : r.SeesRenamed r' f parts)
    {properties : Table Schema} (hproperties : ∀ s ∈ properties.values, s.Over P) (required : List String) :
    r'.mergeParts (properties.mapValues (Schema.mapRefs f)) required (parts.map (Schema.mapRefs f)) =
      (r.mergeParts properties required parts).map fun merged =>
        (merged.1.mapValues (Schema.mapRefs f), merged.2) := by
  induction parts generalizing properties required with
  | nil => rfl
  | cons part rest ih =>
    obtain ⟨hpart, hrest⟩ := List.forall_mem_cons.mp h
    obtain ⟨hseen, hseenRest⟩ := List.forall_mem_cons.mp hseen
    rw [List.map_cons, mergeParts, mergeParts, hpart]
    rcases hview : r.objectView? part with _ | object
    · rfl
    have hobject (s : Schema) (hs : s ∈ Table.values (object.keywords.properties.getD [])) : s.Over P :=
      (hseen object hview).of_mem_properties hs
    have hadded : (object.mapRefs f).keywords.properties.getD [] =
        Table.mapValues (Schema.mapRefs f) (object.keywords.properties.getD []) := by
      rw [Schema.properties_mapRefs]
      cases object.keywords.properties <;> rfl
    simp only [Option.map_some, Option.bind_eq_bind, Option.bind_some, Schema.isNullable_mapRefs,
      Schema.required_mapRefs, hadded, addProperties_mapRefs hf hproperties hobject]
    split
    · rfl
    · rcases hall : Schema.addProperties properties (object.keywords.properties.getD []) with _ | all
      · rfl
      · have hallOver := mem_values_addProperties hall hproperties hobject
        exact ih hseenRest hrest hallOver _

/-- Renamed parts make up the renamed intersection, merged or not. -/
theorem allOf_mapRefs (hf : ∀ id, P id → g (f id) = id) {l : List Schema}
    (hseen : ∀ s ∈ l, ∀ object, r.objectView? s = some object → object.Over P) (h : r.SeesRenamed r' f l) :
    r'.allOf (l.map (Schema.mapRefs f)) = (r.allOf l).mapRefs f := by
  have hmerge : r'.mergeParts [] [] (l.map (Schema.mapRefs f)) = (r.mergeParts [] [] l).map fun merged =>
      (merged.1.mapValues (Schema.mapRefs f), merged.2) :=
    have hnone : ∀ s ∈ Table.values ([] : Table Schema), s.Over P := fun _ hs => by cases hs
    mergeParts_mapRefs hf hseen h hnone []
  by_cases hsingle : l.length = 1
  · obtain ⟨s, rfl⟩ := List.length_eq_one_iff.mp hsingle
    rfl
  · rw [allOf_of_not_single r hsingle, allOf_of_not_single r' (by rwa [List.length_map]), hmerge]
    rcases r.mergeParts [] [] l with _ | merged
    · exact Schema.mk_eq_mapRefs rfl
    · exact (Schema.mapRefs_object merged.1 merged.2 false).symm

end Registry

/-! ## Any expression

The forms of expressions are gone through with the lemmas above. Only unions and intersections of several parts look
anything up. -/

namespace TypeExpr

variable {r r' : Registry} {f g : String → String} {P : String → Prop}

/-- Allowing null for a union does not depend on ids. -/
theorem orNullOf_mapRefs (variants : List TypeExpr) (s : Schema) :
    orNullOf variants (s.mapRefs f) = (orNullOf variants s).mapRefs f := by
  rw [orNullOf, orNullOf]
  split
  · exact (Schema.mapRefs_orNull s).symm
  · rfl

/-- Whether objects are looked for in the parts of the expression: it is a union or an intersection, and there are several
parts to put together. A single part is taken as it is. -/
def Looks : TypeExpr → Prop
  | .union variants => 1 < (proper variants).length
  | .intersection members => 1 < members.length
  | _ => False

variable {e : TypeExpr} {parts : List TypeExpr} {build : Registry → List Schema → Schema}
  (h : e.form = .built parts build) {l : List Schema}
include h

/-- What is built without looking for objects is the same in every registry. -/
theorem build_eq_of_not_looks (he : ¬e.Looks) (hlength : l.length = parts.length) (r r' : Registry) :
    build r' l = build r l := by
  cases e with
  | union variants =>
    cases unionForm h with
    | null | literals => rfl
    | alternatives =>
      have hshort : l.length ≤ 1 := hlength.trans_le (not_lt.mp he)
      exact congrArg (orNullOf variants) (Registry.oneOf_of_length_le hshort r r')
  | intersection members =>
    cases h
    exact Registry.allOf_of_length_le (hlength.trans_le (not_lt.mp he)) r r'
  | _ =>
    cases h
    try rfl

/-- What is built points where its parts do, and the objects that are seen in them. -/
theorem over_build (hlength : l.length = parts.length) (hr : r.Tidy) (hl : ∀ s ∈ l, s.Over P)
    (hseen : e.Looks → ∀ s ∈ l, ∀ object, r.objectView? s = some object → object.Over P) : (build r l).Over P := by
  refine ⟨tidy_build hr h fun s hs => (hl s hs).tidy, ?_⟩
  have hclosed : ∀ s ∈ l, s.Closed P := fun s hs => (hl s hs).closed
  by_cases he : e.Looks
  · exact closed_build h hclosed fun s hs object hview => (hseen he s hs object hview).closed
  · rw [build_eq_of_not_looks h he hlength {} r]
    refine closed_build h hclosed fun s hs object hview => ?_
    obtain ⟨rfl, -⟩ := Registry.objectView?_empty hview
    exact hclosed s hs

/-- From renamed parts the renamed schema is built if the renamed objects are seen in them. -/
theorem build_mapRefs_of_sees (hf : ∀ id, P id → g (f id) = id) (hl : ∀ s ∈ l, s.Over P)
    (hseen : ∀ s ∈ l, ∀ object, r.objectView? s = some object → object.Over P) (hsees : r.SeesRenamed r' f l) :
    build r' (l.map (Schema.mapRefs f)) = (build r l).mapRefs f := by
  -- arrays and dictionaries are built from the first of the parts, which is all there is
  have hhead : (l.map (Schema.mapRefs f)).headD default = (l.headD default).mapRefs f := by
    cases l with
    | nil => exact Schema.mk_eq_mapRefs rfl
    | cons s rest => rfl
  cases e with
  | primitive kind => cases h; exact Schema.mk_eq_mapRefs rfl
  | enumeration literals => cases h; exact (Schema.mapRefs_ofLiterals literals).symm
  | literal value => cases h; exact (Schema.mapRefs_ofLiterals [value]).symm
  | object properties closed =>
    cases h
    simp only
    rw [Schema.mapRefs_object, Table.mapValues, List.zip_map_right]
    rfl
  | map value | array element =>
    cases h
    simp only [hhead]
    exact Schema.mk_eq_mapRefs rfl
  | tuple elements =>
    cases h
    simp only [List.length_map]
    exact Schema.mk_eq_mapRefs rfl
  | union variants =>
    cases unionForm h with
    | null => exact Schema.mk_eq_mapRefs rfl
    | literals => rw [← orNullOf_mapRefs, Schema.mapRefs_ofLiterals]
    | alternatives =>
      simp only
      rw [Registry.oneOf_mapRefs hf hl hsees, orNullOf_mapRefs]
  | intersection members => cases h; exact Registry.allOf_mapRefs hf hseen hsees
  | _ => cases h

/-- From renamed parts the renamed schema is built. What is seen in them matters only where objects are looked for. -/
theorem build_mapRefs (hlength : l.length = parts.length) (hf : ∀ id, P id → g (f id) = id) (hl : ∀ s ∈ l, s.Over P)
    (hseen : e.Looks → ∀ s ∈ l, ∀ object, r.objectView? s = some object → object.Over P)
    (hsees : e.Looks → r.SeesRenamed r' f l) : build r' (l.map (Schema.mapRefs f)) = (build r l).mapRefs f := by
  by_cases he : e.Looks
  · exact build_mapRefs_of_sees h hf hl (hseen he) (hsees he)
  · -- so it can as well be built in the empty registry, where only the parts themselves are seen
    rw [build_eq_of_not_looks h he (List.length_map (Schema.mapRefs f) |>.trans hlength) {} r',
      build_eq_of_not_looks h he hlength {} r]
    refine build_mapRefs_of_sees h hf hl (fun s hs object hview => ?_) (Registry.seesRenamed_empty f l)
    obtain ⟨rfl, -⟩ := Registry.objectView?_empty hview
    exact hl s hs

end TypeExpr

end RouteManifest
