import RouteManifest.Proofs.Resolution.Inherited
import RouteManifest.Proofs.Schema.Canonical

/-!
# Resolution builds tidy schemas

Enumerations hold literals, since they are written as literals; and whatever has properties looks like an object
and says nothing else, since objects and the merging of objects are the only ways to come by properties. A schema
also shows all it was built from: nothing that a part points at is lost (`references_build`).

Both are needed where schemas are compared. Equal fingerprints mean equal shapes only for schemas that are spelled, which
tidy ones are. An id may be given up only if nothing points at it any more, and the registry looks for `$ref`s to it in
what is registered: if an alternative or a property could be dropped together with the references in it, looking there
would not be enough.

The lemmas go by the ways of building, `orNull`, `object`, `oneOf` and `allOf`, and come together in `tidy_build` and
`references_build`, which speak of any expression.
-/

namespace RouteManifest

namespace Schema

/-- A node without an enumeration and properties is tidy. -/
theorem tidy_of_children {k : Keywords Schema} (henum : k.enumeration = none) (hproperties : k.properties = none)
    (hchildren : ∀ s ∈ k.children, s.Tidy) : Tidy (.mk k) := by
  refine .mk ⟨fun values hvalues => ?_, fun h => ?_⟩ hchildren
  · rw [henum] at hvalues
    cases hvalues
  · rw [hproperties] at h
    cases h

/-- A reference is tidy: it has no properties and no values. -/
theorem tidy_reference (id : String) : (reference id).Tidy :=
  tidy_of_children rfl rfl fun _ hs => by cases hs

/-- An object is tidy if its properties are. -/
theorem tidy_object {properties : Table Schema} (h : ∀ s ∈ properties.values, s.Tidy) (required : List String)
    (closed : Bool) : (object properties required closed).Tidy := by
  refine .mk ⟨fun values hvalues => (by cases hvalues), fun _ => ?_⟩ fun s hs => h s ?_
  · exact ⟨properties, if required.isEmpty then none else some required, none, closed, rfl⟩
  · cases closed <;> simpa [Keywords.children, Additional.children] using hs

/-- Values are written as literals. -/
theorem tidy_ofLiterals (literals : List Literal) : (ofLiterals literals).Tidy := by
  refine .mk ⟨fun values hvalues v hv => ?_, fun h => by cases h⟩ fun _ hs => by cases hs
  obtain rfl := Option.some.inj hvalues
  obtain ⟨l, -, rfl⟩ := List.mem_map.mp hv
  exact ⟨l, rfl⟩

/-- A tidy schema is tidy with null allowed: an object gets the flag, and anything else is put into a union. -/
theorem Tidy.orNull {s : Schema} (hs : s.Tidy) : s.orNull.Tidy := by
  obtain ⟨k⟩ := s
  rw [Schema.orNull]
  split
  · refine tidy_of_children rfl rfl fun t ht => ?_
    obtain rfl := List.mem_singleton.mp ht
    exact hs
  · refine .mk ⟨hs.node.literals, fun h => ?_⟩ fun t ht => hs.of_mem_children ht
    obtain ⟨properties, required, nullable, closed, rfl⟩ := hs.node.object h
    exact ⟨properties, required, some true, closed, rfl⟩

end Schema

namespace Registry

variable {r : Registry}

/-- All registered schemas are tidy. -/
def Tidy (r : Registry) : Prop := ∀ id s, r.get? id = some s → s.Tidy

/-- Nothing untidy is registered in the beginning. -/
theorem tidy_empty : Tidy {} := fun _ _ h => by cases h

/-- A union of tidy alternatives is tidy. -/
theorem tidy_oneOf {alternatives : List Schema} (h : ∀ s ∈ alternatives, s.Tidy) : (r.oneOf alternatives).Tidy := by
  have hdistinct : ∀ s ∈ distinctShapes [] alternatives, s.Tidy := fun s hs => h s (mem_of_mem_distinctShapes hs)
  rcases r.oneOf_cases alternatives with ⟨s, hs, heq⟩ | heq
  · rw [heq]
    exact hdistinct s (by rw [hs]; exact List.mem_cons_self)
  · rw [heq]
    exact Schema.tidy_of_children rfl rfl fun s hs => hdistinct s (by simpa [Keywords.children] using hs)

/-- The object that is seen in a tidy schema is tidy, since it is the schema or a registered one. -/
theorem tidy_objectView? (hr : r.Tidy) {s object : Schema} (hs : s.Tidy) (h : r.objectView? s = some object) :
    object.Tidy := by
  obtain ⟨-, ⟨-, rfl⟩ | ⟨id, -, hget⟩⟩ := objectView?_eq_some.mp h
  · exact hs
  · exact hr id object hget

end Registry

/-- What is built from tidy schemas is tidy. -/
theorem TypeExpr.tidy_build {r : Registry} (hr : r.Tidy) {e : TypeExpr} {parts : List TypeExpr}
    {build : Registry → List Schema → Schema} (h : e.form = .built parts build) {l : List Schema}
    (hl : ∀ s ∈ l, s.Tidy) : (build r l).Tidy := by
  refine PassedOn.build (Q := Schema.Tidy) ?_ h
  constructor
  case parts => exact hl
  case seen => exact fun s hs object hview t ht => (Registry.tidy_objectView? hr (hl s hs) hview).of_mem_properties ht
  case node => exact fun k henum hproperties _ _ => Schema.tidy_of_children henum hproperties
  case object => exact fun _ required closed h => Schema.tidy_object h required closed
  case ofLiterals => exact Schema.tidy_ofLiterals
  case orNull => exact fun _ => Schema.Tidy.orNull
  case oneOf => exact Registry.tidy_oneOf hl

/-! ## What a built schema shows

An owner points at a target if the reference can be found in its schema. Alternatives of one shape and properties that
agree are written once, but what is left out holds the same references as what stays. -/

/-- A schema is left out among distinct ones only if its fingerprint has been seen. -/
theorem exists_mem_distinctShapes (seen : List String) {l : List Schema} {s : Schema} (hs : s ∈ l) :
    s.fingerprint ∈ seen ∨ ∃ t ∈ distinctShapes seen l, t.fingerprint = s.fingerprint := by
  induction l generalizing seen with
  | nil => cases hs
  | cons t rest ih =>
    rw [distinctShapes]
    by_cases hseen : seen.contains t.fingerprint = true
    · rw [if_pos hseen]
      rcases List.mem_cons.mp hs with rfl | hs
      · exact Or.inl (List.contains_iff_mem.mp hseen)
      · exact ih seen hs
    · rw [if_neg hseen]
      rcases List.mem_cons.mp hs with rfl | hs
      · exact Or.inr ⟨s, List.mem_cons_self, rfl⟩
      · rcases ih (t.fingerprint :: seen) hs with hmem | ⟨u, hu, hfingerprint⟩
        · rcases List.mem_cons.mp hmem with heq | hmem
          · exact Or.inr ⟨t, List.mem_cons_self, heq.symm⟩
          · exact Or.inl hmem
        · exact Or.inr ⟨u, List.mem_cons_of_mem _ hu, hfingerprint⟩

/-- Every alternative has one of its shape among the distinct ones. -/
theorem exists_shape_of_mem {alternatives : List Schema} (htidy : ∀ s ∈ alternatives, s.Tidy) {s : Schema}
    (hs : s ∈ alternatives) : ∃ t ∈ distinctShapes [] alternatives, s.canonical = t.canonical := by
  rcases exists_mem_distinctShapes [] hs with h | ⟨t, ht, hfingerprint⟩
  · cases h
  · exact ⟨t, ht, Schema.canonical_eq_of_fingerprint (htidy s hs).spelled
      (htidy t (mem_of_mem_distinctShapes ht)).spelled
      hfingerprint.symm⟩

namespace Schema

variable {id : String}

/-- Schemas of one shape hold the same references. -/
theorem references_of_shape {s t : Schema} (h : s.canonical = t.canonical) (hs : s.references id = true) :
    t.references id = true := by
  rw [← references_canonical, ← h, references_canonical]
  exact hs

/-- Allowing null loses no reference. -/
theorem references_orNull {s : Schema} (hs : s.references id = true) : s.orNull.references id = true := by
  obtain ⟨k⟩ := s
  rw [orNull]
  split
  · exact references_of_mem_children (by simp [Keywords.children]) hs
  · exact references_mk.mpr (references_mk.mp hs)

/-- An object shows what its properties hold. -/
theorem references_object {properties : Table Schema} {required : List String} {closed : Bool} {s : Schema}
    (hs : s ∈ properties.values) (href : s.references id = true) :
    (object properties required closed).references id = true :=
  references_of_mem_children (Keywords.mem_children_of_properties rfl hs) href

/-- Of a tidy object only the properties can point at something. -/
theorem Tidy.exists_property {s : Schema} (htidy : s.Tidy) (hobject : s.isObject = true)
    (href : s.references id = true) : ∃ t ∈ Table.values (s.keywords.properties.getD []), t.references id = true := by
  obtain ⟨k⟩ := s
  rw [isObject, Bool.and_eq_true] at hobject
  obtain ⟨properties, required, nullable, closed, rfl⟩ := htidy.node.object hobject.2
  rcases references_mk.mp href with h | ⟨t, ht, h⟩
  · cases h
  · refine ⟨t, ?_, h⟩
    cases closed <;> simpa [keywords, Keywords.children, Additional.children] using ht

/-- No reference gets lost when properties are added: a property that is left out has the shape of one that stays. -/
theorem references_addProperties {collected added result : Table Schema} (hcollected : ∀ s ∈ collected.values, s.Tidy)
    (hadded : ∀ s ∈ added.values, s.Tidy) (h : addProperties collected added = some result) {s : Schema}
    (hs : s ∈ collected.values ∨ s ∈ added.values) (href : s.references id = true) :
    ∃ t ∈ result.values, t.references id = true := by
  induction added generalizing collected s with
  | nil =>
    obtain rfl := Option.some.inj h
    rcases hs with hs | hs
    · exact ⟨s, hs, href⟩
    · cases hs
  | cons e rest ih =>
    obtain ⟨name, schema⟩ := e
    have hrest : ∀ s ∈ Table.values rest, s.Tidy := fun s hs => hadded s (List.mem_cons_of_mem _ hs)
    rw [addProperties] at h
    split at h
    next existing hfound =>
      split at h
      next hsame =>
        have hmem : existing ∈ collected.values := List.mem_map_of_mem (f := Prod.snd) (Table.mem_of_find? hfound)
        have hshape := canonical_eq_of_same (hcollected _ hmem).spelled (hadded _ List.mem_cons_self).spelled hsame
        -- a property that is left out points where the one that is kept points
        rcases hs with hs | hs
        · exact ih hcollected hrest h (Or.inl hs) href
        · rcases List.mem_cons.mp hs with rfl | hs
          · exact ih hcollected hrest h (Or.inl hmem) (references_of_shape hshape.symm href)
          · exact ih hcollected hrest h (Or.inr hs) href
      · cases h
    next hnew =>
      have hinsert : Table.values (collected.insert name schema) = collected.values ++ [schema] := by
        rw [Table.insert_of_not_mem (Table.find?_eq_none_iff.mp hnew), Table.values, List.map_append]
        rfl
      refine ih ?_ hrest h (s := s) ?_ href
      · intro t ht
        rw [hinsert, List.mem_append, List.mem_singleton] at ht
        rcases ht with ht | rfl
        · exact hcollected t ht
        · exact hadded _ List.mem_cons_self
      · rw [hinsert, List.mem_append, List.mem_singleton]
        rcases hs with hs | hs
        · exact Or.inl (Or.inl hs)
        · rcases List.mem_cons.mp hs with rfl | hs
          · exact Or.inl (Or.inr rfl)
          · exact Or.inr hs

end Schema

namespace Registry

variable {r : Registry} {id : String}

/-! ### Unions and intersections

Both leave schemas out: a union an alternative of a shape that it has, an intersection a property of a name that it has.
In either case one of the same shape stays, which points wherever the other did. -/

/-- A union shows what its alternatives hold: one that is left out has the shape of one that stays. -/
theorem references_oneOf {alternatives : List Schema} (htidy : ∀ s ∈ alternatives, s.Tidy) {s : Schema}
    (hs : s ∈ alternatives) (href : s.references id = true) : (r.oneOf alternatives).references id = true := by
  obtain ⟨t, ht, hshape⟩ := exists_shape_of_mem htidy hs
  have hreft := Schema.references_of_shape hshape href
  rcases r.oneOf_cases alternatives with ⟨u, hu, heq⟩ | heq
  · rw [hu] at ht
    obtain rfl := List.mem_singleton.mp ht
    rw [heq]
    exact hreft
  · rw [heq]
    exact Schema.references_of_mem_children (by simpa [Keywords.children] using ht) hreft

/-- Merged objects show what the parts hold. -/
theorem references_mergeParts {parts : List Schema} (hparts : ∀ s ∈ parts, s.Tidy) {properties : Table Schema}
    (hproperties : ∀ s ∈ properties.values, s.Tidy) {required : List String} {result : Table Schema × List String}
    (h : ({} : Registry).mergeParts properties required parts = some result) {s : Schema}
    (hs : s ∈ properties.values ∨ s ∈ parts) (href : s.references id = true) :
    ∃ t ∈ result.1.values, t.references id = true := by
  induction parts generalizing properties required s with
  | nil =>
    obtain rfl := Option.some.inj h
    rcases hs with hs | hs
    · exact ⟨s, hs, href⟩
    · cases hs
  | cons part rest ih =>
    obtain ⟨object, hview, -, all, hall, h⟩ := mergeParts_cons.mp h
    obtain ⟨rfl, hobject⟩ := objectView?_empty hview
    have hpart := hparts part List.mem_cons_self
    have hadded : ∀ t ∈ Table.values (part.keywords.properties.getD []), t.Tidy :=
      fun t ht => hpart.of_mem_properties ht
    have hall' : ∀ t ∈ Table.values all, t.Tidy := fun t ht =>
      (Schema.addProperties_mem hall ht).elim (hproperties t) (hadded t)
    have hrest : ∀ t ∈ rest, t.Tidy := fun t ht => hparts t (List.mem_cons_of_mem _ ht)
    rcases hs with hs | hs
    · obtain ⟨t, ht, hreft⟩ := Schema.references_addProperties hproperties hadded hall (Or.inl hs) href
      exact ih hrest hall' h (Or.inl ht) hreft
    · rcases List.mem_cons.mp hs with rfl | hs
      · obtain ⟨u, hu, hrefu⟩ := hpart.exists_property hobject href
        obtain ⟨t, ht, hreft⟩ := Schema.references_addProperties hproperties hadded hall (Or.inr hu) hrefu
        exact ih hrest hall' h (Or.inl ht) hreft
      · exact ih hrest hall' h (Or.inr hs) href

/-- An intersection shows what its parts hold, merged or not. -/
theorem references_allOf {parts : List Schema} (hparts : ∀ s ∈ parts, s.Tidy) {s : Schema} (hs : s ∈ parts)
    (href : s.references id = true) : (({} : Registry).allOf parts).references id = true := by
  rcases Registry.allOf_cases {} parts with ⟨t, rfl, heq⟩ | ⟨properties, required, hmerge, heq⟩ | ⟨-, heq⟩
  · obtain rfl := List.mem_singleton.mp hs
    rw [heq]
    exact href
  · obtain ⟨t, ht, hreft⟩ := references_mergeParts hparts (fun _ hs => by cases hs) hmerge (Or.inr hs) href
    rw [heq]
    exact Schema.references_object ht hreft
  · rw [heq]
    exact Schema.references_of_mem_children (by simpa [Keywords.children] using hs) href

end Registry

/-! ### Any expression

With the ways of building at hand the forms are gone through once. -/

/-- What a part points at, the schema that is built from it points at. -/
theorem TypeExpr.references_build {r : Registry} {e : TypeExpr} (he : ∀ members, e ≠ .intersection members)
    {parts : List TypeExpr} {build : Registry → List Schema → Schema} (h : e.form = .built parts build)
    {l : List Schema} (hlength : l.length = parts.length) (hl : ∀ s ∈ l, s.Tidy) {s : Schema} (hs : s ∈ l)
    {id : String} (href : s.references id = true) : (build r l).references id = true := by
  -- an expression without parts has no schema that could point at anything
  have hnone (hparts : parts = []) : (build r l).references id = true := by
    rw [hparts] at hlength
    rw [List.length_eq_zero_iff.mp hlength] at hs
    cases hs
  have hsingle (hone : parts.length = 1) : l = [s] := by
    obtain ⟨t, rfl⟩ := List.length_eq_one_iff.mp (hlength.trans hone)
    rw [List.mem_singleton.mp hs]
  cases e with
  | primitive kind => cases h; exact hnone rfl
  | enumeration literals => cases h; exact hnone rfl
  | literal value => cases h; exact hnone rfl
  | object properties closed =>
    cases h
    refine Schema.references_object ?_ href
    have hvalues : Table.values ((Table.names properties).zip l) = l := by
      rw [Table.values, List.map_snd_zip]
      simp [hlength, Table.names, Table.values]
    rw [hvalues]
    exact hs
  | map value =>
    cases h
    rw [hsingle rfl]
    exact Schema.references_of_mem_children (by simp [Keywords.children, Additional.children]) href
  | array element =>
    cases h
    rw [hsingle rfl]
    exact Schema.references_of_mem_children (by simp [Keywords.children]) href
  | tuple elements =>
    cases h
    exact Schema.references_of_mem_children (by simpa [Keywords.children] using hs) href
  | union variants =>
    have horNull {t : Schema} (ht : t.references id = true) : (orNullOf variants t).references id = true := by
      rw [orNullOf]
      split
      · exact Schema.references_orNull ht
      · exact ht
    cases unionForm h with
    | null | literals => exact hnone rfl
    | alternatives => exact horNull (Registry.references_oneOf hl hs href)
  | intersection members => exact absurd rfl (he members)
  | _ => cases h

/-- A reference has no keywords that could be in another order, so its shape is its own. -/
theorem Schema.eq_reference_of_shape {s : Schema} {id : String} (h : s.canonical = (reference id).canonical) :
    s = reference id := by
  refine eq_reference_of_refId? ?_
  rw [← refId?_canonical, h, refId?_canonical]
  rfl

/-- With null allowed, a schema is no reference any more, and if it is an object it says that it can be null. -/
theorem Schema.orNull_wrapped (s : Schema) : s.orNull.refId? = none ∧
    (s.orNull.isObject = true → s.orNull.isNullable = true) := by
  rw [orNull]
  split
  · exact ⟨rfl, fun h => by cases h⟩
  · exact ⟨by simp [refId?, keywords, Keywords.isEmpty], fun _ => rfl⟩

/-- A union of one shape is that alternative itself. Whatever else is built is no reference, and an object only
if it is built from one or admits null. -/
theorem TypeExpr.build_cases {e : TypeExpr} (he : ∀ members, e ≠ .intersection members) {parts : List TypeExpr}
    {build : Registry → List Schema → Schema} (h : e.form = .built parts build) (r : Registry) (l : List Schema) :
    (∃ variants s, e = .union variants ∧ parts = proper variants ∧ (flatten variants).any isNullLike = false ∧
      distinctShapes [] l = [s] ∧ build = Registry.oneOf) ∨
    ((build r l).refId? = none ∧
      ((build r l).isObject = true → (build r l).isNullable = true ∨
        ∃ properties closed, e = .object properties closed)) := by
  have hother {s : Schema} (href : s.refId? = none) (hobject : s.isObject = false) : s.refId? = none ∧
      (s.isObject = true → s.isNullable = true ∨ ∃ properties closed, e = .object properties closed) :=
    ⟨href, fun h => by rw [hobject] at h; cases h⟩
  have hliterals (literals : List Literal) : (Schema.ofLiterals literals).refId? = none := by
    simp [Schema.refId?, Schema.ofLiterals, Schema.keywords, Keywords.isEmpty]
  have hobject (literals : List Literal) : (Schema.ofLiterals literals).isObject = false := by
    simp [Schema.isObject, Schema.ofLiterals, Schema.keywords]
  cases e with
  | primitive kind => cases h; exact Or.inr (hother (by cases kind <;> rfl) (by cases kind <;> rfl))
  | object properties closed => cases h; exact Or.inr ⟨rfl, fun _ => Or.inr ⟨properties, closed, rfl⟩⟩
  | map value => cases h; exact Or.inr (hother rfl rfl)
  | array element => cases h; exact Or.inr (hother rfl rfl)
  | tuple elements => cases h; exact Or.inr (hother rfl rfl)
  | enumeration literals => cases h; exact Or.inr (hother (hliterals _) (hobject _))
  | literal value => cases h; exact Or.inr (hother (hliterals _) (hobject _))
  | intersection members => exact absurd rfl (he members)
  | union variants =>
    -- with null among the variants the schema is wrapped or nullable
    have hnull {s : Schema} (h : (flatten variants).any isNullLike = true) : (orNullOf variants s).refId? = none ∧
        ((orNullOf variants s).isObject = true → (orNullOf variants s).isNullable = true ∨
          ∃ properties closed, TypeExpr.union variants = .object properties closed) := by
      rw [orNullOf, if_pos h]
      exact s.orNull_wrapped.imp_right fun h hobject => Or.inl (h hobject)
    cases unionForm h with
    | null => exact Or.inr (hother rfl rfl)
    | literals =>
      by_cases hany : (flatten variants).any isNullLike = true
      · exact Or.inr (hnull hany)
      · rw [orNullOf, if_neg hany]
        exact Or.inr (hother (hliterals _) (hobject _))
    | alternatives =>
      by_cases hany : (flatten variants).any isNullLike = true
      · exact Or.inr (hnull hany)
      · have horNull (s : Schema) : orNullOf variants s = s := if_neg hany
        rcases r.oneOf_cases l with ⟨s, hs, -⟩ | heq
        · exact Or.inl ⟨variants, s, rfl, rfl, by simpa using hany, hs, by funext r l; exact horNull _⟩
        · simp only [horNull, heq]
          exact Or.inr (hother rfl rfl)
  | _ => cases h


/-! ## Running

Each rule of `Runs` answers a reference, a schema that was built from answers before it, or what is registered. All of
these are tidy if the registry is, so the proof is the induction over runs of one inherited property. -/

variable {c : Catalog}

/-- An expansion that begins registers nothing. -/
theorem Registry.Tidy.opened {r : Resolver c} (hr : r.registry.Tidy) (i : Fin c.size) (args : List Schema) :
    (r.opened i args).registry.Tidy := fun id s hs => by
  rw [Resolver.get?_opened] at hs
  exact hr id s hs

/-- Tidiness is inherited, whatever is registered. -/
theorem inherited_tidy : Inherited fun _ s => s.Tidy where
  moves := fun _ hs => hs
  reference := Schema.tidy_reference _
  build := fun hr he hl => TypeExpr.tidy_build hr he hl

/-- A task that succeeds keeps the registry tidy and answers tidy schemas. -/
theorem Runs.tidy {p : Pending c} {t : Task c} {r r' : Resolver c} {out : Except Fault t.Answer}
    (h : Runs p t r out r') {answer : t.Answer} (hout : out = .ok answer) (hsound : r.registry.Sound)
    (hr : r.registry.Tidy) (hin : ∀ s ∈ t.inputs, s.Tidy) : r'.registry.Tidy ∧ ∀ s ∈ t.outputs answer, s.Tidy := by
  obtain ⟨hr', hanswer⟩ := h.inherits inherited_tidy ⟨hsound, hr⟩ hin
  exact ⟨hr'.registered, hanswer answer hout⟩

end RouteManifest
