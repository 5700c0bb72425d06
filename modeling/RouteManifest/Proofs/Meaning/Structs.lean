import Mathlib.Data.List.Pairwise
import RouteManifest.Interface.Declarations
import RouteManifest.Proofs.Lists
import RouteManifest.Proofs.Meaning.Building
import RouteManifest.Proofs.Meaning.Registered
import RouteManifest.Proofs.Meaning.Shapes
import RouteManifest.Proofs.Meaning.TaggedEnums

/-!
# Structs

A struct with named fields is written as an object. If some of its fields are flattened it is the intersection of that
object with their types, and when these are structs as well the parts are merged: the struct is registered as one object
with all of their properties (`Registry.lists_allOf`). It requires what its parts require, those too that are flattened
through an `Option`.

The parts can only be merged when they are there. So the flattened structs have to be registered when the struct is, which
they are unless it is resolved inside one of them.

The proof follows a struct from its source to the registry. Its type is read off its fields (`Catalog.Struct.body_eq`);
its parts are known by ids with the schemas of their bodies (`Runs.references`); and what is merged of these is what the
struct is registered as, at the moment of its expansion and from then on (`Catalog.Struct.Flattens.isWrittenAs`).
-/

namespace RouteManifest

variable {c : Catalog}

/-! ## What an object lists

`Schema.Lists` says of an object all that is asked about it here. Properties are compared as names in some order, since
a schema of the same shape may have been registered instead. -/

namespace Schema

/-- An object with just these properties, which requires just these of them. -/
structure Lists (names required : List String) (s : Schema) : Prop where
  isObject : s.isObject = true
  isNullable : s.isNullable = false
  names : (Table.names (s.keywords.properties.getD [])).Perm names
  required : ∀ name, name ∈ s.keywords.required.getD [] ↔ name ∈ required

variable {s t : Schema} {names required : List String}

/-- An object lists the properties that it is made of. -/
theorem lists_object (properties : Table Schema) (required : List String) (closed : Bool) :
    (object properties required closed).Lists properties.names required where
  isObject := rfl
  isNullable := rfl
  names := .refl _
  required := by cases required <;> exact fun _ => Iff.rfl

/-- A schema of the same shape lists the same. -/
theorem Lists.of_shape (hs : s.Lists names required) (h : t.canonical = s.canonical) : t.Lists names required where
  isObject := (isObject_of_shape h).trans hs.isObject
  isNullable := by rw [← isNullable_canonical, h, isNullable_canonical, hs.isNullable]
  names := (names_perm_of_shape h).trans hs.names
  required := by
    intro name
    rw [← List.contains_iff_mem, contains_required_of_shape h, List.contains_iff_mem, hs.required]

/-- Required names are a set here, so repeating them makes no difference. -/
theorem Lists.congr (hs : s.Lists names required) {names' required' : List String} (hnames : names.Perm names')
    (hrequired : ∀ name, name ∈ required ↔ name ∈ required') : s.Lists names' required' :=
  ⟨hs.isObject, hs.isNullable, hs.names.trans hnames, fun name => (hs.required name).trans (hrequired name)⟩

/-- An object requires one set of names only. -/
theorem Lists.required_iff (hs : s.Lists names required) {required' : List String} :
    s.Lists names required' ↔ ∀ name, name ∈ required ↔ name ∈ required' :=
  ⟨fun h name => (hs.required name).symm.trans (h.required name), hs.congr (.refl _)⟩

/-- Properties with new names are all kept. -/
theorem addProperties_of_nodup {collected added : Table Schema} (h : (collected.names ++ added.names).Nodup) :
    addProperties collected added = some (collected ++ added) := by
  induction added generalizing collected with
  | nil => rw [addProperties, List.append_nil]
  | cons e rest ih =>
    obtain ⟨name, schema⟩ := e
    have hnew : name ∉ collected.names := fun hmem => List.disjoint_of_nodup_append h hmem List.mem_cons_self
    have hinsert : collected.insert name schema = collected ++ [(name, schema)] := Table.insert_of_not_mem hnew schema
    have hnodup : (Table.names (collected ++ [(name, schema)]) ++ Table.names rest).Nodup := by
      simpa [Table.names] using h
    rw [addProperties, Table.find?_eq_none_iff.mpr hnew]
    simp only [hinsert]
    rw [ih hnodup, List.append_assoc, List.singleton_append]

end Schema

namespace Registry

variable {r : Registry} {α : Type} {names required : α → List String}

/-- Parts in which objects with different properties are seen can be merged. -/
theorem mergeParts_of_nodup {as : List α} {parts : List Schema}
    (h : List.Forall₂ (fun a s => ∃ object, r.objectView? s = some object ∧ object.Lists (names a) (required a)) as parts)
    (collected : Table Schema) (needed : List String) (hnodup : (collected.names ++ as.flatMap names).Nodup) :
    ∃ properties all, r.mergeParts collected needed parts = some (properties, all) ∧
      (Schema.object properties all false).Lists (collected.names ++ as.flatMap names) (needed ++ as.flatMap required) := by
  -- a part is added to what the parts before it have collected
  induction h generalizing collected needed with
  | nil =>
    refine ⟨collected, needed, rfl, ?_⟩
    simpa using Schema.lists_object collected needed false
  | @cons a s as parts hview _ ih =>
    obtain ⟨object, hview, hlists⟩ := hview
    have hnames := hlists.names
    rw [List.flatMap_cons, ← List.append_assoc] at hnodup
    have hperm : (collected.names ++ Table.names (object.keywords.properties.getD [])).Perm (collected.names ++ names a) :=
      hnames.append_left _
    have hnodup' : (Table.names (collected ++ object.keywords.properties.getD []) ++ as.flatMap names).Nodup := by
      rw [Table.names, List.map_append]
      exact ((hperm.append_right _).nodup_iff).mpr hnodup
    obtain ⟨properties, all, hmerge, hall⟩ :=
      ih _ (Schema.addNames needed (object.keywords.required.getD [])) hnodup'
    refine ⟨properties, all, mergeParts_cons.mpr ⟨object, hview, ?_, _, ?_, hmerge⟩, hall.congr ?_ fun name => ?_⟩
    · rw [hlists.isNullable]
      exact Bool.false_ne_true
    · exact Schema.addProperties_of_nodup ((hperm.nodup_iff).mpr hnodup.of_append_left)
    · rw [List.flatMap_cons, ← List.append_assoc, Table.names, List.map_append]
      exact hperm.append_right _
    · rw [List.flatMap_cons, List.mem_append, Schema.mem_addNames, hlists.required, List.mem_append, List.mem_append, or_assoc]

/-- An intersection of several parts in which objects with different properties are seen is an object with all of these,
and it requires what any of them requires. -/
theorem lists_allOf {as : List α} {parts : List Schema}
    (h : List.Forall₂ (fun a s => ∃ object, r.objectView? s = some object ∧ object.Lists (names a) (required a)) as parts)
    (hnodup : (as.flatMap names).Nodup) (hseveral : parts.length ≠ 1) :
    (r.allOf parts).Lists (as.flatMap names) (as.flatMap required) := by
  obtain ⟨properties, all, hmerge, hlists⟩ := mergeParts_of_nodup h [] [] hnodup
  rw [allOf_of_not_single r hseveral, hmerge]
  exact hlists

/-- An intersection with a part in which no object is seen is not an object. -/
theorem isObject_allOf_of_unseen {parts : List Schema} {s : Schema} (hs : s ∈ parts) (hunseen : r.objectView? s = none)
    (hseveral : parts.length ≠ 1) : (r.allOf parts).isObject = false := by
  have hmerge : r.mergeParts [] [] parts = none := by
    rcases h : r.mergeParts [] [] parts with _ | result
    · rfl
    obtain ⟨views, hlength, hviews, -⟩ := mergeParts_views h
    have hseen : List.Forall₂ (fun view part => r.objectView? part = some view) views parts :=
      List.forall₂_iff_zip.mpr ⟨hlength, fun {view part} hmem => hviews (view, part) hmem⟩
    obtain ⟨view, hview⟩ := forall_of_forall₂ hseen (P := fun part => ∃ view, r.objectView? part = some view)
      (fun hview => ⟨_, hview⟩) s hs
    rw [hview] at hunseen
    cases hunseen
  rw [allOf_of_not_single r hseveral, hmerge]
  rfl

end Registry

/-! ## What is written

A struct is read off its source: which fields are skipped, which are flattened, and what each is called. The definitions
name these lists, so that the theorem can be stated about them. -/

namespace Source

/-- A type that is an `Option`. -/
def TypeTerm.isOption (t : TypeTerm) : Bool :=
  match t.lastName? with
  | some ("Option", [_]) => true
  | _ => false

/-- A field need not be there if it is an Option, or has a default. -/
theorem TypeTerm.required_toMember (params : List String) (t : TypeTerm) (isDefaulted : Bool) :
    (t.toMember params isDefaulted).required = !(t.isOption || isDefaulted) := by
  by_cases h : ∃ inner, t.lastName? = some ("Option", [inner])
  · obtain ⟨inner, h⟩ := h
    simp [toMember, isOption, h]
  · have hmember : t.toMember params isDefaulted = ⟨t.toTypeExpr params, !isDefaulted⟩ := by
      rw [toMember.eq_def]
      split
      next inner hinner => exact absurd ⟨inner, hinner⟩ h
      · rfl
    have hoption : t.isOption = false := by
      rw [isOption.eq_def]
      split
      next inner hinner => exact absurd ⟨inner, hinner⟩ h
      · rfl
    rw [hmember, hoption, Bool.false_or]

end Source

/-- A struct with named fields that is declared in a catalog. -/
structure Catalog.Struct (c : Catalog) where
  index : Fin c.size
  path : Path
  head : Source.TypeHead
  fields : List (String × Source.Field)
  declared : (Source.Item.structItem head (.named fields)).declarations path = [c.get index]

namespace Catalog.Struct

/-- What the attributes of a struct ask for. -/
def options (S : c.Struct) : WireOptions := WireOptions.ofAttributes S.head.attributes

/-- The name that a field is written under. -/
def nameOf (S : c.Struct) (f : String × Source.Field × WireOptions) : String :=
  f.2.2.nameOf (if S.options.isTransparent then none else S.options.renameAll) f.1

/-- The fields that are written as properties. -/
def own (S : c.Struct) : List (String × Source.Field × WireOptions) :=
  (Source.keptFields S.fields).filter fun (_, _, o) => !o.isFlattened

/-- The fields whose properties are written. -/
def flattened (S : c.Struct) : List (String × Source.Field × WireOptions) :=
  (Source.keptFields S.fields).filter fun (_, _, o) => o.isFlattened

/-- The names of the fields that are written as properties. -/
def names (S : c.Struct) : List String := S.own.map S.nameOf

/-- The names of those among them that are neither an `Option` nor have a default. -/
def required (S : c.Struct) : List String :=
  (S.own.filter fun f => !(f.2.1.type.isOption || f.2.2.isDefaulted)).map S.nameOf

/-- The properties that a struct is written with. -/
def entries (S : c.Struct) : List (String × Member TypeExpr) :=
  S.own.map fun f => (S.nameOf f, f.2.1.type.toMember S.head.typeParams f.2.2.isDefaulted)

/-- The object with these properties. -/
def object (S : c.Struct) : TypeExpr :=
  .object (Table.ofEntries S.entries) (if S.options.isTransparent then false else S.options.deniesUnknown)

/-- What a field is the type of. -/
def typeOf (S : c.Struct) (f : String × Source.Field × WireOptions) : TypeExpr :=
  (f.2.1.type.toMember S.head.typeParams f.2.2.isDefaulted).node

variable (S : c.Struct)

/-- The declaration of a struct is what its source says. -/
theorem get_eq : c.get S.index = S.head.declare S.path
    (Source.structType S.head.typeParams S.options (.named S.fields)) S.options.rename :=
  (List.singleton_inj.mp S.declared).symm

/-- The body is the object of its own fields, alone or with the types of the flattened ones. -/
theorem body_eq : (c.get S.index).body =
    if S.flattened.isEmpty then S.object else .intersection (S.object :: S.flattened.map S.typeOf) := by
  have hfields (rule : Option String) (closed : Bool) :
      (Source.Fields.named S.fields).toTypeExpr S.head.typeParams rule closed =
        Source.namedFieldsType S.head.typeParams rule closed S.fields := rfl
  rw [get_eq]
  show Source.structType S.head.typeParams S.options (.named S.fields) = _
  rw [Source.structType, hfields, hfields]
  unfold object entries nameOf
  split <;> rfl

/-- What is required is among the properties. -/
theorem names_subset : S.required ⊆ S.names := List.map_subset _ (List.filter_subset_self _)

/-- The object requires just the fields that have to be there. -/
theorem requiredNames_entries : TypeExpr.requiredNames S.entries = S.required := by
  rw [TypeExpr.requiredNames, entries, required]
  induction S.own with
  | nil => rfl
  | cons f rest ih =>
    rw [List.map_cons, List.filterMap_cons, ih, List.filter_cons]
    simp only [Source.TypeTerm.required_toMember]
    cases (!(f.2.1.type.isOption || f.2.2.isDefaulted)) <;> rfl

end Catalog.Struct

/-- The object of a struct lists its names. -/
theorem Runs.lists {S : c.Struct} {p : Pending c} {scope : Table Schema} {origin : Location} {e : TypeExpr}
    {r r' : Resolver c} {s : Schema} (h : Runs p (.node scope origin e) r (.ok s) r') (he : e = S.object)
    (hnames : S.names.Nodup) : s.Lists S.names S.required := by
  subst he
  have hentries : S.entries.map Prod.fst = S.names := List.map_map
  have htable : Table.ofEntries S.entries = S.entries := Table.ofEntries_of_nodup (hentries.symm ▸ hnames)
  obtain ⟨l, hparts, rfl⟩ := h.of_built rfl rfl
  have hlength : (Table.names S.entries).length ≤ l.length := by
    rw [hparts.length_eq, htable]
    simp [Table.names, Table.values]
  have hlists := Schema.lists_object ((Table.names S.entries).zip l) S.required
    (if S.options.isTransparent then false else S.options.deniesUnknown)
  rw [htable, Catalog.Struct.requiredNames_entries]
  have hzip : Table.names ((Table.names S.entries).zip l) = S.names := (List.map_fst_zip hlength).trans hentries
  exact hzip ▸ hlists

/-! ## What is merged

A part is seen in the registry under the id that its declaration is known by. While a part is pending there is no schema
behind its id, no object is seen in it, and the intersection is left as it is. -/

/-- A struct whose properties stand in an object, and whether they are flattened through an `Option`. -/
structure Catalog.Piece (c : Catalog) where
  struct : c.Struct
  isOption : Bool := false

/-- A struct beside its parts. -/
def Catalog.Struct.pieces (S : c.Struct) (parts : List c.Piece) : List c.Piece := ⟨S, false⟩ :: parts

/-- A field of a struct has the type of another struct, which has no type parameters, or is an `Option` of it. -/
structure Catalog.Struct.HasType (S : c.Struct) (f : String × Source.Field × WireOptions) (part : c.Piece) : Prop where
  isOption_eq : f.2.1.type.isOption = part.isOption
  typeOf_eq : S.typeOf f = .reference part.struct.head.name
  unbound : part.struct.head.name ∉ S.head.typeParams
  lookup_eq : c.lookup? part.struct.head.name S.path = some part.struct.index
  typeParams_eq : part.struct.head.typeParams = []

/-- The flattened fields of a struct have the types of other structs, which flatten nothing themselves, and no two
properties have the same name. -/
structure Catalog.Struct.Flattens (S : c.Struct) (parts : List c.Piece) : Prop where
  types : List.Forall₂ S.HasType S.flattened parts
  plain : ∀ part ∈ parts, part.struct.flattened = []
  distinct : ((S.pieces parts).flatMap fun piece => piece.struct.names).Nodup

instance (name : String) : (e : TypeExpr) → Decidable (e = .reference name)
  | .reference other => decidable_of_iff (other = name) ⟨congrArg _, TypeExpr.reference.inj⟩
  | .primitive _ | .object _ _ | .map _ | .array _ | .tuple _ | .union _ | .intersection _ | .enumeration _ | .literal _
  | .generic _ _ | .typeParameter _ | .callable => isFalse nofun

instance (S : c.Struct) (f : String × Source.Field × WireOptions) (part : c.Piece) : Decidable (S.HasType f part) :=
  decidable_of_iff (f.2.1.type.isOption = part.isOption ∧ S.typeOf f = .reference part.struct.head.name ∧
      part.struct.head.name ∉ S.head.typeParams ∧ c.lookup? part.struct.head.name S.path = some part.struct.index ∧
      part.struct.head.typeParams = [])
    ⟨fun h => ⟨h.1, h.2.1, h.2.2.1, h.2.2.2.1, h.2.2.2.2⟩,
      fun h => ⟨h.isOption_eq, h.typeOf_eq, h.unbound, h.lookup_eq, h.typeParams_eq⟩⟩

instance (S : c.Struct) (parts : List c.Piece) : Decidable (S.Flattens parts) :=
  decidable_of_iff (S.flattened.length = parts.length ∧ (∀ pair ∈ S.flattened.zip parts, S.HasType pair.1 pair.2) ∧
      (∀ part ∈ parts, part.struct.flattened = []) ∧
      ((S.pieces parts).flatMap fun piece => piece.struct.names).Nodup)
    ⟨fun h => ⟨List.forall₂_iff_zip.mpr ⟨h.1, fun {f part} hmem => h.2.1 (f, part) hmem⟩, h.2.2.1, h.2.2.2⟩,
      fun h => ⟨h.types.length_eq, fun _ hmem => (List.forall₂_iff_zip.mp h.types).2 hmem, h.plain, h.distinct⟩⟩

/-- A struct that flattens nothing is resolved to an object with its own properties. -/
theorem Catalog.ResolvesTo.lists {T : c.Struct} {s : Schema} (h : c.ResolvesTo T.index s) (hplain : T.flattened = [])
    (hnames : T.names.Nodup) : s.Lists T.names T.required := by
  obtain ⟨p, r, args, r', -, hrun⟩ := h
  have hbody : (c.get T.index).body = T.object := by
    rw [T.body_eq, hplain]
    rfl
  exact hrun.lists hbody hnames

/-! ### References to the parts

A part is known or pending under an id. The type of a flattened field is resolved to a reference to that id, with null
allowed or not. -/

section Merged

variable {S : c.Struct} {parts : List c.Piece} {p : Pending c} {scope : Table Schema} {origin : Location}

/-- A part has an id in the course of a task: it is pending under it, or known by it from some moment on. -/
def Catalog.Piece.Has (part : c.Piece) (id : String) (start : Moment c) (last : Registry) : Prop :=
  start.pending.id? ⟨part.struct.index, []⟩ = some id ∨
    ∃ m, start.Within m ∧ m.pending = start.pending ∧ m.resolver.id? ⟨part.struct.index, []⟩ = some id ∧
      Registry.Moves m.resolver.registry last

/-- The types of parts are resolved to what the parts are known by. -/
theorem Runs.references {fields : List (String × Source.Field × WireOptions)}
    (htypes : List.Forall₂ (fun f part => ∃ name, S.typeOf f = .reference name ∧ scope.find? name = none ∧
      c.applied name 0 origin = .ok part.struct.index) fields parts) {r r' : Resolver c} {l : List Schema}
    (h : Runs p (.list scope origin (fields.map S.typeOf)) r (.ok l) r') :
    List.Forall₂ (fun part s => ∃ id, s = .reference id ∧
      part.Has id ⟨p, .list scope origin (fields.map S.typeOf), r⟩ r'.registry) parts l := by
  induction htypes generalizing r l with
  | nil =>
    cases h
    exact .nil
  | @cons f part fields parts htype _ ih =>
    obtain ⟨name, htype, hscope, hi⟩ := htype
    rw [List.map_cons] at h ⊢
    cases h with
    | cons hhead htail =>
      have hstarts : Moment.Starts ⟨p, .list scope origin (S.typeOf f :: fields.map S.typeOf), r⟩ _ := .tail hhead
      refine .cons ?_ ((ih htail).imp ?_)
      · have hform : (S.typeOf f).form = .named name [] := by rw [htype]; rfl
        obtain ⟨l, q, hargs, hname⟩ := hhead.of_named rfl hform (fun _ => hscope) hi
        cases hargs
        obtain ⟨id, rfl, hid⟩ := hname.exists_id rfl
        exact ⟨id, rfl, hid.imp_right fun hid => ⟨_, .single hstarts, rfl, hid, htail.moves⟩⟩
      · rintro part s ⟨id, rfl, hid⟩
        refine ⟨id, rfl, hid.imp_right ?_⟩
        rintro ⟨m, hm, hrest⟩
        exact ⟨m, .head hstarts hm, hrest⟩

namespace Catalog.Struct.Flattens

variable {args : List Schema} {r r' : Resolver c} {s : Schema}

/-- No name comes up twice in one of the parts. -/
theorem nodup_names (h : S.Flattens parts) {piece : c.Piece} (hpiece : piece ∈ S.pieces parts) :
    piece.struct.names.Nodup := (List.nodup_flatMap.mp h.distinct).1 piece hpiece

/-- A struct with flattened fields is the intersection of its own object with their types. -/
theorem exists_parts (h : S.Flattens parts) (hne : S.flattened ≠ []) (hrun : Runs p (.ofBody S.index args) r (.ok s) r') :
    ∃ own r₁ l, own.Lists S.names S.required ∧ s = r'.registry.allOf (own :: l) ∧ (own :: l).length ≠ 1 ∧
      Moment.Within ⟨p, .ofBody S.index args, r⟩
        ⟨p, .list ((c.get S.index).scope args) (c.get S.index).location (S.flattened.map S.typeOf), r₁⟩ ∧
      Runs p (.list ((c.get S.index).scope args) (c.get S.index).location (S.flattened.map S.typeOf)) r₁ (.ok l) r' := by
  have hform : (c.get S.index).body.form = .built (S.object :: S.flattened.map S.typeOf)
      fun registry schemas => registry.allOf schemas := by
    rw [S.body_eq, if_neg (by simpa using hne)]
    rfl
  obtain ⟨l, hparts, rfl⟩ := hrun.of_built rfl hform
  cases hparts with
  | @cons _ _ _ _ _ _ own r₁ l _ hhead htail =>
    refine ⟨own, r₁, l, hhead.lists rfl (h.nodup_names List.mem_cons_self), rfl, ?_, ?_, htail⟩
    · rw [List.length_cons, htail.length_eq, List.length_map]
      exact fun hlength => hne (List.length_eq_zero_iff.mp (Nat.succ.inj hlength))
    · exact .head (.parts hform) (.single (.tail hhead))

/-- The types of the flattened fields are resolved to references, each to what its part is known by. -/
theorem references (h : S.Flattens parts) {l : List Schema}
    (hrun : Runs p (.list ((c.get S.index).scope args) (c.get S.index).location (S.flattened.map S.typeOf)) r (.ok l) r') :
    List.Forall₂ (fun part s => ∃ id, s = .reference id ∧ part.Has id
      ⟨p, .list ((c.get S.index).scope args) (c.get S.index).location (S.flattened.map S.typeOf), r⟩ r'.registry) parts l := by
  have hlocation : (c.get S.index).location.unit = S.path := by
    rw [S.get_eq]
    rfl
  refine Runs.references (h.types.imp fun f part hf => ?_) hrun
  refine ⟨_, hf.typeOf_eq, ?_, Catalog.applied_eq_ok.mpr ⟨hlocation ▸ hf.lookup_eq, ?_⟩⟩
  · refine Table.find?_eq_none_iff.mpr fun hmem => hf.unbound ?_
    have hmem := Declaration.mem_typeParams_of_scope hmem
    rwa [S.get_eq] at hmem
  · rw [part.struct.get_eq]
    exact congrArg List.length hf.typeParams_eq

/-- If none of its parts is pending, a struct is one object with the properties of all parts. -/
theorem lists (h : S.Flattens parts) (hrun : Runs p (.ofBody S.index args) r (.ok s) r')
    (hkeeps : ∀ m, Moment.Within ⟨p, .ofBody S.index args, r⟩ m → ∀ part ∈ parts, m.resolver.Keeps part.struct.index)
    (hpending : ∀ part ∈ parts, p.id? ⟨part.struct.index, []⟩ = none) :
    s.Lists ((S.pieces parts).flatMap fun piece => piece.struct.names)
      ((S.pieces parts).flatMap fun piece => piece.struct.required) := by
  by_cases hne : S.flattened = []
  · have htypes := h.types
    rw [hne, List.forall₂_nil_left_iff] at htypes
    subst htypes
    have hbody : (c.get S.index).body = S.object := by
      rw [S.body_eq, hne]
      rfl
    simpa [pieces] using hrun.lists hbody (h.nodup_names List.mem_cons_self)
  · obtain ⟨own, r₁, l, hown, rfl, hseveral, hwithin, htail⟩ := h.exists_parts hne hrun
    refine Registry.lists_allOf (.cons ⟨own, Registry.objectView?_of_isObject hown.isObject, hown⟩ ?_) h.distinct hseveral
    have hzip := List.forall₂_iff_zip.mp (h.references htail)
    refine List.forall₂_iff_zip.mpr ⟨hzip.1, fun {part s} hmem => ?_⟩
    have hpart := (List.of_mem_zip hmem).1
    obtain ⟨id, rfl, hid | ⟨m, hm, -, hid, hmoves⟩⟩ := hzip.2 hmem
    · rw [hpending part hpart] at hid
      cases hid
    · -- what the part was known by has kept its schema since
      obtain ⟨s, t, hs, ht, hshape⟩ := hkeeps m (hwithin.trans hm) part hpart [] id hid
      have hlists := (hs.lists (h.plain part hpart) (h.nodup_names (List.mem_cons_of_mem _ hpart))).of_shape hshape
      exact ⟨t, Registry.objectView?_eq_some.mpr ⟨hlists.isObject, Or.inr ⟨id, rfl, Registry.get?_of_moves hmoves ht⟩⟩, hlists⟩

/-- If one of its parts is pending, there is nothing to merge. -/
theorem isObject_of_pending (h : S.Flattens parts) (hc : c.Unshared) (hrun : Runs p (.ofBody S.index args) r (.ok s) r')
    (htracked : Moment.Tracked ⟨p, .ofBody S.index args, r⟩) {part : c.Piece} (hpart : part ∈ parts)
    (hpending : (p.id? ⟨part.struct.index, []⟩).isSome = true) : s.isObject = false := by
  have hne : S.flattened ≠ [] := by
    intro hnil
    have htypes := h.types
    rw [hnil, List.forall₂_nil_left_iff] at htypes
    rw [htypes] at hpart
    cases hpart
  obtain ⟨own, r₁, l, -, rfl, hseveral, hwithin, htail⟩ := h.exists_parts hne hrun
  obtain ⟨hlength, hzip⟩ := List.forall₂_iff_zip.mp (h.references htail)
  obtain ⟨s, hmem⟩ := exists_mem_zip_left hlength.symm hpart
  have hs : s ∈ l := (List.of_mem_zip hmem).2
  have hcourse {m : Moment c} (hm : Moment.Within _ m) : m.Tracked :=
    Moment.Within.invariant (Moment.Tracked.starts hc) (hwithin.trans hm) htracked
  obtain ⟨id, rfl, hid | ⟨m, hm, rfl, hid, -⟩⟩ := hzip hmem
  · -- what is pending has no schema, so no object is seen behind it
    have hget := (hcourse htail.within_end).get?_pending hc hid
    refine Registry.isObject_allOf_of_unseen (List.mem_cons_of_mem _ hs) ?_ hseveral
    rw [Registry.objectView?]
    show (r'.registry.get? id).bind _ = none
    rw [show r'.registry.get? id = none from hget]
    rfl
  · obtain ⟨other, hother⟩ := Option.isSome_iff_exists.mp hpending
    have hunknown := ((hcourse hm).waiting other).unknown _ (Pending.mem_of_id? hother)
    rw [show m.resolver.id? _ = none from hunknown] at hid
    cases hid

end Catalog.Struct.Flattens

end Merged

/-! ## What is registered

At the moment when the struct's expansion ends its parts are seen as objects, and what is registered then stays. In
between no other schema can have got its id. -/

/-- What some of several lists with different names hold is everything just if the others are empty. -/
theorem flatMap_filter_subset_iff {α : Type} {names required : α → List String} {p : α → Bool}
    (hsubset : ∀ a, required a ⊆ names a) {l : List α} (hnodup : (l.flatMap names).Nodup) :
    l.flatMap required ⊆ (l.filter p).flatMap required ↔ ∀ a ∈ l, p a = false → required a = [] := by
  have hsymm : Std.Symm (Function.onFun List.Disjoint names) := ⟨fun _ _ h _ ha hb => h hb ha⟩
  have hdisjoint := (List.nodup_flatMap.mp hnodup).2.forall
  constructor
  · intro h a ha hp
    refine List.eq_nil_iff_forall_not_mem.mpr fun name hname => ?_
    obtain ⟨b, hb, hother⟩ := List.mem_flatMap.mp (h (List.mem_flatMap.mpr ⟨a, ha, hname⟩))
    obtain ⟨hb, hpb⟩ := List.mem_filter.mp hb
    have hne : a ≠ b := by
      rintro rfl
      rw [hp] at hpb
      cases hpb
    exact hdisjoint ha hb hne (hsubset a hname) (hsubset b hother)
  · intro h name hname
    obtain ⟨a, ha, hname⟩ := List.mem_flatMap.mp hname
    rcases hp : p a with _ | _
    · rw [h a ha hp] at hname
      cases hname
    · exact List.mem_flatMap.mpr ⟨a, List.mem_filter.mpr ⟨ha, hp⟩, hname⟩

namespace Catalog.Struct

variable (S : c.Struct) (parts : List c.Piece)

/-- The names of all properties of a struct, those of its parts included. -/
def allNames : List String := (S.pieces parts).flatMap fun piece => piece.struct.names

/-- The names that are required by the struct or by one of its parts. -/
def allRequired : List String := (S.pieces parts).flatMap fun piece => piece.struct.required

/-- The names that every value of the struct has: what is flattened through an `Option` can be left out. -/
def alwaysPresent : List String :=
  ((S.pieces parts).filter fun piece => !piece.isOption).flatMap fun piece => piece.struct.required

/-- The struct is resolved inside one of its parts, in the course of some calls. -/
def MetInside (calls : List (TypeExpr × Location)) : Prop :=
  ∃ m, ({} : Resolver c).Passes calls m ∧ (∃ args, m.task = .ofBody S.index args) ∧
    ∃ part ∈ parts, (m.pending.id? ⟨part.struct.index, []⟩).isSome = true

/-- The schema of a struct after some calls: an object with its properties, which requires what its parts require. It
requires just what is always present if what is flattened through an `Option` requires nothing. A struct that was met
inside one of its parts can have another schema, but that is no object unless ids are shared. -/
def IsWrittenAs (calls : List (TypeExpr × Location)) (schema : Schema) : Prop :=
  schema.Lists (S.allNames parts) (S.allRequired parts) ∧
      (schema.Lists (S.allNames parts) (S.alwaysPresent parts) ↔
        ∀ part ∈ parts, part.isOption = true → part.struct.required = []) ∨
    S.MetInside parts calls ∧ (c.Unshared → schema.isObject = false)

variable {S parts}

/-- What is required is what every value has just if nothing is flattened through an Option that requires anything. -/
theorem Flattens.alwaysPresent_iff (h : S.Flattens parts) {schema : Schema}
    (hlists : schema.Lists (S.allNames parts) (S.allRequired parts)) :
    schema.Lists (S.allNames parts) (S.alwaysPresent parts) ↔
      ∀ part ∈ parts, part.isOption = true → part.struct.required = [] := by
  have hsubset : S.alwaysPresent parts ⊆ S.allRequired parts := by
    intro name hname
    obtain ⟨piece, hpiece, hname⟩ := List.mem_flatMap.mp hname
    exact List.mem_flatMap.mpr ⟨piece, List.mem_of_mem_filter hpiece, hname⟩
  rw [hlists.required_iff]
  have hiff := flatMap_filter_subset_iff (p := fun piece : c.Piece => !piece.isOption)
    (fun piece => piece.struct.names_subset) h.distinct
  constructor
  · intro hall part hpart hoption
    exact hiff.mp (fun name hname => (hall name).mp hname) part (List.mem_cons_of_mem _ hpart) (by rw [hoption]; rfl)
  · intro hempty name
    refine ⟨fun hname => hiff.mpr ?_ hname, fun hname => hsubset hname⟩
    refine List.forall_mem_cons.mpr ⟨nofun, fun part hpart hoption => hempty part hpart ?_⟩
    simpa using hoption

end Catalog.Struct

section Struct

variable {S : c.Struct} {parts : List c.Piece}

/-- After the calls, a struct that they have registered is one object with the properties of all parts, unless it was
resolved inside one of them, and then it is not an object. -/
theorem Catalog.Struct.Flattens.isWrittenAs (h : S.Flattens parts) {calls : List (TypeExpr × Location)}
    (haccepts : ∀ piece ∈ S.pieces parts, ∀ m, ({} : Resolver c).Passes calls m →
      ∀ args fault, ¬m.Refused piece.struct.index args fault) {args : List String} {id : String}
    (hid : (({} : Resolver c).after calls).id? ⟨S.index, args⟩ = some id) :
    ∃ schema, (({} : Resolver c).after calls).registry.get? id = some schema ∧ S.IsWrittenAs parts calls schema := by
  have hfresh : ({} : Resolver c).Called fun _ _ _ => True := .fresh
  have hkept := Resolver.keepsAt_after (fun _ hm => hfresh.tidy_passes hm) (Resolver.keepsAt_fresh _ S.index)
    (fun _ hm => hm) (haccepts _ List.mem_cons_self)
  obtain ⟨s, t, ⟨p, r, args, r', hpasses, hrun⟩, ht, hshape⟩ := hkept args id hid
  refine ⟨t, ht, ?_⟩
  by_cases hinside : ∃ part ∈ parts, (p.id? ⟨part.struct.index, []⟩).isSome = true
  · refine Or.inr ⟨⟨_, hpasses, ⟨args, rfl⟩, hinside⟩, fun hc => ?_⟩
    obtain ⟨part, hpart, hpending⟩ := hinside
    rw [Schema.isObject_of_shape hshape]
    exact h.isObject_of_pending hc hrun (hfresh.tracked_passes hc hpasses) hpart hpending
  · have hlists : s.Lists (S.allNames parts) (S.allRequired parts) := by
      refine h.lists hrun (fun m hm part hpart => ?_) fun part hpart => ?_
      · exact hfresh.keeps_passes (Resolver.keeps_fresh _) (haccepts part (List.mem_cons_of_mem _ hpart)) (hpasses.within hm)
      · exact Option.not_isSome_iff_eq_none.mp fun hpending => hinside ⟨part, hpart, hpending⟩
    have ht := hlists.of_shape hshape
    exact Or.inl ⟨ht, h.alwaysPresent_iff ht⟩

/-- **Structs list their properties.** Of a struct with named fields, let the flattened ones have the types of other
structs, perhaps through an `Option`, and let no two properties have the same name. After any calls, whatever they
answered, unless one of them refused the schema of one of these structs: every id that the struct is known by is registered
as an object with the properties of all of them, which requires what any of them requires; unless it was met inside one of
its parts. And a call that resolves the struct answers with a `$ref` to such a schema. -/
theorem struct_lists (hflattens : S.Flattens parts) {calls : List (TypeExpr × Location)}
    (haccepts : ∀ piece ∈ S.pieces parts, ∀ m, ({} : Resolver c).Passes calls m →
      ∀ args fault, ¬m.Refused piece.struct.index args fault) :
    (∀ args id, (({} : Resolver c).after calls).id? ⟨S.index, args⟩ = some id →
      ∃ schema, (({} : Resolver c).after calls).registry.get? id = some schema ∧ S.IsWrittenAs parts calls schema) ∧
    ∀ e name args origin s r', e.form = .named name args → c.applied name args.length origin = .ok S.index →
      (resolve e origin).run (({} : Resolver c).after calls) = (.ok s, r') →
      ∃ id schema, s = .reference id ∧ r'.registry.get? id = some schema ∧
        S.IsWrittenAs parts (calls ++ [(e, origin)]) schema := by
  refine ⟨fun args id hid => hflattens.isWrittenAs haccepts hid, ?_⟩
  intro e name args origin s r' he hi hresolve
  have hrun : Runs {} (.node [] origin e) _ (.ok s) r' := runs_iff.mpr hresolve
  have hafter : ({} : Resolver c).after (calls ++ [(e, origin)]) = r' := by
    rw [Resolver.after_append]
    exact congrArg Prod.snd hresolve
  -- nothing is refused in a call that succeeds
  have hcalled : (({} : Resolver c).after calls).Called fun _ _ _ => True := Resolver.Called.after .fresh calls
  have haccepts' : ∀ piece ∈ S.pieces parts, ∀ m, ({} : Resolver c).Passes (calls ++ [(e, origin)]) m →
      ∀ args fault, ¬m.Refused piece.struct.index args fault := by
    intro piece hpiece m hm
    rcases Resolver.passes_append.mp hm with hm | hm | hm
    · exact haccepts piece hpiece m hm
    · exact hrun.accepts hcalled.recorded _ m hm
    · exact hm.elim
  obtain ⟨l, q, -, hname⟩ := hrun.of_named rfl he (fun _ => rfl) hi
  obtain ⟨id, rfl, hpending | hid⟩ := hname.exists_id rfl
  · cases hpending
  · obtain ⟨schema, hschema, hwritten⟩ := hflattens.isWrittenAs haccepts' (hafter.symm ▸ hid)
    exact ⟨id, schema, rfl, hafter ▸ hschema, hwritten⟩

end Struct

/-! ### A listing

A struct that flattens another one through an `Option`, resolved after a call that has failed. -/

/-- A page has a number, and perhaps a size. -/
def pageHead : Source.TypeHead := ⟨"Page", ⟨1, 11⟩, [], []⟩

def pageFields : List (String × Source.Field) := [
  ("number", ⟨[], .path false [] "u32" []⟩),
  ("size", ⟨[], .path false [] "Option" [.path false [] "u32" []]⟩)]

/-- A listing has a total, and perhaps it is one page of several. -/
def listingHead : Source.TypeHead := ⟨"Listing", ⟨6, 11⟩, [], []⟩

def listingFields : List (String × Source.Field) := [
  ("total", ⟨[], .path false [] "u64" []⟩),
  ("page", ⟨[Source.serdeAttribute [.word "flatten"]], .path false [] "Option" [.path false [] "Page" []]⟩)]

def listingCatalog : Catalog where
  declarations := (Source.Item.structItem pageHead (.named pageFields)).declarations ⟨"models.rs"⟩ ++
    (Source.Item.structItem listingHead (.named listingFields)).declarations ⟨"models.rs"⟩

def pageStruct : listingCatalog.Struct := ⟨⟨0, by decide +kernel⟩, ⟨"models.rs"⟩, pageHead, pageFields, rfl⟩

def listingStruct : listingCatalog.Struct := ⟨⟨1, by decide +kernel⟩, ⟨"models.rs"⟩, listingHead, listingFields, rfl⟩

/-- A listing requires the number of a page, although it need not be one. It is resolved after a call that has failed. -/
theorem struct_lists_listing : ∃ s r',
    (resolve (.reference "Listing") ⟨⟨"models.rs"⟩, 20, 0⟩).run (({} : Resolver listingCatalog).after
      [(.reference "Book", ⟨⟨"models.rs"⟩, 10, 0⟩)]) = (.ok s, r') ∧
    ∃ id schema, s = .reference id ∧ r'.registry.get? id = some schema ∧
      schema.Lists ["total", "number", "size"] ["total", "number"] ∧ ¬schema.Lists ["total", "number", "size"] ["total"] := by
  have hunshared : listingCatalog.Unshared := by
    intro i j id hinsists
    have hnone : ∀ i, (listingCatalog.get i).externalId = none := by decide +kernel
    rw [Declaration.InsistsOn, hnone i] at hinsists
    cases hinsists.1
  have hflattens : listingStruct.Flattens [⟨pageStruct, true⟩] := by decide +kernel
  have hnames : listingStruct.allNames [⟨pageStruct, true⟩] = ["total", "number", "size"] := by decide +kernel
  have hrequired : listingStruct.allRequired [⟨pageStruct, true⟩] = ["total", "number"] := by decide +kernel
  have halways : listingStruct.alwaysPresent [⟨pageStruct, true⟩] = ["total"] := by decide +kernel
  have hobject : (match (resolve (.reference "Listing") ⟨⟨"models.rs"⟩, 20, 0⟩).run (({} : Resolver listingCatalog).after
      [(.reference "Book", ⟨⟨"models.rs"⟩, 10, 0⟩)]) with
      | (.ok s, r') => (s.refId?.bind r'.registry.get?).any Schema.isObject
      | (.error _, _) => false) = true := by
    rw [Resolver.after, Resolver.after, resolve_eq_within, resolve_eq_within]
    decide +kernel
  rcases h : (resolve (.reference "Listing") ⟨⟨"models.rs"⟩, 20, 0⟩).run (({} : Resolver listingCatalog).after
      [(.reference "Book", ⟨⟨"models.rs"⟩, 10, 0⟩)]) with ⟨fault | s, r'⟩
  · rw [h] at hobject
    cases hobject
  · obtain ⟨id, schema, rfl, hschema, hwritten⟩ :=
      (struct_lists hflattens fun _ _ m hm => hunshared.not_refused hm _).2 (.reference "Listing") "Listing" [] _ s r' rfl
        (by decide +kernel) h
    refine ⟨_, r', rfl, id, schema, rfl, hschema, ?_⟩
    rw [h] at hobject
    change (r'.registry.get? id).any Schema.isObject = true at hobject
    rw [hschema, Option.any_some] at hobject
    rw [Catalog.Struct.IsWrittenAs, hnames, hrequired, halways] at hwritten
    rcases hwritten with ⟨hlists, hiff⟩ | ⟨-, hplain⟩
    · refine ⟨hlists, fun hsame => ?_⟩
      have hempty : pageStruct.required = [] := hiff.mp hsame _ List.mem_cons_self rfl
      exact absurd hempty (by decide +kernel)
    · rw [hplain hunshared] at hobject
      cases hobject

end RouteManifest
