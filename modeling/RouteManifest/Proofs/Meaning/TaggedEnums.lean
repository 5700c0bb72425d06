import RouteManifest.Interface.Declarations
import RouteManifest.Proofs.Lists
import RouteManifest.Proofs.Meaning.Registered
import RouteManifest.Proofs.Resolution.Evaluation
import RouteManifest.Proofs.Schema.Equivalence

/-!
# Tagged enums

An enum with a `tag` is written as a union of objects, one for each variant, whose first property holds the name of the
variant (`Source.Tagged.enumType_eq`). Such objects are never of one shape, and their first property tells them apart; so
the union is resolved to a `oneOf` of all of them with the tag as its discriminator (`Registry.oneOf_tagged`), and that is
what the enum is registered as.
-/

namespace RouteManifest

variable {c : Catalog}

/-! ## Objects with a tag

Of an expression and of a schema, and in both cases the tag is the first property. The schema says it by what `tag?`
finds, so it does not matter which of two schemas of one shape is asked. -/

/-- An object whose first property is a tag that holds a name. -/
def TypeExpr.Holds (tag name : String) (e : TypeExpr) : Prop :=
  ∃ rest, e = .object ((tag, ⟨.literal (.string name), true⟩) :: rest) false ∧ (tag :: Table.names rest).Nodup

namespace Schema

/-- An object whose first property is a tag that holds a name. -/
structure Holds (tag name : String) (s : Schema) : Prop where
  isObject : s.isObject = true
  nodup : (Table.names (s.keywords.properties.getD [])).Nodup
  first : (Table.names (s.keywords.properties.getD [])).head? = some tag
  tag : s.tag? tag = some (.string name)

/-- A `oneOf` of objects, one for each name, and in the same order, which are told apart by the names in a tag. -/
def DiscriminatesBy (tag : String) (names : List String) (s : Schema) : Prop :=
  ∃ alternatives, s = .mk { oneOf := some alternatives, discriminator := some ⟨tag, none⟩ } ∧
    List.Forall₂ (fun name a => a.isObject = true ∧ a.tag? tag = some (.string name)) names alternatives

variable {s t : Schema}

/-- Schemas of one shape have the same tags. -/
theorem tag?_of_shape (h : t.canonical = s.canonical) (hs : (Table.names (s.keywords.properties.getD [])).Nodup)
    (tag : String) : t.tag? tag = s.tag? tag := by
  have hcanonical {s : Schema} (hs : (Table.names (s.keywords.properties.getD [])).Nodup) :
      (Table.find? (s.canonical.keywords.properties.getD []) tag).bind singleLiteral? =
        (Table.find? (s.keywords.properties.getD []) tag).bind singleLiteral? := by
    obtain ⟨k⟩ := s
    rw [canonical_mk]
    show (Table.find? (((k.properties.map (Table.mapValues canonical)).map Table.sortByName).getD []) tag).bind _ = _
    rcases hk : k.properties with _ | properties
    · simp [keywords, hk]
    · have hnodup : (Table.mapValues canonical properties).names.Nodup := by
        simpa [keywords, hk, Table.names_mapValues] using hs
      simp only [Option.map_some, Option.getD_some, keywords, hk]
      rw [← Table.find?_of_perm (Table.sortByName_perm _).symm hnodup, Table.find?_mapValues, Option.bind_map]
      exact congrArg _ (funext singleLiteral?_canonical)
  have ht : (Table.names (t.keywords.properties.getD [])).Nodup := (names_perm_of_shape h).nodup_iff.mpr hs
  rw [tag?, tag?, contains_required_of_shape h tag, ← hcanonical ht, h, hcanonical hs]

/-- Objects whose tags hold different names are not of one shape. -/
theorem Holds.ne_shape {tag name name' : String} (hs : s.Holds tag name) (ht : t.Holds tag name') (hne : name ≠ name') :
    s.canonical ≠ t.canonical := by
  intro h
  have heq := tag?_of_shape h ht.nodup tag
  rw [hs.tag, ht.tag] at heq
  cases heq
  exact hne rfl

/-- What has the shape of an object with a tag is an object with the tag. -/
theorem Holds.of_shape {tag name : String} (hs : s.Holds tag name) (h : t.canonical = s.canonical) :
    t.isObject = true ∧ t.tag? tag = some (.string name) :=
  ⟨(isObject_of_shape h).trans hs.isObject, (tag?_of_shape h hs.nodup tag).trans hs.tag⟩

/-- An object holds a name if its first property is that literal and its properties have different names. -/
theorem holds_object {tag name : String} {properties : Table Schema} (hnodup : (tag :: Table.names properties).Nodup)
    (required : List String) (closed : Bool) :
    (object ((tag, ofLiterals [.string name]) :: properties) (tag :: required) closed).Holds tag name where
  isObject := rfl
  nodup := hnodup
  first := rfl
  tag := by
    have hrequired : (tag :: required).contains tag = true := List.contains_iff_mem.mpr List.mem_cons_self
    show (if (tag :: required).contains tag = true then
      (Table.find? ((tag, ofLiterals [.string name]) :: properties) tag).bind singleLiteral? else none) = _
    rw [if_pos hrequired, Table.find?_cons, if_pos rfl]
    rfl

/-- What has the shape of a discriminated union is one. -/
theorem discriminatesBy_of_shape {tag : String} {names : List String} {alternatives : List Schema}
    (hholds : List.Forall₂ (Holds tag) names alternatives)
    (h : t.canonical = (Schema.mk { oneOf := some alternatives, discriminator := some ⟨tag, none⟩ }).canonical) :
    t.DiscriminatesBy tag names := by
  obtain ⟨k⟩ := t
  rw [canonical_mk, canonical_mk] at h
  obtain ⟨_, _, _, _, _, _, _, _, _, _, oneOf, _, discriminator, _, _⟩ := k
  simp only [Keywords.map, Keywords.canonical, Schema.mk.injEq, Keywords.mk.injEq, Option.map_none, Option.map_some,
    Option.map_eq_none_iff] at h
  obtain ⟨rfl, rfl, rfl, rfl, rfl, rfl, rfl, rfl, rfl, rfl, honeOf, rfl, hdiscriminator, rfl, rfl⟩ := h
  obtain ⟨others, rfl, hothers⟩ := Option.map_eq_some_iff.mp honeOf
  obtain ⟨⟨property, mapping⟩, rfl, hd⟩ := Option.map_eq_some_iff.mp hdiscriminator
  obtain ⟨rfl, hmapping⟩ := Discriminator.mk.inj hd
  obtain rfl := Option.map_eq_none_iff.mp hmapping
  refine ⟨others, rfl, ?_⟩
  have hshapes := (map_eq_iff_forall₂ fun _ _ _ => Iff.rfl).mp hothers
  refine (forall₂_comp hholds hshapes.flip).imp fun name a h => ?_
  obtain ⟨b, hb, hshape⟩ := h
  exact hb.of_shape hshape

end Schema

/-! ## Unions of such objects

Different names make different tags, and objects that differ in their tags differ in shape. Hence no alternative is
dropped, and the search for a discriminator finds the tag, which every alternative has first. -/

/-- Different names are different literals. -/
theorem allDifferent_of_nodup {names : List String} (h : names.Nodup) :
    Schema.allDifferent (names.map .string) = true := by
  induction names with
  | nil => rfl
  | cons name rest ih =>
    obtain ⟨hnew, hrest⟩ := List.nodup_cons.mp h
    rw [List.map_cons, Schema.allDifferent, Bool.and_eq_true, List.all_eq_true]
    refine ⟨fun v hv => ?_, ih hrest⟩
    obtain ⟨other, hother, rfl⟩ := List.mem_map.mp hv
    have hne : name ≠ other := fun heq => hnew (heq ▸ hother)
    simp [Json.same, Json.sorted, hne]

namespace Registry

variable {r : Registry} {tag : String} {names : List String} {l : List Schema}

/-- Objects that hold different names are told apart by the tag, and none of them is a reference, so there is nothing to
map. -/
theorem discriminator?_tagged (h : List.Forall₂ (Schema.Holds tag) names l) (hnames : names.Nodup) (hl : l ≠ []) :
    r.discriminator? l = some ⟨tag, none⟩ := by
  have hobject : ∀ s ∈ l, s.isObject = true := forall_of_forall₂ h Schema.Holds.isObject
  have hviews : l.mapM r.objectView? = some l :=
    mapM_of_forall₂ (List.forall₂_same.mpr fun s hs => objectView?_of_isObject (hobject s hs))
  have htags : l.mapM (Schema.tag? tag) = some (names.map .string) :=
    mapM_of_forall₂ (List.forall₂_map_right_iff.mpr (h.flip.imp fun _ _ hs => hs.tag))
  -- the alternatives are objects where they stand, so there are no ids to map the names to
  have hmapping : Schema.mapping? l (names.map .string) = none := by
    rw [Schema.mapping?, List.filterMap_eq_nil_iff.mpr]
    · exact if_neg fun h => hl (List.length_eq_zero_iff.mp h.symm)
    · rintro ⟨a, tag⟩ hmem
      simp only [Schema.refId?_of_isObject (hobject a (List.of_mem_zip hmem).1), Option.map_none]
  cases h with
  | nil => exact absurd rfl hl
  | @cons name first names rest hfirst _ =>
    obtain ⟨properties, hproperties⟩ : ∃ properties, first.keywords.properties = some properties := by
      have := hfirst.isObject
      rw [Schema.isObject, Bool.and_eq_true, Option.isSome_iff_exists] at this
      exact this.2
    have hhead := hfirst.first
    rw [hproperties] at hhead
    obtain ⟨others, hothers⟩ : ∃ others, Table.names properties = tag :: others := List.head?_eq_some_iff.mp hhead
    have htag : ((first :: rest).mapM (Schema.tag? tag)).bind (fun tags => if Schema.allDifferent tags then
        some (⟨tag, Schema.mapping? (first :: rest) tags⟩ : Discriminator) else none) = some ⟨tag, none⟩ := by
      rw [htags, Option.bind_some, if_pos (allDifferent_of_nodup hnames), hmapping]
    simp only [discriminator?, hviews, hproperties, hothers, Option.bind_eq_bind, Option.bind_some, List.head?_cons,
      List.findSome?_cons, htag]

/-- A union of several such objects keeps them all and gets the tag as its discriminator. -/
theorem oneOf_tagged (h : List.Forall₂ (Schema.Holds tag) names l) (htidy : ∀ s ∈ l, s.Tidy) (hnames : names.Nodup)
    (hseveral : 2 ≤ names.length) :
    r.oneOf l = .mk { oneOf := some l, discriminator := some ⟨tag, none⟩ } := by
  have hlength : 2 ≤ l.length := h.length_eq ▸ hseveral
  have hshapes : l.Pairwise fun s t => s.canonical ≠ t.canonical := pairwise_of_forall₂ h hnames Schema.Holds.ne_shape
  -- equal fingerprints would be equal shapes, so no alternative is left out
  have hdistinct : distinctShapes [] l = l := by
    refine distinctShapes_of_nodup (List.pairwise_map.mpr (hshapes.imp_of_mem fun hs ht hne heq => hne ?_))
      fun _ _ => List.not_mem_nil
    exact Schema.canonical_eq_of_fingerprint (htidy _ hs).spelled (htidy _ ht).spelled heq
  rcases r.oneOf_cases l with ⟨s, hs, -⟩ | heq
  · rw [hdistinct] at hs
    rw [hs] at hlength
    cases hlength with
    | step hlength => cases hlength
  · rw [heq, hdistinct, discriminator?_tagged h hnames]
    rintro rfl
    cases hlength

end Registry

/-! ## What is resolved

A property whose type is a literal is resolved to that literal, whatever else there is to resolve. -/

/-- An object with a tag is resolved to one with the same tag. -/
theorem Runs.holds {p : Pending c} {scope : Table Schema} {origin : Location} {e : TypeExpr} {r r' : Resolver c}
    {s : Schema} {tag name : String} (h : Runs p (.node scope origin e) r (.ok s) r') (he : e.Holds tag name) :
    s.Holds tag name := by
  obtain ⟨rest, rfl, hnodup⟩ := he
  obtain ⟨l, hparts, rfl⟩ := h.of_built rfl rfl
  generalize hout : Except.ok (ε := Fault) l = out at hparts
  cases hparts with
  | cons hhead htail =>
    cases hout
    rename_i others
    -- the tag comes first, and a literal has no parts
    obtain ⟨_, -, rfl⟩ := hhead.of_built rfl rfl
    have hlength : (Table.names rest).length ≤ others.length := by
      rw [htail.length_eq, Table.names, List.length_map, List.length_map, List.length_map]
    have hnames : Table.names ((Table.names rest).zip others) = Table.names rest := List.map_fst_zip hlength
    exact Schema.holds_object (hnames.symm ▸ hnodup) _ _
  | _ => cases hout

/-- Objects with a tag that are resolved in a row keep their tags and their order. -/
theorem Runs.forall₂_holds {p : Pending c} {scope : Table Schema} {origin : Location} {tag : String} {names : List String}
    {es : List TypeExpr} (hes : List.Forall₂ (TypeExpr.Holds tag) names es) {r r' : Resolver c} {l : List Schema}
    (h : Runs p (.list scope origin es) r (.ok l) r') : List.Forall₂ (Schema.Holds tag) names l := by
  induction hes generalizing r l with
  | nil =>
    cases h
    exact .nil
  | cons he _ ih =>
    cases h with
    | cons hhead htail => exact .cons (hhead.holds he) (ih htail)

/-! ## What is written

Each kind of variant has its own object: nothing beside the tag, the fields beside the tag, or the payload as a property
`content`. In all of them the tag comes first. -/

namespace Source

/-- The names of the variants that are written. -/
def variantNames (o : WireOptions) (variants : List Variant) : List String := (keptVariants o.renameAll variants).map Prod.fst

/-- A variant that holds nothing, or fields that can stand beside the tag. -/
def Variant.FitsBeside (tag : String) (v : Variant) : Prop :=
  match v.fields with
  | .unit => True
  | .named fields => ∀ f ∈ keptFields fields, f.2.2.isFlattened = false ∧ f.2.2.nameOf none f.1 ≠ tag
  | .positional _ => False

instance (tag : String) : (v : Variant) → Decidable (v.FitsBeside tag)
  | ⟨_, _, .unit⟩ => isTrue trivial
  | ⟨_, _, .named fields⟩ =>
    inferInstanceAs (Decidable (∀ f ∈ keptFields fields, f.2.2.isFlattened = false ∧ f.2.2.nameOf none f.1 ≠ tag))
  | ⟨_, _, .positional _⟩ => isFalse id

/-- An enum with a tag that can tell its variants apart: several variants of different names are written, and if what
they hold has no property of its own (`content`), it can stand beside the tag. -/
structure Tagged (o : WireOptions) (variants : List Variant) (tag : String) : Prop where
  tag_eq : o.tag = some tag
  content_ne : o.content ≠ some tag
  several : 2 ≤ (variantNames o variants).length
  distinct : (variantNames o variants).Nodup
  fits : o.content = none → ∀ v ∈ keptVariants o.renameAll variants, v.2.FitsBeside tag

instance (o : WireOptions) (variants : List Variant) (tag : String) : Decidable (Tagged o variants tag) :=
  decidable_of_iff (o.tag = some tag ∧ o.content ≠ some tag ∧ 2 ≤ (variantNames o variants).length ∧
      (variantNames o variants).Nodup ∧ (o.content = none → ∀ v ∈ keptVariants o.renameAll variants, v.2.FitsBeside tag))
    ⟨fun h => ⟨h.1, h.2.1, h.2.2.1, h.2.2.2.1, h.2.2.2.2⟩,
      fun h => ⟨h.tag_eq, h.content_ne, h.several, h.distinct, h.fits⟩⟩

/-- Fields that can stand beside a tag are written as an object without it. -/
theorem Variant.FitsBeside.payload?_cases {tag : String} {v : Variant} (h : v.FitsBeside tag) (params : List String) :
    v.payload? params = none ∨ ∃ entries : List (String × Member TypeExpr), tag ∉ entries.map Prod.fst ∧
      v.payload? params = some (.object (Table.ofEntries entries) false) := by
  obtain ⟨name, attributes, fields⟩ := v
  cases fields with
  | unit => exact Or.inl rfl
  | named fields =>
    have hkept : ∀ f ∈ keptFields fields, f.2.2.isFlattened = false ∧ f.2.2.nameOf none f.1 ≠ tag := h
    have hown : (keptFields fields).filter (fun f => !f.2.2.isFlattened) = keptFields fields :=
      List.filter_eq_self.mpr fun f hf => congrArg not (hkept f hf).1
    have hflattened : (keptFields fields).filter (fun f => f.2.2.isFlattened) = [] :=
      List.filter_eq_nil_iff.mpr fun f hf => Bool.eq_false_iff.mp (hkept f hf).1
    refine Or.inr ⟨(keptFields fields).map fun f => (f.2.2.nameOf none f.1, f.2.1.type.toMember params f.2.2.isDefaulted),
      fun hmem => ?_, ?_⟩
    · obtain ⟨_, hentry, heq⟩ := List.mem_map.mp hmem
      obtain ⟨f, hf, rfl⟩ := List.mem_map.mp hentry
      exact (hkept f hf).2 heq
    · show some (namedFieldsType params none false fields) = _
      rw [namedFieldsType]
      simp only [hown, hflattened, List.isEmpty_nil, if_true]
  | positional fields => exact h.elim

/-- A variant is written as an object that holds the variant's name. -/
theorem holds_taggedVariant {tag name : String} {content : Option String} (hcontent : content ≠ some tag) {v : Variant}
    (hfits : content = none → v.FitsBeside tag) (params : List String) :
    (taggedVariant tag content name (v.payload? params)).Holds tag name := by
  have hbeside {rest : Table (Member TypeExpr)} (hnew : tag ∉ rest.names) (hnodup : rest.names.Nodup) :
      (TypeExpr.object ((tag, ⟨.literal (.string name), true⟩) :: rest) false).Holds tag name :=
    ⟨rest, rfl, List.nodup_cons.mpr ⟨hnew, hnodup⟩⟩
  rcases content with _ | key
  · rcases (hfits rfl).payload?_cases params with hnone | ⟨entries, hnew, hsome⟩
    · rw [hnone]
      exact hbeside List.not_mem_nil .nil
    · have hnew : tag ∉ (Table.ofEntries entries).names := mt Table.mem_names_ofEntries.mp hnew
      rw [hsome, taggedVariant, Table.foldl_insert_cons _ _ hnew]
      exact hbeside (mt Table.mem_names_ofEntries.mp hnew) (Table.nodup_ofEntries _)
  · have hkey : tag ≠ key := fun heq => hcontent (congrArg some heq.symm)
    rcases v.payload? params with _ | payload
    · exact hbeside List.not_mem_nil .nil
    · rw [taggedVariant, Table.insert, if_neg hkey]
      exact hbeside (mt List.mem_singleton.mp hkey) (List.nodup_singleton _)

/-- A tagged enum is a union of objects which hold the names of the variants. -/
theorem Tagged.enumType_eq {o : WireOptions} {variants : List Variant} {tag : String} (h : Tagged o variants tag)
    (huntagged : o.isUntagged = false) (params : List String) : ∃ es, enumType params o variants = .union es ∧
      List.Forall₂ (TypeExpr.Holds tag) (variantNames o variants) es := by
  refine ⟨(keptVariants o.renameAll variants).map fun v => variantType o v.1 (v.2.payload? params), ?_, ?_⟩
  · have htag : o.tag.isNone = false := congrArg Option.isNone h.tag_eq
    rw [enumType, htag, Bool.and_false, Bool.false_and]
    rfl
  · refine List.forall₂_map_left_iff.mpr (List.forall₂_map_right_iff.mpr (List.forall₂_same.mpr fun v hv => ?_))
    rw [variantType.eq_def, huntagged, h.tag_eq]
    exact holds_taggedVariant h.content_ne (fun hnone => h.fits hnone v hv) params

end Source

/-! ## What is registered

The enum's own declaration is met by any of its fields, while it is pending or after it has been filled. Its entry is
the union of the variants in either case. -/

/-- A union of objects with a tag is the union of their schemas. -/
theorem TypeExpr.form_union_of_holds {tag : String} {names : List String} {es : List TypeExpr}
    (h : List.Forall₂ (TypeExpr.Holds tag) names es) (hne : es ≠ []) :
    (TypeExpr.union es).form = .built es fun registry schemas => registry.oneOf schemas := by
  have hobject : ∀ e ∈ es, ∃ properties, e = .object properties false := by
    refine forall_of_forall₂ h fun he => ?_
    obtain ⟨rest, rfl, -⟩ := he
    exact ⟨_, rfl⟩
  have hflatten : flatten es = es := by
    refine flatten_eq_self fun e he => ?_
    obtain ⟨properties, rfl⟩ := hobject e he
    exact nofun
  have hproper : proper es = es := by
    rw [proper, hflatten]
    refine List.filter_eq_self.mpr fun e he => ?_
    obtain ⟨properties, rfl⟩ := hobject e he
    rfl
  have hnull : (flatten es).any isNullLike = false := by
    rw [hflatten]
    refine List.any_eq_false.mpr fun e he => ?_
    obtain ⟨properties, rfl⟩ := hobject e he
    exact Bool.false_ne_true
  have hliterals : commonLiterals? es = none := by
    obtain ⟨e, rest, rfl⟩ := List.exists_cons_of_ne_nil hne
    obtain ⟨properties, rfl⟩ := hobject e List.mem_cons_self
    rfl
  rw [form, hproper, if_neg (by simpa using hne), hliterals]
  simp only [orNullOf, hnull, Bool.false_eq_true, if_false]

/-- A body that is a union of objects with a tag is resolved to a `oneOf` with a discriminator. -/
theorem Catalog.ResolvesTo.discriminatesBy {i : Fin c.size} {s : Schema} (h : c.ResolvesTo i s) {tag : String}
    {names : List String} {es : List TypeExpr} (hbody : (c.get i).body = .union es)
    (hes : List.Forall₂ (TypeExpr.Holds tag) names es) (hnames : names.Nodup) (hseveral : 2 ≤ names.length) :
    ∃ alternatives, List.Forall₂ (Schema.Holds tag) names alternatives ∧
      s = .mk { oneOf := some alternatives, discriminator := some ⟨tag, none⟩ } := by
  obtain ⟨p, r, args, r', hm, hrun⟩ := h
  have hne : es ≠ [] := by
    rintro rfl
    rw [hes.length_eq] at hseveral
    cases hseveral
  obtain ⟨alternatives, hparts, rfl⟩ := hrun.of_built rfl (hbody ▸ TypeExpr.form_union_of_holds hes hne)
  have htidy := (hparts.tidy rfl hm.resolver.sound hm.resolver.registered hm.inputs).2
  have hholds := hparts.forall₂_holds hes
  exact ⟨alternatives, hholds, Registry.oneOf_tagged hholds htidy hnames hseveral⟩

section Enum

variable {i : Fin c.size} {path : Path} {head : Source.TypeHead} {variants : List Source.Variant} {tag : String}

/-- What is kept for the declaration of a tagged enum is a discriminated union. -/
theorem Resolver.Keeps.discriminatesBy {r : Resolver c} (h : r.Keeps i)
    (hdeclared : (Source.Item.enumItem head variants).declarations path = [c.get i])
    (htagged : Source.Tagged (WireOptions.ofAttributes head.attributes) variants tag)
    (huntagged : (WireOptions.ofAttributes head.attributes).isUntagged = false) {args : List String} {id : String}
    (hid : r.id? ⟨i, args⟩ = some id) : ∃ schema, r.registry.get? id = some schema ∧
      schema.DiscriminatesBy tag (Source.variantNames (WireOptions.ofAttributes head.attributes) variants) := by
  have hbody : (c.get i).body = Source.enumType head.typeParams (WireOptions.ofAttributes head.attributes) variants := by
    rw [← List.singleton_inj.mp hdeclared]
    rfl
  obtain ⟨es, heq, hes⟩ := htagged.enumType_eq huntagged head.typeParams
  obtain ⟨s, t, hs, ht, hshape⟩ := h args id hid
  obtain ⟨alternatives, hholds, rfl⟩ := hs.discriminatesBy (hbody.trans heq) hes htagged.distinct htagged.several
  exact ⟨t, ht, Schema.discriminatesBy_of_shape hholds hshape⟩

/-- **Tagged enums are discriminated unions.** Of an enum with a `tag`, which is not `untagged` as well, let several
variants be written under different names, with what they hold under `content`, or as fields beside the tag. After any
calls, whatever they answered, unless one of them refused the schema of the enum: every id that the enum is known by is
registered as a `oneOf` with one object for each variant that is written, in order, and the tag as its discriminator, which
holds just the name of the variant. And a call that resolves the enum answers with a `$ref` to such a schema. -/
theorem tagged_enum_discriminated (hdeclared : (Source.Item.enumItem head variants).declarations path = [c.get i])
    (htagged : Source.Tagged (WireOptions.ofAttributes head.attributes) variants tag)
    (huntagged : (WireOptions.ofAttributes head.attributes).isUntagged = false) {calls : List (TypeExpr × Location)}
    (haccepts : ∀ m, ({} : Resolver c).Passes calls m → ∀ args fault, ¬m.Refused i args fault) :
    (∀ args id, (({} : Resolver c).after calls).id? ⟨i, args⟩ = some id →
      ∃ schema, (({} : Resolver c).after calls).registry.get? id = some schema ∧
        schema.DiscriminatesBy tag (Source.variantNames (WireOptions.ofAttributes head.attributes) variants)) ∧
    ∀ e name args origin s r', e.form = .named name args → c.applied name args.length origin = .ok i →
      (resolve e origin).run (({} : Resolver c).after calls) = (.ok s, r') →
      ∃ id schema, s = .reference id ∧ r'.registry.get? id = some schema ∧
        schema.DiscriminatesBy tag (Source.variantNames (WireOptions.ofAttributes head.attributes) variants) := by
  have hfresh : ({} : Resolver c).Called fun _ _ _ => True := .fresh
  have hcalled := hfresh.after calls
  have hkeeps := hfresh.keeps_after (Resolver.keeps_fresh i) haccepts
  refine ⟨fun args id hid => hkeeps.discriminatesBy hdeclared htagged huntagged hid, ?_⟩
  intro e name args origin s r' he hi hresolve
  have hrun : Runs {} (.node [] origin e) _ (.ok s) r' := runs_iff.mpr hresolve
  -- nothing is refused in a call that succeeds, so the enum is registered in its shape after this one too
  have hkeeps' := hcalled.keeps hkeeps hrun (hrun.accepts hcalled.recorded i)
  obtain ⟨l, q, -, hname⟩ := hrun.of_named rfl he (fun _ => rfl) hi
  obtain ⟨id, rfl, hpending | hid⟩ := hname.exists_id rfl
  · cases hpending
  · obtain ⟨schema, hschema, hdiscriminates⟩ := hkeeps'.discriminatesBy hdeclared htagged huntagged hid
    exact ⟨id, schema, rfl, hschema, hdiscriminates⟩

end Enum

/-- An attribute `serde` with tokens in parentheses. -/
def Source.serdeAttribute (tokens : List Source.Token) : Source.Attribute :=
  ⟨some "serde", .list (tokens.map (.leaf .start))⟩

/-- A key, and a text behind `=`. -/
def Source.textEntry (key text : String) : List Source.Token := [.word key, .mark '=' false, .literal (.text text)]

/-! ### Terms

An enum whose variants hold the enum itself, so that it is pending while its variants are resolved. -/

/-- A term is zero, or what comes from another term. Its holes are not written. -/
def termHead : Source.TypeHead where
  name := "Term"
  place := ⟨3, 9⟩
  attributes := [
    Source.serdeAttribute (Source.textEntry "tag" "op" ++ [.mark ',' false] ++ Source.textEntry "rename_all" "lowercase")]
  typeParams := []

def termVariants : List Source.Variant := [
  ⟨"Zero", [], .unit⟩,
  ⟨"Negate", [], .named [("of", ⟨[], .path false [] "Box" [.path false [] "Term" []]⟩)]⟩,
  ⟨"Hole", [Source.serdeAttribute [.word "skip"]], .positional []⟩]

def termCatalog : Catalog where
  declarations := (Source.Item.enumItem termHead termVariants).declarations ⟨"term.rs"⟩

/-- Terms are told apart by `op`, the second time as well, and after a call that has failed. -/
theorem tagged_enum_discriminated_term : ∃ s r',
    (resolve (.reference "Term") ⟨⟨"term.rs"⟩, 20, 0⟩).run (({} : Resolver termCatalog).after
      [(.reference "Factor", ⟨⟨"term.rs"⟩, 10, 0⟩), (.reference "Term", ⟨⟨"term.rs"⟩, 10, 0⟩)]) = (.ok s, r') ∧
    ∃ id schema, s = .reference id ∧ r'.registry.get? id = some schema ∧ schema.DiscriminatesBy "op" ["zero", "negate"] := by
  have hunshared : termCatalog.Unshared := by
    intro i j id hinsists
    have hnone : ∀ i, (termCatalog.get i).externalId = none := by decide +kernel
    rw [Declaration.InsistsOn, hnone i] at hinsists
    cases hinsists.1
  have hnames : Source.variantNames (WireOptions.ofAttributes termHead.attributes) termVariants = ["zero", "negate"] := by
    decide +kernel
  have hok : ((resolve (.reference "Term") ⟨⟨"term.rs"⟩, 20, 0⟩).run (({} : Resolver termCatalog).after
      [(.reference "Factor", ⟨⟨"term.rs"⟩, 10, 0⟩), (.reference "Term", ⟨⟨"term.rs"⟩, 10, 0⟩)])).1.isOk = true := by
    rw [Resolver.after, Resolver.after, Resolver.after, resolve_eq_within, resolve_eq_within, resolve_eq_within]
    decide +kernel
  rcases h : (resolve (.reference "Term") ⟨⟨"term.rs"⟩, 20, 0⟩).run (({} : Resolver termCatalog).after
      [(.reference "Factor", ⟨⟨"term.rs"⟩, 10, 0⟩), (.reference "Term", ⟨⟨"term.rs"⟩, 10, 0⟩)]) with ⟨fault | s, r'⟩
  · rw [h] at hok
    cases hok
  · refine ⟨s, r', rfl, ?_⟩
    rw [← hnames]
    exact (tagged_enum_discriminated (i := ⟨0, by decide +kernel⟩) rfl (by decide +kernel) (by decide +kernel)
      fun m hm => hunshared.not_refused hm _).2 (.reference "Term") "Term" [] _ s r' rfl (by decide +kernel) h

/-! ### Figures

A tag that is asked for along with `untagged` is not written, and the union has no discriminator. -/

/-- A figure is a circle or a square. It has a tag, and is to be written without it. -/
def figureHead : Source.TypeHead where
  name := "Figure"
  place := ⟨3, 9⟩
  attributes := [
    Source.serdeAttribute (Source.textEntry "tag" "kind" ++ [.mark ',' false, .word "untagged"])]
  typeParams := []

def figureVariants : List Source.Variant := [
  ⟨"Circle", [], .named [("radius", ⟨[], .path false [] "f64" []⟩)]⟩,
  ⟨"Square", [], .named [("side", ⟨[], .path false [] "f64" []⟩)]⟩]

def figureCatalog : Catalog where
  declarations := (Source.Item.enumItem figureHead figureVariants).declarations ⟨"figure.rs"⟩

/-- Figures are not told apart: what is registered for them has no discriminator, by a tag or by anything else. -/
theorem untagged_enum_not_discriminated :
    (Source.Item.enumItem figureHead figureVariants).declarations ⟨"figure.rs"⟩ = [figureCatalog.get ⟨0, by decide⟩] ∧
    Source.Tagged (WireOptions.ofAttributes figureHead.attributes) figureVariants "kind" ∧
    ∃ s r' id schema, (resolve (.reference "Figure") ⟨⟨"figure.rs"⟩, 9, 0⟩).run ({} : Resolver figureCatalog) = (.ok s, r') ∧
      s = .reference id ∧ r'.registry.get? id = some schema ∧ schema.keywords.discriminator = none ∧
        ¬schema.DiscriminatesBy "kind"
          (Source.variantNames (WireOptions.ofAttributes figureHead.attributes) figureVariants) := by
  refine ⟨rfl, by decide +kernel, ?_⟩
  have hplain : (match (resolve (.reference "Figure") ⟨⟨"figure.rs"⟩, 9, 0⟩).run ({} : Resolver figureCatalog) with
      | (.ok s, r') => (s.refId?.bind r'.registry.get?).any fun t => t.keywords.discriminator.isNone
      | (.error _, _) => false) = true := by
    rw [resolve_eq_within]
    decide +kernel
  rcases h : (resolve (.reference "Figure") ⟨⟨"figure.rs"⟩, 9, 0⟩).run ({} : Resolver figureCatalog) with ⟨fault | s, r'⟩
  · rw [h] at hplain
    cases hplain
  · rw [h] at hplain
    obtain ⟨schema, hschema, hnone⟩ := (Option.any_eq_true _ _).mp hplain
    obtain ⟨id, hid, hget⟩ := Option.bind_eq_some_iff.mp hschema
    refine ⟨s, r', id, schema, rfl, Schema.eq_reference_of_refId? hid, hget, Option.isNone_iff_eq_none.mp hnone, ?_⟩
    rintro ⟨alternatives, rfl, -⟩
    cases hnone

end RouteManifest
