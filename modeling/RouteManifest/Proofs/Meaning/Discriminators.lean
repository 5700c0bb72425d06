import RouteManifest.Proofs.Lists
import RouteManifest.Proofs.Meaning.Merging

/-!
# Discriminators

A discriminator says of a union which property of a value to look at. `Registry.TellsApart` is what was found out when
the discriminator was made: the property has a single literal in each alternative, and these tags are all different. It
is said of every discriminator in every schema at all times (`inherited_discriminated`), since an object that was seen
stays in sight.

A value of an alternative then has the tag of the alternative at that property, or null if the property is nullable
there, which a single literal does not exclude.
-/

namespace RouteManifest

namespace Registry

variable {r : Registry}

/-- Each alternative has a tag, the single literal of a required property of the object that is seen in it, and the
tags are all different. -/
structure TellsApart (r : Registry) (d : Discriminator) (alternatives : List Schema) (tags : List Json) : Prop where
  tagged : List.Forall₂ (fun a tag => ∃ object, r.objectView? a = some object ∧
    Schema.tag? d.propertyName object = some tag) alternatives tags
  different : Schema.allDifferent tags = true
  mapping : d.mapping = Schema.mapping? alternatives tags

/-- A discriminator that was found tells the alternatives apart by some tags. -/
theorem exists_tellsApart {alternatives : List Schema} {d : Discriminator}
    (h : r.discriminator? alternatives = some d) : ∃ tags, r.TellsApart d alternatives tags := by
  rw [discriminator?] at h
  simp only [Option.bind_eq_bind, Option.bind_eq_some_iff] at h
  obtain ⟨objects, hobjects, first, -, properties, -, h⟩ := h
  obtain ⟨property, -, h⟩ := List.exists_of_findSome?_eq_some h
  simp only [Option.bind_eq_some_iff] at h
  obtain ⟨tags, htags, h⟩ := h
  split at h
  next hdifferent =>
    cases h
    exact ⟨tags, forall₂_comp (forall₂_of_mapM hobjects) (forall₂_of_mapM htags), hdifferent, rfl⟩
  · cases h

/-- Alternatives go on being told apart when more is registered, since what was seen stays as it is. -/
theorem TellsApart.moves {r' : Registry} {d : Discriminator} {alternatives : List Schema} {tags : List Json}
    (h : r.TellsApart d alternatives tags) (hmoves : Registry.Moves r r') : r'.TellsApart d alternatives tags where
  tagged := h.tagged.imp fun _ _ ⟨object, hview, htag⟩ => ⟨object, objectView?_of_moves hmoves hview, htag⟩
  different := h.different
  mapping := h.mapping

end Registry

/-! ## At all times

`Every` node with a discriminator tells its alternatives apart in the registry as it is now, and as it will be. What is
built gets a discriminator in one place, the union of several alternatives. -/

/-- A discriminator tells the alternatives of its node apart. -/
def Keywords.Discriminated (r : Registry) (k : Keywords Schema) : Prop :=
  ∀ d, k.discriminator = some d → ∃ alternatives tags, k.oneOf = some alternatives ∧ r.TellsApart d alternatives tags

namespace Schema

/-- Every discriminator in a schema tells alternatives apart. -/
abbrev Discriminated (r : Registry) : Schema → Prop := Every (Keywords.Discriminated r)

variable {r : Registry}

theorem discriminated_of_children {k : Keywords Schema} (hnone : k.discriminator = none)
    (hchildren : ∀ s ∈ k.children, s.Discriminated r) : (Schema.mk k).Discriminated r := by
  refine .mk (fun d hd => ?_) hchildren
  rw [hnone] at hd
  cases hd

theorem discriminated_object {properties : Table Schema} (h : ∀ s ∈ properties.values, s.Discriminated r)
    (required : List String) (closed : Bool) : (object properties required closed).Discriminated r := by
  refine discriminated_of_children rfl fun s hs => h s ?_
  cases closed <;> simpa [Keywords.children, Additional.children] using hs

theorem discriminated_ofLiterals (literals : List Literal) : (ofLiterals literals).Discriminated r :=
  discriminated_of_children rfl fun _ hs => by cases hs

/-- Allowing null puts a flag on a union or an object, or a union without a discriminator around it. -/
theorem Discriminated.orNull {s : Schema} (hs : s.Discriminated r) : s.orNull.Discriminated r := by
  obtain ⟨k⟩ := s
  rw [Schema.orNull]
  split
  · refine discriminated_of_children rfl fun t ht => ?_
    obtain rfl := List.mem_singleton.mp ht
    exact hs
  · exact .mk hs.node fun t ht => hs.of_mem_children ht

end Schema

namespace Registry

variable {r : Registry}

/-- A union gets a discriminator only if its alternatives are told apart. -/
theorem discriminated_oneOf {alternatives : List Schema} (h : ∀ s ∈ alternatives, s.Discriminated r) :
    (r.oneOf alternatives).Discriminated r := by
  have hdistinct : ∀ s ∈ distinctShapes [] alternatives, s.Discriminated r :=
    fun s hs => h s (mem_of_mem_distinctShapes hs)
  rcases r.oneOf_cases alternatives with ⟨s, hs, heq⟩ | heq
  · rw [heq]
    exact hdistinct s (by rw [hs]; exact List.mem_cons_self)
  · rw [heq]
    refine .mk (fun d hd => ?_) fun s hs => hdistinct s (by simpa [Keywords.children] using hs)
    obtain ⟨tags, htags⟩ := exists_tellsApart hd
    exact ⟨_, tags, rfl, htags⟩

end Registry

/-- What is built from discriminated schemas is discriminated. -/
theorem TypeExpr.discriminated_build {r : Registry} (hr : ∀ id s, r.get? id = some s → s.Discriminated r) {e : TypeExpr}
    {parts : List TypeExpr} {build : Registry → List Schema → Schema} (h : e.form = .built parts build) {l : List Schema}
    (hl : ∀ s ∈ l, s.Discriminated r) : (build r l).Discriminated r := by
  refine PassedOn.build (Q := Schema.Discriminated r) ?_ h
  constructor
  case parts => exact hl
  case seen =>
    intro s hs object hview t ht
    obtain ⟨-, ⟨-, rfl⟩ | ⟨id, -, hget⟩⟩ := Registry.objectView?_eq_some.mp hview
    · exact (hl s hs).of_mem_properties ht
    · exact (hr id object hget).of_mem_properties ht
  case node => exact fun k _ _ hnone _ => Schema.discriminated_of_children hnone
  case object => exact fun _ required closed h => Schema.discriminated_object h required closed
  case ofLiterals => exact Schema.discriminated_ofLiterals
  case orNull => exact fun _ => Schema.Discriminated.orNull
  case oneOf => exact Registry.discriminated_oneOf hl

/-- Whatever else comes to be registered, a discriminator goes on telling its alternatives apart. -/
theorem inherited_discriminated : Inherited fun r s => s.Discriminated r where
  moves := fun hmoves hs => hs.imp fun _ hk d hd => by
    obtain ⟨alternatives, tags, honeOf, htells⟩ := hk d hd
    exact ⟨alternatives, tags, honeOf, htells.moves hmoves⟩
  reference := Schema.discriminated_of_children rfl fun _ hs => by cases hs
  build := fun hr he hl => TypeExpr.discriminated_build hr he hl

/-! ## Values of the alternatives

The alternatives require the property and their literals differ. An enumeration of one literal that is nullable has the
literal and null for its values, which is why null comes in. -/

/-- The object that is seen in a schema has a nullable property of a name. -/
def Registry.NullableAt (r : Registry) (a : Schema) (property : String) : Prop :=
  ∃ object s, r.objectView? a = some object ∧ Table.find? (object.keywords.properties.getD []) property = some s ∧
    s.isNullable = true

namespace Schema

variable {r : Registry}

/-- A value of a single literal is that literal, or null where null is allowed. -/
theorem eq_or_null_of_singleLiteral? {s : Schema} {tag w : Json} (hs : s.singleLiteral? = some tag)
    (hw : Validates r s w) : w = tag ∨ w = .null ∧ s.isNullable = true := by
  rw [singleLiteral?] at hs
  split at hs
  next henumeration =>
    cases hs
    rcases validates_iff.mp hw with ⟨hnull, rfl⟩ | hmet
    · exact Or.inr ⟨rfl, by rw [isNullable, hnull]; rfl⟩
    · exact Or.inl (List.mem_singleton.mp (hmet.enumeration _ henumeration))
  · cases hs

/-- Values that do not look the same are different. -/
theorem ne_of_not_same {v w : Json} (h : (!v.same w) = true) : v ≠ w := by
  rintro rfl
  simp [Json.same] at h

/-- Tags that are all different are not repeated. -/
theorem nodup_of_allDifferent {l : List Json} (h : allDifferent l = true) : l.Nodup := by
  induction l with
  | nil => exact List.nodup_nil
  | cons v rest ih =>
    rw [allDifferent, Bool.and_eq_true, List.all_eq_true] at h
    exact List.nodup_cons.mpr ⟨fun hmem => ne_of_not_same (h.1 v hmem) rfl, ih h.2⟩

/-- A mapping has an entry for each alternative, in order, and no key twice. -/
theorem mapping?_eq_some {alternatives : List Schema} {tags : List Json} {mapping : Table String}
    (h : mapping? alternatives tags = some mapping) (hlength : alternatives.length = tags.length) :
    mapping.names.Nodup ∧ List.Forall₂ (fun p entry => p.1.refId? = some entry.2 ∧ entry.1 = literalKey p.2)
      (alternatives.zip tags) mapping := by
  simp only [mapping?, Option.ite_none_right_eq_some, Option.some.injEq] at h
  obtain ⟨htable, rfl⟩ := h
  refine ⟨Table.nodup_ofEntries _, ?_⟩
  have hzip : (alternatives.zip tags).length = alternatives.length := by simp [hlength]
  have hle := Table.length_ofEntries_le
    ((alternatives.zip tags).filterMap fun p => p.1.refId?.map fun id => (literalKey p.2, id))
  rw [htable, ← hzip] at hle
  rw [Table.ofEntries_of_length_le (by rw [htable, ← hzip]; exact List.length_filterMap_le _ _)]
  refine (forall₂_of_filterMap hle).imp fun p entry hentry => ?_
  obtain ⟨id, hid, rfl⟩ := Option.map_eq_some_iff.mp hentry
  exact ⟨hid, rfl⟩

end Schema

namespace Registry.TellsApart

variable {r : Registry} {d : Discriminator} {alternatives : List Schema} {tags : List Json}

/-- An object that an alternative admits has the tag of the alternative, or null where that is nullable. -/
theorem tag_of_validates (h : r.TellsApart d alternatives tags) :
    List.Forall₂ (fun a tag => ∀ members, Validates r a (.object members) →
      ∃ w, Table.find? members d.propertyName = some w ∧ (w = tag ∨ w = .null ∧ r.NullableAt a d.propertyName))
      alternatives tags :=
  h.tagged.imp fun a tag ⟨object, hview, htag⟩ members hv => by
    rw [Schema.tag?] at htag
    split at htag
    next hrequired =>
      obtain ⟨s, hs, hliteral⟩ := Option.bind_eq_some_iff.mp htag
      rcases validates_iff.mp ((validates_objectView? hview).mp hv) with ⟨-, hnull⟩ | hmet
      · cases hnull
      · have hmem := hmet.required members rfl _ (List.contains_iff_mem.mp hrequired)
        obtain ⟨w, hw⟩ := Option.isSome_iff_exists.mp (Table.contains_iff.mpr hmem)
        have hvalidates := hmet.properties members rfl _ (Table.mem_of_find? hs) _ (Table.mem_of_find? hw) rfl
        refine ⟨w, hw, (Schema.eq_or_null_of_singleLiteral? hliteral hvalidates).imp_right ?_⟩
        exact And.imp_right fun hnullable => ⟨object, s, hview, hs, hnullable⟩
    · cases htag

/-- An object that two alternatives admit has null in the place of the tag, and one of them is nullable there. -/
theorem null_of_validates (h : r.TellsApart d alternatives tags) (members : Table Json) :
    alternatives.Pairwise fun a b => Validates r a (.object members) → Validates r b (.object members) →
      Table.find? members d.propertyName = some .null ∧
        (r.NullableAt a d.propertyName ∨ r.NullableAt b d.propertyName) := by
  refine pairwise_of_forall₂ h.tag_of_validates.flip (Schema.nodup_of_allDifferent h.different)
    fun ha hb hne hva hvb => ?_
  obtain ⟨w, hw, hwa⟩ := ha members hva
  obtain ⟨w', hw', hwb⟩ := hb members hvb
  obtain rfl : w = w' := Option.some.inj (hw.symm.trans hw')
  rcases hwa with rfl | ⟨rfl, hnullable⟩
  · rcases hwb with rfl | ⟨rfl, hnullable⟩
    · exact absurd rfl hne
    · exact ⟨hw, Or.inr hnullable⟩
  · exact ⟨hw, Or.inl hnullable⟩

end Registry.TellsApart

variable {c : Catalog}

/-! ## Unions with a discriminator

What has been said of tags, for the schema of a union at any moment of any call. -/

/-- A union whose schema has a discriminator, at any moment of any call of a resolver that was called in any way before.
Each alternative has a tag, all different, and an object that it admits has the tag at the property of the discriminator
or, if the alternative is nullable there, null. So an object that two alternatives admit has null there. A mapping has
exactly one key for each alternative, the text of its tag, and sends it to the id of the alternative. -/
theorem discriminator_tells_apart {r : Resolver c} (hr : r.Called fun _ _ _ => True) {e : TypeExpr} {origin : Location}
    {p : Pending c} {scope : Table Schema} {location : Location} {variants : List TypeExpr} {r₁ : Resolver c}
    (hm : (Moment.call e origin r).Within ⟨p, .node scope location (.union variants), r₁⟩)
    {s : Schema} {r' : Resolver c} (hrun : Runs p (.node scope location (.union variants)) r₁ (.ok s) r')
    {d : Discriminator} (hd : s.keywords.discriminator = some d) :
    ∃ alternatives tags, s.keywords.oneOf = some alternatives ∧ tags.Nodup ∧
      List.Forall₂ (fun a tag => ∀ members, Validates r'.registry a (.object members) →
        ∃ w, Table.find? members d.propertyName = some w ∧
          (w = tag ∨ w = .null ∧ r'.registry.NullableAt a d.propertyName)) alternatives tags ∧
      (∀ members, alternatives.Pairwise fun a b =>
        Validates r'.registry a (.object members) → Validates r'.registry b (.object members) →
          Table.find? members d.propertyName = some .null ∧
            (r'.registry.NullableAt a d.propertyName ∨ r'.registry.NullableAt b d.propertyName)) ∧
      ∀ mapping, d.mapping = some mapping → mapping.names.Nodup ∧
        List.Forall₂ (fun p entry => p.1.refId? = some entry.2 ∧ entry.1 = Schema.literalKey p.2)
          (alternatives.zip tags) mapping := by
  have hall := inherited_discriminated.within hr hm
  obtain ⟨-, houtputs⟩ := hrun.inherits inherited_discriminated hall.resolver hall.inputs
  have hnode : s.keywords.Discriminated r'.registry := by
    obtain ⟨k⟩ := s
    exact (houtputs _ rfl _ (List.mem_singleton.mpr rfl)).node
  obtain ⟨alternatives, tags, honeOf, htells⟩ := hnode d hd
  refine ⟨alternatives, tags, honeOf, Schema.nodup_of_allDifferent htells.different, htells.tag_of_validates,
    htells.null_of_validates, fun mapping hmapping => ?_⟩
  exact Schema.mapping?_eq_some (htells.mapping.symm.trans hmapping) htells.tagged.length_eq

/-- A payment whose kind may be null. -/
def paymentType (kind : String) : TypeExpr :=
  .object [("kind", ⟨.union [.literal (.string kind), .literal .null], true⟩)] false

def paymentSchema (kind : String) : Schema :=
  .object [("kind", (Schema.ofLiterals [.string kind]).orNull)] ["kind"] false

/-- The kind of a payment is built as an enumeration of one literal, with null allowed. -/
theorem form_paymentKind (kind : String) : (TypeExpr.union [.literal (.string kind), .literal .null]).form =
    .built [] fun _ _ => (Schema.ofLiterals [.string kind]).orNull := by
  simp [TypeExpr.form, TypeExpr.proper, TypeExpr.flatten, TypeExpr.isNullLike, TypeExpr.commonLiterals?,
    TypeExpr.literals?, TypeExpr.orNullOf, Schema.commonType?, List.eraseDups_cons]

/-- Payments of two kinds are built as a union. -/
theorem form_payments (kind kind' : String) : (TypeExpr.union [paymentType kind, paymentType kind']).form =
    .built [paymentType kind, paymentType kind'] Registry.oneOf := by
  simp [TypeExpr.form, TypeExpr.proper, TypeExpr.flatten, TypeExpr.isNullLike, TypeExpr.commonLiterals?,
    TypeExpr.literals?, TypeExpr.orNullOf, paymentType]

/-- Payments by card and in cash have a discriminator, and a payment of no kind is admitted as both. -/
theorem discriminator_tells_apart_payment : ∃ (s : Schema) (r' : Resolver {}),
    Runs {} (.node [] ⟨⟨"payment.rs"⟩, 1, 0⟩ (.union [paymentType "card", paymentType "cash"])) {} (.ok s) r' ∧
      s.keywords.discriminator = some ⟨"kind", none⟩ ∧ ∃ alternatives, s.keywords.oneOf = some alternatives ∧
        (∀ members, alternatives.Pairwise fun a b =>
          Validates r'.registry a (.object members) → Validates r'.registry b (.object members) →
            Table.find? members "kind" = some .null ∧
              (r'.registry.NullableAt a "kind" ∨ r'.registry.NullableAt b "kind")) ∧
        ∃ members, ∀ a ∈ alternatives, Validates r'.registry a (.object members) := by
  have hnode (kind : String) : Runs ({} : Pending {}) (.node [] ⟨⟨"payment.rs"⟩, 1, 0⟩ (paymentType kind)) {}
      (.ok (paymentSchema kind)) {} := by
    have hkind : Runs ({} : Pending {}) (.list [] ⟨⟨"payment.rs"⟩, 1, 0⟩
        [.union [.literal (.string kind), .literal .null]]) {} (.ok [(Schema.ofLiterals [.string kind]).orNull]) {} :=
      .cons (.built (form_paymentKind kind) .nil) .nil
    have hform : (paymentType kind).form = .built [.union [.literal (.string kind), .literal .null]]
        fun _ schemas => .object (["kind"].zip schemas) ["kind"] false := rfl
    exact .built hform hkind
  have hrun : Runs ({} : Pending {})
      (.node [] ⟨⟨"payment.rs"⟩, 1, 0⟩ (.union [paymentType "card", paymentType "cash"])) {}
      (.ok (({} : Registry).oneOf [paymentSchema "card", paymentSchema "cash"])) {} :=
    .built (form_payments _ _) (.cons (hnode _) (.cons (hnode _) .nil))
  have hd : (({} : Registry).oneOf [paymentSchema "card", paymentSchema "cash"]).keywords.discriminator =
      some ⟨"kind", none⟩ := by
    decide +kernel
  obtain ⟨alternatives, _, honeOf, -, -, hapart, -⟩ := discriminator_tells_apart .fresh .refl hrun hd
  refine ⟨_, {}, hrun, hd, alternatives, honeOf, hapart, [("kind", .null)], fun a ha => ?_⟩
  have hmem : a ∈ [paymentSchema "card", paymentSchema "cash"] := by
    rcases ({} : Registry).oneOf_cases [paymentSchema "card", paymentSchema "cash"] with ⟨s, hs, heq⟩ | heq
    · rw [heq] at hd
      have hmem := mem_of_mem_distinctShapes (by rw [hs]; exact List.mem_cons_self)
      obtain ⟨kind, -, rfl⟩ := (List.mem_map (f := paymentSchema) (l := ["card", "cash"])).mp hmem
      cases hd
    · rw [heq] at honeOf
      cases honeOf
      exact mem_of_mem_distinctShapes ha
  obtain ⟨kind, -, rfl⟩ := (List.mem_map (f := paymentSchema) (l := ["card", "cash"])).mp hmem
  rw [validates_iff, paymentSchema, Schema.admits_object]
  refine ⟨_, rfl, ?_, by simp [Table.names], nofun⟩
  simp [Schema.validates_orNull]

end RouteManifest
