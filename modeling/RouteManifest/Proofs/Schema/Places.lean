import Mathlib.Data.List.Forall2
import RouteManifest.Proofs.Schema.Renaming

/-!
# Where the ids of a schema stand

Two walks are about the ids in a schema: `Schema.refIds` lists them and `Schema.mapRefs` replaces them.
`Schema.Renamed` says without a walk what it is to replace them: an id stands in a `$ref` or is the target of a
mapping, at the top or in a subschema, and everything else stays what and where it is. Main statement: `mapRefs` does
this and nothing else, and it does so at the places that `refIds` lists, in their order.

A relation between the parts of two schemas that is the graph of a function goes with the graph of the function on
lists, tables and options of parts, so that the relation is settled node by node.
-/

namespace RouteManifest

/-! ## Relations on parts

One lemma for each kind of container, all of one form: a relation that is the graph of a function on the elements is the
graph of the mapped function on the containers. -/

/-- Tables of the same names in the same order, with related values. -/
inductive Table.Rel {α β : Type} (R : α → β → Prop) : Table α → Table β → Prop where
  | nil : Table.Rel R [] []
  | cons {name : String} {a : α} {b : β} {t : Table α} {u : Table β} (head : R a b) (tail : Table.Rel R t u) :
    Table.Rel R ((name, a) :: t) ((name, b) :: u)

/-- The same flag, or related subschemas. -/
inductive Additional.Rel {σ τ : Type} (R : σ → τ → Prop) : Additional σ → Additional τ → Prop where
  | allowed (value : Bool) : Additional.Rel R (.allowed value) (.allowed value)
  | schema {s : σ} {t : τ} (value : R s t) : Additional.Rel R (.schema s) (.schema t)

section Graph

variable {α β : Type} {R : α → β → Prop} {f : α → β}

theorem optionRel_iff_map_eq {o : Option α} {o' : Option β} (h : ∀ a, o = some a → ∀ b, R a b ↔ f a = b) :
    Option.Rel R o o' ↔ o.map f = o' := by
  constructor
  · rintro (hab | _)
    · exact congrArg some ((h _ rfl _).mp hab)
    · rfl
  · rintro rfl
    cases o with
    | none => exact .none
    | some a => exact .some ((h a rfl _).mpr rfl)

theorem forall₂_iff_map_eq {l : List α} {l' : List β} (h : ∀ a ∈ l, ∀ b, R a b ↔ f a = b) :
    List.Forall₂ R l l' ↔ l.map f = l' := by
  induction l generalizing l' with
  | nil => rw [List.forall₂_nil_left_iff, List.map_nil, eq_comm]
  | cons a l ih =>
    rw [List.forall₂_cons_left_iff, List.map_cons]
    constructor
    · rintro ⟨b, rest, hab, hrest, rfl⟩
      rw [(h a List.mem_cons_self b).mp hab, (ih fun c hc => h c (List.mem_cons_of_mem _ hc)).mp hrest]
    · rintro rfl
      exact ⟨_, _, (h a List.mem_cons_self _).mpr rfl,
        (ih fun c hc => h c (List.mem_cons_of_mem _ hc)).mpr rfl, rfl⟩

theorem Table.rel_iff_mapValues_eq {t : Table α} {u : Table β} (h : ∀ a ∈ t.values, ∀ b, R a b ↔ f a = b) :
    Table.Rel R t u ↔ t.mapValues f = u := by
  induction t generalizing u with
  | nil =>
    constructor
    · rintro ⟨⟩
      rfl
    · rintro rfl
      exact .nil
  | cons e t ih =>
    obtain ⟨name, a⟩ := e
    have hrest (u : Table β) : Table.Rel R t u ↔ mapValues f t = u :=
      ih fun c hc => h c (List.mem_cons_of_mem _ hc)
    constructor
    · rintro (_ | ⟨hab, htail⟩)
      rw [← (h a List.mem_cons_self _).mp hab, ← (hrest _).mp htail]
      rfl
    · rintro rfl
      exact .cons ((h a List.mem_cons_self _).mpr rfl) ((hrest _).mpr rfl)

theorem Additional.rel_iff_map_eq {a : Additional α} {b : Additional β} (h : ∀ s ∈ a.children, ∀ t, R s t ↔ f s = t) :
    Additional.Rel R a b ↔ a.map f = b := by
  constructor
  · rintro (_ | hst)
    · rfl
    · exact congrArg Additional.schema ((h _ List.mem_cons_self _).mp hst)
  · rintro rfl
    cases a with
    | allowed value => exact .allowed value
    | schema s => exact .schema ((h s List.mem_cons_self _).mpr rfl)

end Graph

/-! ## Renamed schemas

With these, a structural induction settles the relation, and uniqueness comes with it. -/

/-- The same property, and the same tags in the same order, with the ids that they are sent to replaced. -/
structure Discriminator.Renamed (f : String → String) (d d' : Discriminator) : Prop where
  propertyName : d.propertyName = d'.propertyName
  mapping : Option.Rel (Table.Rel fun id id' => f id = id') d.mapping d'.mapping

/-- The second schema is the first one with every id replaced that it points at: by a `$ref` or by a mapping, here or
in a subschema. All keywords, names, literals and orders are the same. -/
inductive Schema.Renamed (f : String → String) : Schema → Schema → Prop where
  | mk {k k' : Keywords Schema}
    (type : k.type = k'.type)
    (format : k.format = k'.format)
    (properties : Option.Rel (Table.Rel (Schema.Renamed f)) k.properties k'.properties)
    (required : k.required = k'.required)
    (additional : Option.Rel (Additional.Rel (Schema.Renamed f)) k.additional k'.additional)
    (items : Option.Rel (Schema.Renamed f) k.items k'.items)
    (prefixItems : Option.Rel (List.Forall₂ (Schema.Renamed f)) k.prefixItems k'.prefixItems)
    (minItems : k.minItems = k'.minItems)
    (maxItems : k.maxItems = k'.maxItems)
    (enumeration : k.enumeration = k'.enumeration)
    (oneOf : Option.Rel (List.Forall₂ (Schema.Renamed f)) k.oneOf k'.oneOf)
    (allOf : Option.Rel (List.Forall₂ (Schema.Renamed f)) k.allOf k'.allOf)
    (discriminator : Option.Rel (Discriminator.Renamed f) k.discriminator k'.discriminator)
    (nullable : k.nullable = k'.nullable)
    (ref : Option.Rel (fun id id' => f id = id') k.ref k'.ref) : Schema.Renamed f (.mk k) (.mk k')

variable {f : String → String}

/-- Renaming a discriminator is what `mapRefs` does to it. -/
theorem Discriminator.renamed_iff {d d' : Discriminator} : d.Renamed f d' ↔ d.mapRefs f = d' := by
  have hmapping : Option.Rel (Table.Rel fun id id' => f id = id') d.mapping d'.mapping ↔
      d.mapping.map (Table.mapValues f) = d'.mapping :=
    optionRel_iff_map_eq fun _ _ _ => Table.rel_iff_mapValues_eq fun _ _ _ => Iff.rfl
  constructor
  · rintro ⟨hname, hrel⟩
    rw [mapRefs, hname, hmapping.mp hrel]
  · rintro rfl
    exact ⟨rfl, hmapping.mpr rfl⟩

namespace Schema

/-- Renaming is done by `mapRefs`, and there is no other way to do it. -/
theorem renamed_iff {s t : Schema} : s.Renamed f t ↔ s.mapRefs f = t := by
  induction s using Schema.induction generalizing t with
  | step k ih =>
    obtain ⟨k'⟩ := t
    -- each container of subschemas is settled by the lemma on its kind, with the induction hypothesis inside
    have hlist {l : List Schema} (hl : ∀ s ∈ l, s ∈ k.children) (l' : List Schema) :
        List.Forall₂ (Renamed f) l l' ↔ l.map (mapRefs f) = l' :=
      forall₂_iff_map_eq fun s hs _ => ih s (hl s hs)
    have hproperties : Option.Rel (Table.Rel (Renamed f)) k.properties k'.properties ↔
        k.properties.map (Table.mapValues (mapRefs f)) = k'.properties :=
      optionRel_iff_map_eq fun t ht _ => Table.rel_iff_mapValues_eq fun s hs _ =>
        ih s (Keywords.mem_children_of_properties ht hs)
    have hadditional : Option.Rel (Additional.Rel (Renamed f)) k.additional k'.additional ↔
        k.additional.map (Additional.map (mapRefs f)) = k'.additional := by
      refine optionRel_iff_map_eq fun a ha _ => Additional.rel_iff_map_eq fun s hs _ => ih s ?_
      cases a with
      | allowed value => cases hs
      | schema inner =>
        obtain rfl := List.mem_singleton.mp hs
        exact Keywords.mem_children_of_additional ha
    have hitems : Option.Rel (Renamed f) k.items k'.items ↔ k.items.map (mapRefs f) = k'.items :=
      optionRel_iff_map_eq fun s hs _ => ih s (Keywords.mem_children_of_items hs)
    have htuple : Option.Rel (List.Forall₂ (Renamed f)) k.prefixItems k'.prefixItems ↔
        k.prefixItems.map (List.map (mapRefs f)) = k'.prefixItems :=
      optionRel_iff_map_eq fun l hl l' => hlist (fun s hs =>
        Keywords.mem_children_of_prefixItems hl hs) l'
    have honeOf : Option.Rel (List.Forall₂ (Renamed f)) k.oneOf k'.oneOf ↔
        k.oneOf.map (List.map (mapRefs f)) = k'.oneOf :=
      optionRel_iff_map_eq fun l hl l' => hlist (fun s hs =>
        Keywords.mem_children_of_oneOf hl hs) l'
    have hallOf : Option.Rel (List.Forall₂ (Renamed f)) k.allOf k'.allOf ↔
        k.allOf.map (List.map (mapRefs f)) = k'.allOf :=
      optionRel_iff_map_eq fun l hl l' => hlist (fun s hs =>
        Keywords.mem_children_of_allOf hl hs) l'
    have hdiscriminator : Option.Rel (Discriminator.Renamed f) k.discriminator k'.discriminator ↔
        k.discriminator.map (Discriminator.mapRefs f) = k'.discriminator :=
      optionRel_iff_map_eq fun _ _ _ => Discriminator.renamed_iff
    have href : Option.Rel (fun id id' => f id = id') k.ref k'.ref ↔ k.ref.map f = k'.ref :=
      optionRel_iff_map_eq fun _ _ _ => Iff.rfl
    -- the keywords that hold no ids are equal on both sides
    rw [mapRefs_mk, mk.injEq]
    constructor
    · rintro ⟨htype, hformat, hp, hrequired, ha, hi, hpre, hmin, hmax, henum, hone, hall, hd, hnullable, hr⟩
      have hd : k.discriminator.map (fun d => { d with mapping := d.mapping.map (Table.mapValues f) }) =
        k'.discriminator := hdiscriminator.mp hd
      rw [Keywords.mapOwnRefs, Keywords.map, htype, hformat, hproperties.mp hp, hrequired, hadditional.mp ha,
        hitems.mp hi, htuple.mp hpre, hmin, hmax, henum, honeOf.mp hone, hallOf.mp hall, hd, hnullable, href.mp hr]
    · rintro rfl
      exact .mk rfl rfl (hproperties.mpr rfl) rfl (hadditional.mpr rfl) (hitems.mpr rfl) (htuple.mpr rfl) rfl rfl rfl
        (honeOf.mpr rfl) (hallOf.mpr rfl) (hdiscriminator.mpr rfl) rfl (href.mpr rfl)

/-- The listing of ids and their renaming visit the same places, in the same order, and renaming touches nothing
else. -/
theorem mapRefs_at_refIds (f g : String → String) (s : Schema) :
    (s.mapRefs f).refIds = s.refIds.map f ∧
      (s.mapRefs f).mapRefs g = s.mapRefs (g ∘ f) ∧
      s.mapRefs id = s ∧
      (∀ t, s.Renamed f t ↔ t = s.mapRefs f) ∧
      (s.mapRefs f = s.mapRefs g ↔ ∀ id ∈ s.refIds, f id = g id) := by
  refine ⟨refIds_mapRefs f s, mapRefs_mapRefs f g s, mapRefs_id s, fun t => renamed_iff.trans eq_comm, ?_, mapRefs_congr⟩
  intro h
  have hids := congrArg refIds h
  rw [refIds_mapRefs, refIds_mapRefs] at hids
  exact List.map_inj_left.mp hids

end Schema

end RouteManifest
