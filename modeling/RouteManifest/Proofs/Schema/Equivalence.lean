import Mathlib.Data.List.Forall2
import Mathlib.Data.List.Perm.Basic
import RouteManifest.Proofs.Schema.Canonical

/-!
# What a fingerprint tells

Types are told apart by the fingerprints of their schemas, so it matters what exactly a fingerprint keeps and what it
drops. `Schema.Equivalent` says it without any mention of texts or sorting: two schemas are equivalent if they are
equal up to the order of properties and of mappings, and to the order and repetition of required names, at every
level. The canonical form decides this relation (`canonical_eq_iff`), and so does the fingerprint
(`fingerprint_exact`).

Tables stand for maps here, so their names are taken to be different (`Schema.Named`). In a table with one name twice
the order of the two entries is not lost.
-/

namespace RouteManifest

/-! ## Equal up to order

The relation goes through a schema node by node. Of each node it asks the same keywords, with tables as maps and
required names as sets. -/

/-- Two tables have related values under the same names, in any order. -/
def Table.Agree {α β : Type} (R : α → β → Prop) (t : Table α) (t' : Table β) : Prop :=
  ∃ u : Table β, List.Forall₂ (fun e e' => e.1 = e'.1 ∧ R e.2 e'.2) t u ∧ u.Perm t'

/-- Two flags that are equal, or two related schemas. -/
inductive Additional.Agree {σ τ : Type} (R : σ → τ → Prop) : Additional σ → Additional τ → Prop where
  | allowed (value : Bool) : Agree R (.allowed value) (.allowed value)
  | schema {s : σ} {t : τ} (h : R s t) : Agree R (.schema s) (.schema t)

/-- One property, and one mapping in any order. -/
structure Discriminator.Agree (d d' : Discriminator) : Prop where
  propertyName : d.propertyName = d'.propertyName
  mapping : Option.Rel List.Perm d.mapping d'.mapping

/-- Two nodes with the same keywords up to order, over related subschemas. -/
structure Keywords.Agree {σ τ : Type} (R : σ → τ → Prop) (k : Keywords σ) (k' : Keywords τ) : Prop where
  type : k.type = k'.type
  format : k.format = k'.format
  properties : Option.Rel (Table.Agree R) k.properties k'.properties
  /-- the same names, in any order and any number of times -/
  required : Option.Rel (fun l l' => ∀ name : String, name ∈ l ↔ name ∈ l') k.required k'.required
  additional : Option.Rel (Additional.Agree R) k.additional k'.additional
  items : Option.Rel R k.items k'.items
  prefixItems : Option.Rel (List.Forall₂ R) k.prefixItems k'.prefixItems
  minItems : k.minItems = k'.minItems
  maxItems : k.maxItems = k'.maxItems
  enumeration : k.enumeration = k'.enumeration
  oneOf : Option.Rel (List.Forall₂ R) k.oneOf k'.oneOf
  allOf : Option.Rel (List.Forall₂ R) k.allOf k'.allOf
  discriminator : Option.Rel Discriminator.Agree k.discriminator k'.discriminator
  nullable : k.nullable = k'.nullable
  ref : k.ref = k'.ref

/-- Equal up to the order of properties and mappings, and to the order and repetition of required names, at every
level. -/
def Schema.Equivalent : Schema → Schema → Prop := Schema.fold fun k s => k.Agree (fun related t => related t) s.keywords

/-- No name stands twice in a table of the node. -/
structure Keywords.Named {σ : Type} (k : Keywords σ) : Prop where
  properties : ∀ t, k.properties = some t → (Table.names t).Nodup
  mapping : ∀ d, k.discriminator = some d → ∀ m, d.mapping = some m → (Table.names m).Nodup

/-- No name stands twice in a table of the schema. -/
abbrev Schema.Named : Schema → Prop := Schema.Every Keywords.Named

/-! ## Optional keywords

A keyword that is absent on one side has to be absent on the other, and otherwise the values are related. -/

section Optional

variable {α β γ : Type} {R : α → β → Prop}

theorem rel_map_left {f : γ → α} {o : Option γ} {o' : Option β} :
    Option.Rel R (o.map f) o' ↔ Option.Rel (fun a b => R (f a) b) o o' := by
  constructor
  · intro h
    cases o with
    | none => cases h; exact .none
    | some a => cases h with | some h => exact .some h
  · intro h
    cases h with
    | none => exact .none
    | some h => exact .some h

/-- Two keywords have one image if they are related, where the relation is what the function tells. -/
theorem map_eq_iff_rel {R : α → α → Prop} {f : α → β} {o o' : Option α}
    (h : ∀ a, o = some a → ∀ b, f a = f b ↔ R a b) : o.map f = o'.map f ↔ Option.Rel R o o' := by
  rcases o with _ | a <;> rcases o' with _ | b
  · exact ⟨fun _ => .none, fun _ => rfl⟩
  · exact ⟨nofun, nofun⟩
  · exact ⟨nofun, nofun⟩
  · rw [Option.map_some, Option.map_some, Option.some.injEq, h a rfl b]
    exact ⟨.some, fun hab => (by cases hab with | some hab => exact hab)⟩

/-- Two lists have one image just if their elements are related one by one. -/
theorem map_eq_iff_forall₂ {R : α → α → Prop} {f : α → β} {l l' : List α}
    (h : ∀ a ∈ l, ∀ b, f a = f b ↔ R a b) : l.map f = l'.map f ↔ List.Forall₂ R l l' := by
  induction l generalizing l' with
  | nil =>
    rw [List.map_nil, List.forall₂_nil_left_iff, eq_comm, List.map_eq_nil_iff]
  | cons a rest ih =>
    cases l' with
    | nil => exact ⟨nofun, nofun⟩
    | cons b rest' =>
      rw [List.map_cons, List.map_cons, List.cons.injEq, List.forall₂_cons, h a List.mem_cons_self b,
        ih fun a ha => h a (List.mem_cons_of_mem _ ha)]

end Optional

/-! ## Sorting

Two tables sorted by name are equal just if they hold the same entries; two sorted lists of names are equal just if they
have the same names. -/

namespace Table

variable {α β : Type}

/-- Sorting keeps apart what differs in more than the order. -/
theorem sortByName_eq_iff_perm {t t' : Table α} (ht : t.names.Nodup) : t.sortByName = t'.sortByName ↔ t.Perm t' := by
  constructor
  · intro h
    have := t'.sortByName_perm
    rw [← h] at this
    exact t.sortByName_perm.symm.trans this
  · intro h
    refine List.Perm.eq_of_pairwise (fun e e' he he' hle hge => ?_) t.sortByName_sorted t'.sortByName_sorted
      (t.sortByName_perm.trans (h.trans t'.sortByName_perm.symm))
    have he := t.sortByName_perm.subset he
    have he' := h.symm.subset (t'.sortByName_perm.subset he')
    exact List.inj_on_of_nodup_map ht he he' (le_antisymm hle hge)

/-- Tables with changed values are sorted to one table just if their values are related name by name. -/
theorem sortByName_mapValues_eq_iff {t t' : Table α} (ht : t.names.Nodup) {f : α → β} {R : α → α → Prop}
    (h : ∀ v ∈ t.values, ∀ w, f v = f w ↔ R v w) :
    (t.mapValues f).sortByName = (t'.mapValues f).sortByName ↔ t.Agree R t' := by
  have hentry : ∀ e ∈ t, ∀ e' : String × α, (e.1, f e.2) = (e'.1, f e'.2) ↔ e.1 = e'.1 ∧ R e.2 e'.2 := by
    intro e he e'
    rw [Prod.mk.injEq, h e.2 (List.mem_map_of_mem he)]
  have hperm : (t.mapValues f).Perm (t'.mapValues f) ↔ ∃ u : Table α, t.mapValues f = u.mapValues f ∧ u.Perm t' :=
    (congrFun (congrFun (List.eq_map_comp_perm fun e : String × α => (e.1, f e.2)) (t.mapValues f)) t').symm.to_iff
  rw [sortByName_eq_iff_perm (by rwa [names_mapValues]), hperm, Agree]
  exact exists_congr fun u => and_congr_left' (map_eq_iff_forall₂ hentry)

end Table

/-- Required names are sorted to one list just if they are the same names. -/
theorem sortDistinct_eq_iff {l l' : List String} :
    sortDistinct l = sortDistinct l' ↔ ∀ name : String, name ∈ l ↔ name ∈ l' := by
  constructor
  · intro h name
    rw [← mem_sortDistinct, h, mem_sortDistinct]
  · intro h
    have hnodup (l : List String) : (sortDistinct l).Nodup := (sortDistinct_strict l).imp ne_of_lt
    have hperm : (sortDistinct l).Perm (sortDistinct l') := by
      rw [List.perm_ext_iff_of_nodup (hnodup l) (hnodup l')]
      intro name
      rw [mem_sortDistinct, mem_sortDistinct, h]
    exact List.Perm.eq_of_pairwise (fun _ _ _ _ hlt hgt => absurd hgt (lt_asymm hlt)) (sortDistinct_strict l)
      (sortDistinct_strict l') hperm

/-! ## One node

A node is compared keyword by keyword. What the functions on subschemas tell is a parameter, which becomes the induction
hypothesis of the next section. -/

namespace Keywords

variable {σ τ υ : Type}

/-- Changing the subschemas of a node changes what they are compared by. -/
theorem agree_map {R : τ → υ → Prop} {f : σ → τ} {k : Keywords σ} {k' : Keywords υ} :
    (k.map f).Agree R k' ↔ k.Agree (fun s t => R (f s) t) k' := by
  -- tables, flags and lists of subschemas are related through the images of their elements
  have htable {t : Table σ} {t' : Table υ} : Table.Agree R (t.mapValues f) t' ↔ t.Agree (fun s t => R (f s) t) t' :=
    exists_congr fun _ => and_congr_left' List.forall₂_map_left_iff
  have hadditional {a : Additional σ} {a' : Additional υ} :
      (a.map f).Agree R a' ↔ a.Agree (fun s t => R (f s) t) a' := by
    constructor
    · intro h
      cases a with
      | allowed b => cases h; exact .allowed b
      | schema s => cases h with | schema h => exact .schema h
    · intro h
      cases h with
      | allowed b => exact .allowed b
      | schema h => exact .schema h
  have hlist {o : Option (List σ)} {o' : Option (List υ)} : Option.Rel (List.Forall₂ R) (o.map (List.map f)) o' ↔
      Option.Rel (List.Forall₂ fun s t => R (f s) t) o o' := by
    simp only [rel_map_left, List.forall₂_map_left_iff]
  constructor
  · intro h
    exact {
      h with
      properties := by simpa only [map, rel_map_left, htable] using h.properties
      additional := by simpa only [map, rel_map_left, hadditional] using h.additional
      items := rel_map_left.mp h.items
      prefixItems := hlist.mp h.prefixItems
      oneOf := hlist.mp h.oneOf
      allOf := hlist.mp h.allOf }
  · intro h
    exact {
      h with
      properties := by simpa only [map, rel_map_left, htable] using h.properties
      additional := by simpa only [map, rel_map_left, hadditional] using h.additional
      items := rel_map_left.mpr h.items
      prefixItems := hlist.mpr h.prefixItems
      oneOf := hlist.mpr h.oneOf
      allOf := hlist.mpr h.allOf }

/-- The canonical order of a node tells what its keywords are up to order. -/
theorem canonical_map_eq_iff {k k' : Keywords σ} (hk : k.Named) {f : σ → τ} {R : σ → σ → Prop}
    (h : ∀ s ∈ k.children, ∀ t, f s = f t ↔ R s t) : (k.map f).canonical = (k'.map f).canonical ↔ k.Agree R k' := by
  have hproperties : (k.properties.map (Table.mapValues f)).map Table.sortByName =
      (k'.properties.map (Table.mapValues f)).map Table.sortByName ↔
        Option.Rel (Table.Agree R) k.properties k'.properties := by
    rw [Option.map_map, Option.map_map]
    refine map_eq_iff_rel fun t ht t' => Table.sortByName_mapValues_eq_iff (hk.properties t ht) fun s hs => ?_
    exact h s (mem_children_of_properties ht hs)
  have hrequired : k.required.map sortDistinct = k'.required.map sortDistinct ↔
      Option.Rel (fun l l' => ∀ name : String, name ∈ l ↔ name ∈ l') k.required k'.required :=
    map_eq_iff_rel fun _ _ _ => sortDistinct_eq_iff
  have hadditional : k.additional.map (Additional.map f) = k'.additional.map (Additional.map f) ↔
      Option.Rel (Additional.Agree R) k.additional k'.additional := by
    refine map_eq_iff_rel fun a ha a' => ?_
    -- a flag is never equal to a schema, on either side
    rcases a with b | s <;> rcases a' with b' | t
    · exact ⟨fun heq => (by cases heq; exact .allowed b), fun hagree => (by cases hagree; rfl)⟩
    · exact iff_of_false (by rintro ⟨⟩) (by rintro ⟨⟩)
    · exact iff_of_false (by rintro ⟨⟩) (by rintro ⟨⟩)
    · rw [Additional.map, Additional.map, Additional.schema.injEq, h s (mem_children_of_additional ha)]
      exact ⟨.schema, fun hagree => (by cases hagree with | schema hst => exact hst)⟩
  have hitems : k.items.map f = k'.items.map f ↔ Option.Rel R k.items k'.items :=
    map_eq_iff_rel fun s hs => h s (mem_children_of_items hs)
  have hprefix : k.prefixItems.map (List.map f) = k'.prefixItems.map (List.map f) ↔
      Option.Rel (List.Forall₂ R) k.prefixItems k'.prefixItems :=
    map_eq_iff_rel fun l hl _ => map_eq_iff_forall₂ fun s hs =>
      h s (mem_children_of_prefixItems hl hs)
  have honeOf : k.oneOf.map (List.map f) = k'.oneOf.map (List.map f) ↔
      Option.Rel (List.Forall₂ R) k.oneOf k'.oneOf :=
    map_eq_iff_rel fun l hl _ => map_eq_iff_forall₂ fun s hs =>
      h s (mem_children_of_oneOf hl hs)
  have hallOf : k.allOf.map (List.map f) = k'.allOf.map (List.map f) ↔
      Option.Rel (List.Forall₂ R) k.allOf k'.allOf :=
    map_eq_iff_rel fun l hl _ => map_eq_iff_forall₂ fun s hs =>
      h s (mem_children_of_allOf hl hs)
  have hdiscriminator : (k.discriminator.map fun d => { d with mapping := d.mapping.map Table.sortByName }) =
      (k'.discriminator.map fun d => { d with mapping := d.mapping.map Table.sortByName }) ↔
        Option.Rel Discriminator.Agree k.discriminator k'.discriminator := by
    refine map_eq_iff_rel fun d hd d' => ?_
    rw [Discriminator.mk.injEq, map_eq_iff_rel fun m hm _ => Table.sortByName_eq_iff_perm (hk.mapping d hd m hm)]
    exact ⟨fun hagree => ⟨hagree.1, hagree.2⟩, fun hagree => ⟨hagree.propertyName, hagree.mapping⟩⟩
  -- the canonical node is a record of these keywords, so two of them are equal field by field
  simp only [canonical, map, Keywords.mk.injEq, hproperties, hrequired, hadditional, hitems, hprefix, honeOf, hallOf,
    hdiscriminator]
  constructor
  · rintro ⟨type, format, properties, required, additional, items, prefixItems, minItems, maxItems, enumeration, oneOf,
      allOf, discriminator, nullable, ref⟩
    exact ⟨type, format, properties, required, additional, items, prefixItems, minItems, maxItems, enumeration, oneOf,
      allOf, discriminator, nullable, ref⟩
  · rintro ⟨type, format, properties, required, additional, items, prefixItems, minItems, maxItems, enumeration, oneOf,
      allOf, discriminator, nullable, ref⟩
    exact ⟨type, format, properties, required, additional, items, prefixItems, minItems, maxItems, enumeration, oneOf,
      allOf, discriminator, nullable, ref⟩

/-- Sorting a node repeats no names. -/
theorem Named.canonical_map {k : Keywords σ} (hk : k.Named) (f : σ → τ) : (k.map f).canonical.Named where
  properties := by
    intro t ht
    simp only [canonical, map, Option.map_map, Option.map_eq_some_iff] at ht
    obtain ⟨u, hu, rfl⟩ := ht
    refine ((Table.sortByName_perm _).map Prod.fst).nodup_iff.mpr ?_
    show (Table.names (Table.mapValues f u)).Nodup
    rw [Table.names_mapValues]
    exact hk.properties u hu
  mapping := by
    intro d hd m hm
    simp only [canonical, map, Option.map_eq_some_iff] at hd
    obtain ⟨d', hd', rfl⟩ := hd
    obtain ⟨m', hm', rfl⟩ := Option.map_eq_some_iff.mp hm
    exact ((Table.sortByName_perm m').map Prod.fst).nodup_iff.mpr (hk.mapping d' hd' m' hm')

end Keywords

/-! ## Schemas

An induction on the first of two schemas, whose nodes are compared by the lemma above. -/

namespace Schema

/-- Schemas are equivalent just if their nodes agree up to equivalent subschemas. -/
theorem equivalent_mk {k k' : Keywords Schema} : Equivalent (.mk k) (.mk k') ↔ k.Agree Equivalent k' := by
  rw [Equivalent, fold_mk]
  exact Keywords.agree_map

/-- A canonical form repeats no names. -/
theorem Named.canonical {s : Schema} (hs : s.Named) : s.canonical.Named :=
  Every.canonical (fun _ h => h.canonical_map _) hs

/-- The canonical form decides equality up to order. -/
theorem canonical_eq_iff {a b : Schema} (ha : a.Named) : a.canonical = b.canonical ↔ a.Equivalent b := by
  induction ha generalizing b with
  | @mk k node _ ih =>
    obtain ⟨k'⟩ := b
    rw [canonical_mk, canonical_mk, Schema.mk.injEq, equivalent_mk]
    exact Keywords.canonical_map_eq_iff node fun s hs t => ih s hs

/-- The fingerprint is exact: it tells schemas apart if and only if they differ in more than the order of properties
and mappings and the order and repetition of required names. The canonical form that it is the text of is such a
reordering of the schema, and the canonical form of itself; and schemas that are the same have one fingerprint. -/
theorem fingerprint_exact {a b : Schema} (ha : a.Named) (ha' : a.Spelled) (hb' : b.Spelled) :
    (a.fingerprint = b.fingerprint ↔ a.Equivalent b) ∧
      (a.canonical.canonical = a.canonical ∧ a.canonical.Equivalent a) ∧
      (a.same b = true → a.fingerprint = b.fingerprint) := by
  have hfingerprint : a.canonical = b.canonical → a.fingerprint = b.fingerprint := fun h => by
    rw [fingerprint, h, fingerprint]
  refine ⟨⟨fun h => ?_, fun h => ?_⟩, ⟨a.canonical_canonical, ?_⟩, fun h => ?_⟩
  · exact (canonical_eq_iff ha).mp (canonical_eq_of_fingerprint ha' hb' h)
  · exact hfingerprint ((canonical_eq_iff ha).mpr h)
  · exact (canonical_eq_iff ha.canonical).mp a.canonical_canonical
  · exact hfingerprint (canonical_eq_of_same ha' hb' h)

/-- A swatch has a colour and a name, in some order. -/
def swatch (properties : Table Schema) (required : List String) : Schema :=
  .mk { type := some "object", properties := some properties, required := some required }

/-- Red, or nothing. -/
def colour : Schema := .mk { enumeration := some [.string "red", .null] }

/-- A swatch whose properties are written in another order keeps its fingerprint, and one that requires less has
another. -/
theorem fingerprint_exact_swatch :
    let a := swatch [("colour", colour), ("name", .mk {})] ["name", "colour"]
    let b := swatch [("name", .mk {}), ("colour", colour)] ["colour", "name", "colour"]
    (a.fingerprint = b.fingerprint ↔ a.Equivalent b) ∧
      (a.canonical.canonical = a.canonical ∧ a.canonical.Equivalent a) ∧
      (a.same b = true → a.fingerprint = b.fingerprint) := by
  have hcolour : colour.Named ∧ colour.Spelled := by
    refine ⟨.mk ⟨nofun, nofun⟩ nofun, .mk ?_ nofun⟩
    rintro values ⟨⟩
    exact List.forall_mem_cons.mpr ⟨⟨.string "red", rfl⟩, List.forall_mem_singleton.mpr ⟨.null, rfl⟩⟩
  have hempty : (Schema.mk {}).Named ∧ (Schema.mk {}).Spelled := ⟨.mk ⟨nofun, nofun⟩ nofun, .mk nofun nofun⟩
  refine fingerprint_exact (.mk ⟨?_, nofun⟩ ?_) (.mk nofun ?_) (.mk nofun ?_)
  · rintro t ⟨⟩
    decide
  · exact List.forall_mem_cons.mpr ⟨hcolour.1, List.forall_mem_singleton.mpr hempty.1⟩
  · exact List.forall_mem_cons.mpr ⟨hcolour.2, List.forall_mem_singleton.mpr hempty.2⟩
  · exact List.forall_mem_cons.mpr ⟨hempty.2, List.forall_mem_singleton.mpr hcolour.2⟩

end Schema

end RouteManifest
