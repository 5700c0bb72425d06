import RouteManifest.Proofs.Json.Compact
import RouteManifest.Proofs.Schema.References
import RouteManifest.Schema.Canonical
import RouteManifest.TypeExpr.Basic

/-!
# Schemas of one shape

Two schemas have one *shape* when their canonical forms are equal. Both ways in which schemas are compared
come down to it: equal fingerprints (`canonical_eq_of_fingerprint`), since the compact text of a JSON value
determines the value, and `Schema.same` (`canonical_eq_of_same`), which is finer.

A fingerprint is the text of the canonical form, and `Schema.same` sorts the JSON forms of both sides. So what has to be
shown is that a schema can be told from its JSON form, where the order of members does not count. That is done for one
node first: its keywords write members of different names, hence each is found again under its name (`Alike`). For the
whole schema it is an induction over the nodes (`ordered_eq_of_sorted`), and the canonical form is a function of what
that gives.

The first half of the file is about the canonical form alone: it is its own canonical form, it can be computed from the
subschemas upwards, and whatever is asked of a schema elsewhere, such as being an object or a reference, can be
asked of its shape.

What is asked of the schemas is that their enumerations hold literals (`Schema.Spelled`). A number with a
fraction has a text that is not followed here, and a negative zero that `Schema.same` overlooks.
-/

namespace RouteManifest

/-! ## Required names

Required names are a set in the canonical form: sorted, and without repetition. -/

/-- Putting a name in its place adds that name only. -/
theorem mem_insertDistinct {s t : String} {l : List String} : t ∈ insertDistinct s l ↔ t = s ∨ t ∈ l := by
  induction l with
  | nil => simp [insertDistinct]
  | cons u rest ih =>
    rw [insertDistinct]
    split
    · simp
    · split
      next heq => simp [heq]
      next => simp [ih, or_left_comm]

/-- Sorting keeps the names. -/
theorem mem_sortDistinct {t : String} {l : List String} : t ∈ sortDistinct l ↔ t ∈ l := by
  induction l with
  | nil => simp [sortDistinct]
  | cons s rest ih =>
    change t ∈ insertDistinct s (sortDistinct rest) ↔ _
    rw [mem_insertDistinct, ih, List.mem_cons]

/-- A sorted list has every name once, and a smaller one never after a greater. -/
theorem sortDistinct_strict (l : List String) : (sortDistinct l).Pairwise (· < ·) := by
  have insert_strict (s : String) {l : List String} (hl : l.Pairwise (· < ·)) :
      (insertDistinct s l).Pairwise (· < ·) := by
    induction l with
    | nil => exact List.pairwise_singleton _ _
    | cons t rest ih =>
      obtain ⟨ht, hrest⟩ := List.pairwise_cons.mp hl
      rw [insertDistinct]
      split
      next hlt =>
        refine List.pairwise_cons.mpr ⟨fun u hu => ?_, hl⟩
        rcases List.mem_cons.mp hu with rfl | hu
        · exact hlt
        · exact hlt.trans (ht u hu)
      next hge =>
        split
        · exact hl
        next hne =>
          refine List.pairwise_cons.mpr ⟨fun u hu => ?_, ih hrest⟩
          rcases mem_insertDistinct.mp hu with rfl | hu
          · exact lt_of_le_of_ne (not_lt.mp hge) (Ne.symm hne)
          · exact ht u hu
  induction l with
  | nil => exact .nil
  | cons s rest ih => exact insert_strict s ih

/-- What is sorted without repetition stays as it is. -/
theorem sortDistinct_of_strict {l : List String} (hl : l.Pairwise (· < ·)) : sortDistinct l = l := by
  induction l with
  | nil => rfl
  | cons s rest ih =>
    obtain ⟨hs, hrest⟩ := List.pairwise_cons.mp hl
    change insertDistinct s (sortDistinct rest) = _
    rw [ih hrest]
    cases rest with
    | nil => rfl
    | cons t rest => exact if_pos (hs t List.mem_cons_self)

/-- Sorting twice is sorting once, which makes canonical forms their own canonical forms. -/
theorem sortDistinct_sortDistinct (l : List String) : sortDistinct (sortDistinct l) = sortDistinct l :=
  sortDistinct_of_strict (sortDistinct_strict l)

/-! ## One node

A node is put in canonical order without a look at its subschemas. So to make a whole schema canonical is a fold that
changes the subschemas first and the node afterwards, and both can be told apart. -/

namespace Keywords

variable {σ τ υ : Type}

/-- Changing the subschemas twice is changing them once. -/
theorem map_map (f : σ → τ) (g : τ → υ) (k : Keywords σ) : (k.map f).map g = k.map (g ∘ f) := by
  obtain ⟨_, _, properties, _, additional, items, prefixItems, _, _, _, oneOf, allOf, _, _, _⟩ := k
  have hadditional (a : Additional σ) : (a.map f).map g = a.map (g ∘ f) := by cases a <;> rfl
  have htable (t : Table σ) : (t.mapValues f).mapValues g = t.mapValues (g ∘ f) := by
    simp [Table.mapValues]
  simp [map, Function.comp_def, hadditional, htable]

/-- Functions that agree on the subschemas do the same to the node. -/
theorem map_congr {f g : σ → τ} {k : Keywords σ} (h : ∀ s ∈ k.children, f s = g s) : k.map f = k.map g := by
  have hproperties : k.properties.map (Table.mapValues f) = k.properties.map (Table.mapValues g) := by
    refine Option.map_congr fun t ht => List.map_congr_left fun e he => ?_
    show (e.1, f e.2) = (e.1, g e.2)
    rw [h e.2 (mem_children_of_properties ht (List.mem_map_of_mem (f := Prod.snd) he))]
  have hadditional : k.additional.map (Additional.map f) = k.additional.map (Additional.map g) := by
    refine Option.map_congr fun a ha => ?_
    cases a with
    | allowed b => rfl
    | schema s => exact congrArg _ (h s (mem_children_of_additional ha))
  have hitems : k.items.map f = k.items.map g :=
    Option.map_congr fun s hs => h s (mem_children_of_items hs)
  have hprefix : k.prefixItems.map (List.map f) = k.prefixItems.map (List.map g) :=
    Option.map_congr fun l hl => List.map_congr_left fun s hs =>
      h s (mem_children_of_prefixItems hl hs)
  have honeOf : k.oneOf.map (List.map f) = k.oneOf.map (List.map g) :=
    Option.map_congr fun l hl => List.map_congr_left fun s hs =>
      h s (mem_children_of_oneOf hl hs)
  have hallOf : k.allOf.map (List.map f) = k.allOf.map (List.map g) :=
    Option.map_congr fun l hl => List.map_congr_left fun s hs =>
      h s (mem_children_of_allOf hl hs)
  rw [map, map, hproperties, hadditional, hitems, hprefix, honeOf, hallOf]

/-- Sorting a node does not look at its subschemas, so these can be changed before or after. -/
theorem canonical_map (f : σ → τ) (k : Keywords σ) : (k.map f).canonical = k.canonical.map f := by
  simp [map, canonical, Function.comp_def, Table.sortByName_mapValues]

/-- A node in canonical order is in canonical order. -/
theorem canonical_canonical (k : Keywords σ) : k.canonical.canonical = k.canonical := by
  simp [canonical, Function.comp_def, Table.sortByName_sortByName, sortDistinct_sortDistinct]

/-- One node with its properties and its mapping sorted, and the rest as it is. -/
def ordered (k : Keywords σ) : Keywords σ :=
  { k with
    properties := k.properties.map Table.sortByName
    discriminator := k.discriminator.map fun d => { d with mapping := d.mapping.map Table.sortByName } }

/-- Subschemas can be changed before a node is put in order or after that. -/
theorem ordered_map (f : σ → τ) (k : Keywords σ) : (k.map f).ordered = k.ordered.map f := by
  simp [map, ordered, Function.comp_def, Table.sortByName_mapValues]

/-- The shape of a node sorts more than its order, so it does not see whether that was done before. -/
theorem canonical_ordered (k : Keywords σ) : k.ordered.canonical = k.canonical := by
  simp [canonical, ordered, Function.comp_def, Table.sortByName_sortByName]

/-- Sorting moves subschemas about and loses none. -/
theorem mem_children_canonical {k : Keywords σ} {s : σ} : s ∈ k.canonical.children ↔ s ∈ k.children := by
  have hvalues (t : Table σ) : s ∈ Table.values t.sortByName ↔ s ∈ Table.values t :=
    (t.sortByName_perm.map Prod.snd).mem_iff
  rw [mem_children, mem_children]
  refine or_congr_left ?_
  constructor
  · rintro ⟨t, ht, hs⟩
    obtain ⟨u, hu, rfl⟩ := Option.map_eq_some_iff.mp ht
    exact ⟨u, hu, (hvalues u).mp hs⟩
  · rintro ⟨t, ht, hs⟩
    exact ⟨_, Option.map_eq_some_iff.mpr ⟨t, ht, rfl⟩, (hvalues t).mpr hs⟩

end Keywords

namespace Schema

theorem canonical_mk (k : Keywords Schema) : canonical (.mk k) = .mk (k.map canonical).canonical := by
  rw [canonical, fold_mk]

/-- A shape is its own shape. -/
theorem canonical_canonical (s : Schema) : s.canonical.canonical = s.canonical := by
  induction s using Schema.induction with
  | step k ih =>
    rw [canonical_mk, canonical_mk, ← Keywords.canonical_map, Keywords.map_map,
      Keywords.map_congr (f := canonical ∘ canonical) (g := canonical) ih, Keywords.canonical_canonical]

/-- The same schema with properties and mappings sorted at every level: what `same` compares. -/
def ordered : Schema → Schema := fold fun k => .mk k.ordered

theorem ordered_mk (k : Keywords Schema) : ordered (.mk k) = .mk (k.map ordered).ordered := by
  rw [ordered, fold_mk]

/-- Schemas that are equal in order are of one shape. -/
theorem canonical_ordered (s : Schema) : s.ordered.canonical = s.canonical := by
  induction s using Schema.induction with
  | step k ih =>
    rw [ordered_mk, canonical_mk, canonical_mk, ← Keywords.ordered_map, Keywords.map_map,
      Keywords.map_congr (f := canonical ∘ ordered) (g := canonical) ih, Keywords.canonical_ordered]

/-- A shape is a reference just if the schema is one, and to the same id. -/
theorem refId?_canonical (s : Schema) : s.canonical.refId? = s.refId? := by
  obtain ⟨k⟩ := s
  rw [canonical_mk]
  simp [refId?, keywords, Keywords.isEmpty, Keywords.canonical, Keywords.map]

/-- A shape tells an object. -/
theorem isObject_canonical (s : Schema) : s.canonical.isObject = s.isObject := by
  obtain ⟨k⟩ := s
  rw [canonical_mk]
  simp [isObject, keywords, Keywords.canonical, Keywords.map]

/-- A shape tells whether null is allowed. -/
theorem isNullable_canonical (s : Schema) : s.canonical.isNullable = s.isNullable := by
  obtain ⟨k⟩ := s
  rw [canonical_mk]
  rfl

/-- A shape tells a single literal, since enumerations are left in their order. -/
theorem singleLiteral?_canonical (s : Schema) : s.canonical.singleLiteral? = s.singleLiteral? := by
  obtain ⟨k⟩ := s
  rw [canonical_mk]
  rfl

/-- A shape tells what the schema points at. -/
theorem references_canonical (id : String) (s : Schema) : s.canonical.references id = s.references id := by
  induction s using Schema.induction with
  | step k ih =>
    rw [canonical_mk, Bool.eq_iff_iff, references_mk, references_mk]
    refine or_congr Iff.rfl ?_
    simp only [Keywords.mem_children_canonical, Keywords.children_map, List.mem_map]
    constructor
    · rintro ⟨_, ⟨s, hs, rfl⟩, h⟩
      exact ⟨s, hs, by rw [← ih s hs]; exact h⟩
    · rintro ⟨s, hs, h⟩
      exact ⟨_, ⟨s, hs, rfl⟩, by rw [ih s hs]; exact h⟩

/-! ## What a shape shows

Names of properties, required names and being an object can be read off a schema or its shape alike. -/

/-- Schemas of one shape have properties of the same names. -/
theorem names_perm_of_shape {s t : Schema} (h : t.canonical = s.canonical) :
    (Table.names (t.keywords.properties.getD [])).Perm (Table.names (s.keywords.properties.getD [])) := by
  have hnames (s : Schema) : (Table.names (s.canonical.keywords.properties.getD [])).Perm
      (Table.names (s.keywords.properties.getD [])) := by
    obtain ⟨k⟩ := s
    rw [canonical_mk]
    show (Table.names (((k.properties.map (Table.mapValues canonical)).map Table.sortByName).getD [])).Perm
      (Table.names (k.properties.getD []))
    rcases k.properties with _ | properties
    · exact .refl _
    · have hperm := (Table.sortByName_perm (Table.mapValues canonical properties)).map Prod.fst
      exact hperm.trans (.of_eq (Table.names_mapValues canonical properties))
  exact (hnames t).symm.trans (h ▸ hnames s)

/-- Schemas of one shape require the same properties. -/
theorem contains_required_of_shape {s t : Schema} (h : t.canonical = s.canonical) (name : String) :
    (t.keywords.required.getD []).contains name = (s.keywords.required.getD []).contains name := by
  have hrequired (s : Schema) : name ∈ s.canonical.keywords.required.getD [] ↔ name ∈ s.keywords.required.getD [] := by
    obtain ⟨k⟩ := s
    rw [canonical_mk]
    show name ∈ (k.required.map sortDistinct).getD [] ↔ name ∈ k.required.getD []
    rcases k.required with _ | required
    · exact Iff.rfl
    · exact mem_sortDistinct
  rw [Bool.eq_iff_iff, List.contains_iff_mem, List.contains_iff_mem, ← hrequired t, h, hrequired s]

/-- Schemas of one shape are objects together. -/
theorem isObject_of_shape {s t : Schema} (h : t.canonical = s.canonical) : t.isObject = s.isObject := by
  rw [← isObject_canonical, h, isObject_canonical]

/-! ## Tidy schemas

A predicate on nodes, `Keywords.Tidy`, is asked of every node of a schema. `Every` is the closure of any such predicate
under subschemas, so its laws are proved once for tidy and for spelled schemas. -/

/-- Every node of the schema has a property. -/
inductive Every (p : Keywords Schema → Prop) : Schema → Prop where
  | mk {k : Keywords Schema} (node : p k) (children : ∀ s ∈ k.children, Every p s) : Every p (.mk k)

end Schema

/-- What is true of every schema that resolution builds. -/
structure Keywords.Tidy (k : Keywords Schema) : Prop where
  /-- an enumeration holds literals -/
  literals : ∀ values, k.enumeration = some values → ∀ v ∈ values, ∃ l : Literal, v = l.toJson
  /-- a node with properties says nothing but what an object looks like -/
  object : k.properties.isSome = true → ∃ properties required nullable, ∃ closed : Bool, k = {
    type := some "object"
    properties := some properties
    required := required
    additional := if closed then some (.allowed false) else none
    nullable := nullable }

namespace Schema

/-- Every node is tidy. -/
abbrev Tidy : Schema → Prop := Every Keywords.Tidy

/-- What is true of every node is true of the outermost one. -/
theorem Every.node {p : Keywords Schema → Prop} {k : Keywords Schema} (h : Every p (.mk k)) : p k := by
  obtain ⟨node, -⟩ := h
  exact node

/-- What is true of every node is true of every node of a subschema. -/
theorem Every.of_mem_children {p : Keywords Schema → Prop} {k : Keywords Schema} (h : Every p (.mk k)) {s : Schema}
    (hs : s ∈ k.children) : Every p s := by
  obtain ⟨-, children⟩ := h
  exact children s hs

/-- The schemas of properties are subschemas. -/
theorem Every.of_mem_properties {p : Keywords Schema → Prop} {s t : Schema} (hs : Every p s)
    (ht : t ∈ Table.values (s.keywords.properties.getD [])) : Every p t := by
  obtain ⟨k⟩ := s
  rcases h : k.properties with _ | properties
  · rw [keywords, h] at ht
    cases ht
  · rw [keywords, h] at ht
    exact hs.of_mem_children (Keywords.mem_children_of_properties h ht)

/-- What follows for one node follows for every node. -/
theorem Every.imp {p q : Keywords Schema → Prop} (h : ∀ k, p k → q k) {s : Schema} (hs : Every p s) : Every q s := by
  induction hs with
  | mk node _ ih => exact .mk (h _ node) ih

/-- What a node keeps in canonical order is true of the canonical form. -/
theorem Every.canonical {p : Keywords Schema → Prop} (h : ∀ k, p k → p (k.map Schema.canonical).canonical) {s : Schema}
    (hs : Every p s) : Every p s.canonical := by
  induction hs with
  | @mk k node _ ih =>
    rw [canonical_mk]
    refine .mk (h k node) fun s hs => ?_
    rw [Keywords.mem_children_canonical, Keywords.children_map] at hs
    obtain ⟨t, ht, rfl⟩ := List.mem_map.mp hs
    exact ih t ht

end Schema

/-- An enumeration holds literals. -/
def Keywords.Spelled {σ : Type} (k : Keywords σ) : Prop :=
  ∀ values, k.enumeration = some values → ∀ v ∈ values, ∃ l : Literal, v = l.toJson

namespace Schema

/-- Every enumeration holds literals. -/
abbrev Spelled : Schema → Prop := Every Keywords.Spelled

/-- A shape spells what the schema spells: enumerations are not touched. -/
theorem Spelled.canonical {s : Schema} (hs : s.Spelled) : s.canonical.Spelled := Every.canonical (fun _ h => h) hs

/-- What resolution builds is spelled, so the comparisons below apply to it. -/
theorem Tidy.spelled {s : Schema} (hs : s.Tidy) : s.Spelled := hs.imp fun _ h => h.literals

end Schema

/-- A literal has no fraction in it. -/
theorem Literal.whole_toJson (l : Literal) : l.toJson.Whole := by
  cases l with
  | string text => exact .string text
  | integer value => exact .int value
  | boolean value => exact .bool value
  | null => exact .null

/-- A literal has no members to sort. -/
theorem Literal.sorted_toJson (l : Literal) : l.toJson.sorted = l.toJson := by cases l <;> rfl

namespace Keywords

/-- A keyword that is not there writes no member. -/
theorem mem_entry {α : Type} {name : String} {write : α → Json} {value : Option α} {v : Json}
    (h : v ∈ Table.values (entry name write value)) : ∃ a, value = some a ∧ v = write a := by
  cases value with
  | none => cases h
  | some a => exact ⟨a, rfl, List.mem_singleton.mp h⟩

/-- What is true of texts, of flags and of the counts of a node, and goes from parts to arrays and objects, is true of
the members of the node if it is true of its subschemas and its enumeration. -/
theorem forall_mem_members {P : Json → Prop} {k : Keywords Json} (string : ∀ s, P (.string s)) (bool : ∀ b, P (.bool b))
    (array : ∀ {items : List Json}, (∀ v ∈ items, P v) → P (.array items))
    (object : ∀ {members : Table Json}, (∀ v ∈ members.values, P v) → P (.object members))
    (count : ∀ n : Nat, k.minItems = some n ∨ k.maxItems = some n → P (.int n)) (hchildren : ∀ v ∈ k.children, P v)
    (henum : ∀ values, k.enumeration = some values → ∀ v ∈ values, P v) : ∀ v ∈ Table.values k.members, P v := by
  intro v hv
  have hmem {α : Type} (name : String) (write : α → Json) (value : Option α)
      (h : ∀ a, value = some a → P (write a)) : ∀ v ∈ Table.values (entry name write value), P v := by
    intro v hv
    obtain ⟨a, ha, rfl⟩ := mem_entry hv
    exact h a ha
  simp only [members, Table.values, List.map_append, List.mem_append] at hv
  -- one case for each keyword, in the order in which they are written
  rcases hv with ((((((((((((((h | h) | h) | h) | h) | h) | h) | h) | h) | h) | h) | h) | h) | h) | h)
  · exact hmem _ _ _ (fun a _ => string a) v h
  · exact hmem _ _ _ (fun a _ => string a) v h
  · exact hmem _ _ _ (fun t ht => object fun v hv => hchildren v (mem_children_of_properties ht hv)) v h
  · refine hmem _ _ _ (fun names _ => array fun v hv => ?_) v h
    obtain ⟨name, -, rfl⟩ := List.mem_map.mp hv
    exact string name
  · refine hmem _ _ _ (fun a ha => ?_) v h
    cases a with
    | allowed b => exact bool b
    | schema s => exact hchildren s (mem_children_of_additional ha)
  · exact hmem _ _ _ (fun s hs => hchildren s (mem_children_of_items hs)) v h
  · exact hmem _ _ _ (fun l hl => array fun v hv =>
      hchildren v (mem_children_of_prefixItems hl hv)) v h
  · exact hmem _ (fun n : Nat => .int n) k.minItems (fun n hn => count n (Or.inl hn)) v h
  · exact hmem _ (fun n : Nat => .int n) k.maxItems (fun n hn => count n (Or.inr hn)) v h
  · exact hmem _ _ _ (fun values hvalues => array (henum values hvalues)) v h
  · exact hmem _ _ _ (fun l hl => array fun v hv =>
      hchildren v (mem_children_of_oneOf hl hv)) v h
  · exact hmem _ _ _ (fun l hl => array fun v hv =>
      hchildren v (mem_children_of_allOf hl hv)) v h
  · refine hmem _ _ _ (fun d _ => object fun v hv => ?_) v h
    rcases List.mem_cons.mp hv with rfl | hv
    · exact string _
    · obtain ⟨e, he, rfl⟩ := List.mem_map.mp hv
      obtain ⟨mapping, -, rfl⟩ := Option.map_eq_some_iff.mp (Option.mem_toList.mp he)
      refine object fun v hv => ?_
      obtain ⟨e, he, rfl⟩ := List.mem_map.mp hv
      obtain ⟨⟨name, id⟩, -, rfl⟩ := List.mem_map.mp he
      exact string id
  · exact hmem _ _ _ (fun b _ => bool b) v h
  · exact hmem _ _ _ (fun a _ => string a) v h

end Keywords

namespace Schema

/-- A schema is written as the object of what its keywords write. -/
theorem toJson_mk (k : Keywords Schema) : toJson (.mk k) = .object (k.map toJson).members := by
  rw [toJson, fold_mk]

/-- Counts and literals are all the numbers in a schema, and these are whole. So its text tells what it is. -/
theorem Spelled.whole_toJson {s : Schema} (hs : s.Spelled) : s.toJson.Whole := by
  induction hs with
  | @mk k node _ ih =>
    rw [toJson_mk]
    refine .object (Keywords.forall_mem_members .string .bool .array .object (fun n _ => .int n) (fun v hv => ?_)
      fun values hvalues v hv => ?_)
    · rw [Keywords.children_map] at hv
      obtain ⟨t, ht, rfl⟩ := List.mem_map.mp hv
      exact ih t ht
    · obtain ⟨l, rfl⟩ := node values hvalues v hv
      exact l.whole_toJson

/-! ## Two comparisons

Both comparisons leave equal members of two JSON objects, up to the order of members at every level. The names of
the members are all different, so the sorted members are found as the members themselves are, one keyword after
the other. -/

end Schema

/-- Members are sorted each by itself. -/
theorem Json.sortedMembers_eq (t : Table Json) : Json.sortedMembers t = t.mapValues Json.sorted := by
  induction t with
  | nil => rfl
  | cons e rest ih => rw [Json.sortedMembers, ih]; rfl

theorem Json.sortedItems_eq (l : List Json) : Json.sortedItems l = l.map Json.sorted := by
  induction l with
  | nil => rfl
  | cons v rest ih => rw [Json.sortedItems, ih]; rfl

/-- What sorting leaves of an object tells what is found under a name. -/
theorem Json.find?_of_sorted {t t' : Table Json} (ht : t.names.Nodup) (ht' : t'.names.Nodup)
    (h : (Json.object t).sorted = (Json.object t').sorted) (name : String) :
    (t.find? name).map Json.sorted = (t'.find? name).map Json.sorted := by
  rw [Json.sorted, Json.sorted, Json.sortedMembers_eq, Json.sortedMembers_eq] at h
  have hfind {t : Table Json} (ht : t.names.Nodup) : (t.find? name).map Json.sorted =
      (Table.sortByName (Table.mapValues Json.sorted t)).find? name := by
    rw [← Table.find?_mapValues]
    refine Table.find?_of_perm (Table.sortByName_perm _).symm ?_ name
    rw [Table.names_mapValues]
    exact ht
  rw [hfind ht, hfind ht', Json.object.inj h]

namespace Keywords

/-- A keyword is found under its name and under no other. -/
theorem find?_entry {α : Type} (name : String) (write : α → Json) (value : Option α) (other : String) :
    Table.find? (entry name write value) other = if name = other then value.map write else none := by
  cases value with
  | none => simp [entry, Table.find?]
  | some a => rfl

/-- No two keywords write a member of one name. -/
theorem nodup_members (k : Keywords Json) : (Table.names k.members).Nodup := by
  have hentry {α : Type} (name : String) (write : α → Json) (value : Option α) :
      (Table.names (entry name write value)).Sublist [name] := by
    cases value with
    | none => exact List.nil_sublist _
    | some a => exact List.Sublist.refl _
  have hsub : (Table.names k.members).Sublist (["type"] ++ ["format"] ++ ["properties"] ++ ["required"]
      ++ ["additionalProperties"] ++ ["items"] ++ ["prefixItems"] ++ ["minItems"] ++ ["maxItems"] ++ ["enum"]
      ++ ["oneOf"] ++ ["allOf"] ++ ["discriminator"] ++ ["nullable"] ++ ["$ref"]) := by
    simp only [members, Table.names, List.map_append]
    repeat refine List.Sublist.append ?_ (hentry _ _ _)
    exact hentry _ _ _
  exact List.Nodup.sublist hsub (by decide)

/-- What two nodes have in common whose members agree up to order. -/
structure Alike (k k' : Keywords Json) : Prop where
  type : k.type = k'.type
  format : k.format = k'.format
  properties : k.properties.map (fun t => (Table.mapValues Json.sorted t).sortByName) =
    k'.properties.map fun t => (Table.mapValues Json.sorted t).sortByName
  required : k.required = k'.required
  additional : k.additional.map (Json.sorted ∘ Additional.toJson) = k'.additional.map (Json.sorted ∘ Additional.toJson)
  items : k.items.map Json.sorted = k'.items.map Json.sorted
  prefixItems : k.prefixItems.map (List.map Json.sorted) = k'.prefixItems.map (List.map Json.sorted)
  minItems : k.minItems = k'.minItems
  maxItems : k.maxItems = k'.maxItems
  enumeration : k.enumeration.map (List.map Json.sorted) = k'.enumeration.map (List.map Json.sorted)
  oneOf : k.oneOf.map (List.map Json.sorted) = k'.oneOf.map (List.map Json.sorted)
  allOf : k.allOf.map (List.map Json.sorted) = k'.allOf.map (List.map Json.sorted)
  discriminator : k.discriminator.map (Json.sorted ∘ Discriminator.toJson) =
    k'.discriminator.map (Json.sorted ∘ Discriminator.toJson)
  nullable : k.nullable = k'.nullable
  ref : k.ref = k'.ref

/-- Keywords that write the same up to order leave the same member when sorted. -/
theorem sortedMembers_entry {α : Type} {write : α → Json} {value value' : Option α}
    (h : value.map (Json.sorted ∘ write) = value'.map (Json.sorted ∘ write)) (name : String) :
    Json.sortedMembers (entry name write value) = Json.sortedMembers (entry name write value') := by
  cases value with
  | none =>
    cases value' with
    | none => rfl
    | some b => cases h
  | some a =>
    cases value' with
    | none => cases h
    | some b => exact congrArg (fun v => [(name, v)]) (Option.some.inj h)

/-- The members of alike nodes agree up to order. -/
theorem Alike.sorted {k k' : Keywords Json} (h : k.Alike k') :
    (Json.object k.members).sorted = (Json.object k'.members).sorted := by
  have happend (t t' : Table Json) : Json.sortedMembers (t ++ t') = Json.sortedMembers t ++ Json.sortedMembers t' := by
    simp [Json.sortedMembers_eq, Table.mapValues]
  have hobject (t : Table Json) : (Json.object t).sorted = .object (Table.mapValues Json.sorted t).sortByName := by
    rw [Json.sorted, Json.sortedMembers_eq]
  have harray (l : List Json) : (Json.array l).sorted = .array (l.map Json.sorted) := by
    rw [Json.sorted, Json.sortedItems_eq]
  have list {o o' : Option (List Json)} (h : o.map (List.map Json.sorted) = o'.map (List.map Json.sorted)) :
      o.map (Json.sorted ∘ Json.array) = o'.map (Json.sorted ∘ Json.array) := by
    simpa [Function.comp_def, harray] using congrArg (Option.map Json.array) h
  have hproperties : k.properties.map (Json.sorted ∘ Json.object) = k'.properties.map (Json.sorted ∘ Json.object) := by
    simpa [Function.comp_def, hobject] using congrArg (Option.map Json.object) h.properties
  have hitems : k.items.map (Json.sorted ∘ id) = k'.items.map (Json.sorted ∘ id) := h.items
  refine congrArg (fun t : Table Json => Json.object t.sortByName) ?_
  simp only [members, happend]
  rw [h.type, h.format, h.required, h.minItems, h.maxItems, h.nullable, h.ref, sortedMembers_entry hproperties,
    sortedMembers_entry h.additional, sortedMembers_entry hitems,
    sortedMembers_entry (list h.prefixItems), sortedMembers_entry (list h.enumeration),
    sortedMembers_entry (list h.oneOf), sortedMembers_entry (list h.allOf), sortedMembers_entry h.discriminator]

/-- Nodes are alike whose subschemas agree up to order. -/
theorem alike_of_map {k k' : Keywords Json} (h : k.map Json.sorted = k'.map Json.sorted) : k.Alike k' where
  type := congrArg (·.type) h
  format := congrArg (·.format) h
  properties := by
    simpa [map, Function.comp_def] using congrArg (fun k => k.properties.map Table.sortByName) h
  required := congrArg (·.required) h
  additional := by
    have hsorted : Json.sorted ∘ Additional.toJson = Additional.toJson ∘ Additional.map Json.sorted := by
      funext a
      cases a <;> rfl
    simpa [map, hsorted] using congrArg (fun k => k.additional.map Additional.toJson) h
  items := congrArg (·.items) h
  prefixItems := congrArg (·.prefixItems) h
  minItems := congrArg (·.minItems) h
  maxItems := congrArg (·.maxItems) h
  enumeration := congrArg (fun k => k.enumeration.map (List.map Json.sorted)) h
  oneOf := congrArg (·.oneOf) h
  allOf := congrArg (·.allOf) h
  discriminator := congrArg (fun k => k.discriminator.map (Json.sorted ∘ Discriminator.toJson)) h
  nullable := congrArg (·.nullable) h
  ref := congrArg (·.ref) h

/-- A node and the same node in order are alike. -/
theorem alike_ordered (k : Keywords Json) : k.ordered.Alike k where
  type := rfl
  format := rfl
  properties := by
    -- sorting the values first makes no difference to sorting by name
    have hsorted (t : Table Json) : (Table.mapValues Json.sorted t.sortByName).sortByName =
        (Table.mapValues Json.sorted t).sortByName := by
      rw [← Table.sortByName_mapValues, Table.sortByName_sortByName]
    simp [ordered, Function.comp_def, hsorted]
  required := rfl
  additional := rfl
  items := rfl
  prefixItems := rfl
  minItems := rfl
  maxItems := rfl
  enumeration := rfl
  oneOf := rfl
  allOf := rfl
  discriminator := by
    have hmapping (m : Table String) : (Json.object (m.sortByName.mapValues .string)).sorted =
        (Json.object (m.mapValues .string)).sorted := by
      rw [Json.sorted, Json.sorted, Json.sortedMembers_eq, Json.sortedMembers_eq, ← Table.sortByName_mapValues,
        ← Table.sortByName_mapValues, Table.sortByName_sortByName]
    rw [ordered, Option.map_map]
    refine Option.map_congr fun d _ => ?_
    obtain ⟨name, _ | m⟩ := d
    · rfl
    · show (Json.object [("propertyName", .string name), ("mapping", .object (m.sortByName.mapValues .string))]).sorted =
        (Json.object [("propertyName", .string name), ("mapping", .object (m.mapValues .string))]).sorted
      rw [Json.sorted, Json.sorted, Json.sortedMembers_eq, Json.sortedMembers_eq]
      simp only [Table.mapValues, List.map_cons, List.map_nil] at hmapping ⊢
      rw [hmapping]
  nullable := rfl
  ref := rfl

/-- Nodes are alike whose members agree up to order: each keyword is found in the sorted members under its name. -/
theorem alike_of_sorted {k k' : Keywords Json}
    (h : (Json.object k.members).sorted = (Json.object k'.members).sorted) : k.Alike k' := by
  have member := Json.find?_of_sorted k.nodup_members k'.nodup_members h
  -- a member is found under the name of its keyword and is the image of the keyword
  have found {α β : Type} {f : α → Json} {g : α → β} (hfg : ∀ a b, (f a).sorted = (f b).sorted → g a = g b)
      {o o' : Option α} (h : o.map (Json.sorted ∘ f) = o'.map (Json.sorted ∘ f)) : o.map g = o'.map g := by
    rcases o with _ | a <;> rcases o' with _ | b
    · rfl
    · cases h
    · cases h
    · exact congrArg some (hfg a b (Option.some.inj h))
  have same {α : Type} {f : α → Json} (hf : ∀ a b, (f a).sorted = (f b).sorted → a = b) {o o' : Option α}
      (h : o.map (Json.sorted ∘ f) = o'.map (Json.sorted ∘ f)) : o = o' := by
    simpa using found (g := id) hf h
  have list {l l' : List Json} (h : (Json.array l).sorted = (Json.array l').sorted) :
      l.map Json.sorted = l'.map Json.sorted := by
    simpa [Json.sorted, Json.sortedItems_eq] using h
  have hstrings {l l' : List String} (h : (Json.array (l.map .string)).sorted = (Json.array (l'.map .string)).sorted) :
      l = l' := by
    have := list h
    rw [List.map_map, List.map_map] at this
    exact List.map_injective_iff.mpr (fun _ _ => Json.string.inj) this
  have hcount (m n : Nat) (h : (Json.int m).sorted = (Json.int n).sorted) : m = n := Int.ofNat.inj (Json.int.inj h)
  have htype := member "type"
  have hformat := member "format"
  have hproperties := member "properties"
  have hrequired := member "required"
  have hadditional := member "additionalProperties"
  have hitems := member "items"
  have hprefix := member "prefixItems"
  have hmin := member "minItems"
  have hmax := member "maxItems"
  have henum := member "enum"
  have honeOf := member "oneOf"
  have hallOf := member "allOf"
  have hdiscriminator := member "discriminator"
  have hnullable := member "nullable"
  have href := member "$ref"
  simp [members, Table.find?_append, find?_entry] at htype hformat hproperties hrequired hadditional hitems
  simp [members, Table.find?_append, find?_entry] at hprefix hmin hmax henum honeOf hallOf
  simp [members, Table.find?_append, find?_entry] at hdiscriminator hnullable href
  exact {
    type := same (f := Json.string) (fun _ _ => Json.string.inj) htype
    format := same (f := Json.string) (fun _ _ => Json.string.inj) hformat
    properties := found (fun t t' h => by
      simpa [Json.sorted, Json.sortedMembers_eq] using h) hproperties
    required := same (fun _ _ => hstrings) hrequired
    additional := hadditional
    items := hitems
    prefixItems := found (fun _ _ => list) hprefix
    minItems := same hcount hmin
    maxItems := same hcount hmax
    enumeration := found (fun _ _ => list) henum
    oneOf := found (fun _ _ => list) honeOf
    allOf := found (fun _ _ => list) hallOf
    discriminator := hdiscriminator
    nullable := same (f := Json.bool) (fun _ _ => Json.bool.inj) hnullable
    ref := same (f := Json.string) (fun _ _ => Json.string.inj) href }

end Keywords

namespace Schema

section Shape

variable {α β : Type} {f : Schema → α} {g : Schema → β}

/-- If one function tells of two lists what another needs to know, equal values of the one make equal values of the
other. -/
theorem map_eq_of_map_eq {l l' : List Schema} (h : l.map f = l'.map f)
    (hfg : ∀ s ∈ l, ∀ t ∈ l', f s = f t → g s = g t) : l.map g = l'.map g := by
  induction l generalizing l' with
  | nil =>
    cases l' with
    | nil => rfl
    | cons t rest => cases h
  | cons s rest ih =>
    cases l' with
    | nil => cases h
    | cons t rest' =>
      obtain ⟨hhead, htail⟩ := List.cons.inj h
      rw [List.map_cons, List.map_cons, hfg s List.mem_cons_self t List.mem_cons_self hhead,
        ih htail fun s hs t ht => hfg s (List.mem_cons_of_mem _ hs) t (List.mem_cons_of_mem _ ht)]

/-- If one function tells of the values of two tables what another needs to know, tables that agree under the one agree
under the other, names included. -/
theorem mapValues_eq_of_mapValues_eq {t t' : Table Schema} (h : t.mapValues f = t'.mapValues f)
    (hfg : ∀ s ∈ t.values, ∀ s' ∈ t'.values, f s = f s' → g s = g s') : t.mapValues g = t'.mapValues g := by
  induction t generalizing t' with
  | nil =>
    cases t' with
    | nil => rfl
    | cons e rest => cases h
  | cons e rest ih =>
    cases t' with
    | nil => cases h
    | cons e' rest' =>
      obtain ⟨hhead, htail⟩ := List.cons.inj h
      obtain ⟨hname, hvalue⟩ := Prod.mk.inj hhead
      have hhead' : (e.1, g e.2) = (e'.1, g e'.2) := by
        rw [hname, hfg e.2 List.mem_cons_self e'.2 List.mem_cons_self hvalue]
      have htail' := ih htail fun s hs t ht => hfg s (List.mem_cons_of_mem _ hs) t (List.mem_cons_of_mem _ ht)
      exact congrArg₂ List.cons hhead' htail'

end Shape

/-- If one function tells of a value what another needs to know, optional values that agree under the one agree under
the other. -/
theorem option_map_eq {α β γ : Type} {f : α → β} {g : α → γ} {o o' : Option α} (h : o.map f = o'.map f)
    (hfg : ∀ a, o = some a → ∀ a', o' = some a' → f a = f a' → g a = g a') : o.map g = o'.map g := by
  cases o with
  | none =>
    cases o' with
    | none => rfl
    | some a' => cases h
  | some a =>
    cases o' with
    | none => cases h
    | some a' => exact congrArg some (hfg a rfl a' rfl (Option.some.inj h))

/-- The discriminators that are written alike differ in the order of their mappings at most. -/
theorem discriminator_eq_of_sorted {d d' : Discriminator} (h : d.toJson.sorted = d'.toJson.sorted) :
    d.propertyName = d'.propertyName ∧ d.mapping.map Table.sortByName = d'.mapping.map Table.sortByName := by
  have hmapping {m m' : Table String} (h : (Json.object (m.mapValues .string)).sorted =
      (Json.object (m'.mapValues .string)).sorted) : m.sortByName = m'.sortByName := by
    rw [Json.sorted, Json.sorted, Json.sortedMembers_eq, Json.sortedMembers_eq] at h
    have hstring (m : Table String) : Table.mapValues Json.sorted (m.mapValues .string) = m.mapValues .string := by
      simp [Table.mapValues, Json.sorted]
    rw [hstring, hstring, Table.sortByName_mapValues, Table.sortByName_mapValues] at h
    refine List.map_injective_iff.mpr (fun e e' heq => ?_) (Json.object.inj h)
    obtain ⟨hname, hvalue⟩ := Prod.mk.inj heq
    exact Prod.ext hname (Json.string.inj hvalue)
  have hnodup (d : Discriminator) : (Table.names (("propertyName", Json.string d.propertyName) ::
      (d.mapping.map fun m => ("mapping", Json.object (m.mapValues .string))).toList)).Nodup := by
    cases d.mapping <;> simp [Table.names]
  have hfind := Json.find?_of_sorted (hnodup d) (hnodup d') h
  have hname := hfind "propertyName"
  have hmap := hfind "mapping"
  refine ⟨?_, ?_⟩
  · exact Json.string.inj (Option.some.inj hname)
  · rcases d with ⟨name, _ | m⟩ <;> rcases d' with ⟨name', _ | m'⟩
    · rfl
    · cases hmap
    · cases hmap
    · exact congrArg some (hmapping (Option.some.inj hmap))

/-! The keywords of two nodes that are written alike agree in order, where the schemas below them do. -/

/-- Schemas of the two lists that are written alike up to order are equal in order. -/
def Told (l l' : List Schema) : Prop :=
  ∀ s ∈ l, ∀ s' ∈ l', s.toJson.sorted = s'.toJson.sorted → s.ordered = s'.ordered

/-- What two lists tell, parts of them tell. -/
theorem Told.mono {l l' m m' : List Schema} (h : Told l l') (hm : ∀ s ∈ m, s ∈ l) (hm' : ∀ s ∈ m', s ∈ l') :
    Told m m' :=
  fun s hs s' hs' => h s (hm s hs) s' (hm' s' hs')

/-- Lists of subschemas that are written alike are equal in order. -/
theorem list_ordered_eq {o o' : Option (List Schema)} (told : ∀ l, o = some l → ∀ l', o' = some l' → Told l l')
    (h : (o.map (List.map toJson)).map (List.map Json.sorted) =
      (o'.map (List.map toJson)).map (List.map Json.sorted)) :
    o.map (List.map ordered) = o'.map (List.map ordered) := by
  rw [Option.map_map, Option.map_map] at h
  refine option_map_eq h fun l hl l' hl' heq => ?_
  exact map_eq_of_map_eq (f := Json.sorted ∘ toJson) (by simpa using heq) (told l hl l' hl')

/-- Properties are compared by name, since their order is not written. -/
theorem properties_ordered_eq {o o' : Option (Table Schema)}
    (told : ∀ t, o = some t → ∀ t', o' = some t' → Told t.values t'.values)
    (h : (o.map (Table.mapValues toJson)).map (fun t => (Table.mapValues Json.sorted t).sortByName) =
      (o'.map (Table.mapValues toJson)).map fun t => (Table.mapValues Json.sorted t).sortByName) :
    (o.map (Table.mapValues ordered)).map Table.sortByName =
      (o'.map (Table.mapValues ordered)).map Table.sortByName := by
  -- sorting by name moves past a function on the values, so the values are compared name by name
  have hmap (t : Table Schema) : (Table.mapValues Json.sorted (t.mapValues toJson)).sortByName =
      t.sortByName.mapValues (Json.sorted ∘ toJson) := by
    rw [← Table.sortByName_mapValues]
    simp [Table.mapValues, Function.comp_def]
  have hvalues (t : Table Schema) (s : Schema) (hs : s ∈ Table.values t.sortByName) : s ∈ Table.values t :=
    (t.sortByName_perm.map Prod.snd).subset hs
  simp only [Option.map_map] at h ⊢
  refine option_map_eq h fun t ht t' ht' heq => ?_
  rw [Function.comp_apply, Function.comp_apply, hmap, hmap] at heq
  rw [Function.comp_apply, Function.comp_apply, Table.sortByName_mapValues, Table.sortByName_mapValues]
  exact mapValues_eq_of_mapValues_eq heq ((told t ht t' ht').mono (hvalues t) (hvalues t'))

/-- Whether other properties are allowed is a flag or one subschema. -/
theorem additional_ordered_eq {o o' : Option (Additional Schema)}
    (told : ∀ s, o = some (.schema s) → ∀ s', o' = some (.schema s') →
      s.toJson.sorted = s'.toJson.sorted → s.ordered = s'.ordered)
    (h : (o.map (Additional.map toJson)).map (Json.sorted ∘ Additional.toJson) =
      (o'.map (Additional.map toJson)).map (Json.sorted ∘ Additional.toJson)) :
    o.map (Additional.map ordered) = o'.map (Additional.map ordered) := by
  simp only [Option.map_map] at h
  refine option_map_eq h fun a ha a' ha' heq => ?_
  cases a with
  | allowed x =>
    cases a' with
    | allowed y => exact congrArg Additional.allowed (Json.bool.inj heq)
    | schema t => obtain ⟨_⟩ := t; cases heq
  | schema s =>
    cases a' with
    | allowed y => obtain ⟨_⟩ := s; cases heq
    | schema t => exact congrArg Additional.schema (told s ha t ha' heq)

/-- Literals are sorted already. -/
theorem map_sorted_enumeration {k : Keywords Schema} (hk : k.Spelled) :
    k.enumeration.map (List.map Json.sorted) = k.enumeration := by
  rcases h : k.enumeration with _ | values
  · rfl
  · have hfixed : ∀ v ∈ values, v.sorted = id v := fun v hv => by
      obtain ⟨l, rfl⟩ := hk values h v hv
      exact l.sorted_toJson
    rw [Option.map_some, List.map_congr_left hfixed, List.map_id]

/-- A discriminator has no subschemas, so there is nothing to ask for below it. -/
theorem discriminator_ordered_eq {o o' : Option Discriminator}
    (h : o.map (Json.sorted ∘ Discriminator.toJson) = o'.map (Json.sorted ∘ Discriminator.toJson)) :
    (o.map fun d => { d with mapping := d.mapping.map Table.sortByName }) =
      o'.map fun d => { d with mapping := d.mapping.map Table.sortByName } := by
  refine option_map_eq h fun d _ d' _ heq => ?_
  obtain ⟨hname, hmapping⟩ := discriminator_eq_of_sorted heq
  rw [hname, hmapping]

/-! ### Whole schemas

With the keywords of one node compared, an induction over the nodes compares schemas. Fingerprints and `same` both
follow, since each compares sorted JSON forms of some kind. -/

/-- Where the sorted JSON forms of two schemas agree, the schemas in order do. -/
theorem ordered_eq_of_sorted {a b : Schema} (ha : a.Spelled) (hb : b.Spelled)
    (h : a.toJson.sorted = b.toJson.sorted) : a.ordered = b.ordered := by
  induction a using Schema.induction generalizing b with
  | step k ih =>
    obtain ⟨k'⟩ := b
    -- what is written of the subschemas tells them in order, by induction
    have told : Told k.children k'.children := fun s hs s' hs' =>
      ih s hs (ha.of_mem_children hs) (hb.of_mem_children hs')
    rw [toJson_mk, toJson_mk] at h
    have alike := Keywords.alike_of_sorted h
    have hproperties := properties_ordered_eq (fun t ht t' ht' => told.mono
      (fun s => Keywords.mem_children_of_properties ht) fun s => Keywords.mem_children_of_properties ht')
      alike.properties
    have hadditional := additional_ordered_eq (fun s hs s' hs' => told
      s (Keywords.mem_children_of_additional hs) s' (Keywords.mem_children_of_additional hs')) alike.additional
    have hitems : k.items.map ordered = k'.items.map ordered := by
      have heq := alike.items
      simp only [Keywords.map, Option.map_map] at heq
      exact option_map_eq heq fun s hs s' hs' => told
        s (Keywords.mem_children_of_items hs) s' (Keywords.mem_children_of_items hs')
    have hprefix := list_ordered_eq (fun l hl l' hl' => told.mono
      (fun s => Keywords.mem_children_of_prefixItems hl) fun s => Keywords.mem_children_of_prefixItems hl')
      alike.prefixItems
    have honeOf := list_ordered_eq (fun l hl l' hl' => told.mono
      (fun s => Keywords.mem_children_of_oneOf hl) fun s => Keywords.mem_children_of_oneOf hl') alike.oneOf
    have hallOf := list_ordered_eq (fun l hl l' hl' => told.mono
      (fun s => Keywords.mem_children_of_allOf hl) fun s => Keywords.mem_children_of_allOf hl') alike.allOf
    have henum : k.enumeration = k'.enumeration := by
      rw [← map_sorted_enumeration ha.node, ← map_sorted_enumeration hb.node]
      exact alike.enumeration
    have hdiscriminator := discriminator_ordered_eq alike.discriminator
    rw [ordered_mk, ordered_mk]
    simp only [Keywords.ordered, Keywords.map, Schema.mk.injEq, Keywords.mk.injEq]
    exact ⟨alike.type, alike.format, hproperties, alike.required, hadditional, hitems, hprefix,
      alike.minItems, alike.maxItems, henum, honeOf, hallOf, hdiscriminator, alike.nullable, alike.ref⟩

/-- Putting a schema in order leaves its sorted JSON form. -/
theorem sorted_toJson_ordered (s : Schema) : s.ordered.toJson.sorted = s.toJson.sorted := by
  induction s using Schema.induction with
  | step k ih =>
    rw [ordered_mk, toJson_mk, toJson_mk, ← Keywords.ordered_map, Keywords.map_map]
    refine (Keywords.alike_ordered _).sorted.trans (Keywords.alike_of_map ?_).sorted
    rw [Keywords.map_map, Keywords.map_map]
    exact Keywords.map_congr ih

/-- Where the sorted JSON forms of two schemas agree, the shapes do. -/
theorem canonical_eq_of_sorted {a b : Schema} (ha : a.Spelled) (hb : b.Spelled)
    (h : a.toJson.sorted = b.toJson.sorted) : a.canonical = b.canonical := by
  rw [← canonical_ordered a, ordered_eq_of_sorted ha hb h, canonical_ordered]

/-- Equal fingerprints, equal shapes. A fingerprint is the text of the canonical form, and whole JSON values are told
apart by their texts. -/
theorem canonical_eq_of_fingerprint {a b : Schema} (ha : a.Spelled) (hb : b.Spelled)
    (h : a.fingerprint = b.fingerprint) :
    a.canonical = b.canonical := by
  have hjson : a.canonical.toJson = b.canonical.toJson :=
    Json.compact_injective ha.canonical.whole_toJson hb.canonical.whole_toJson h
  have := canonical_eq_of_sorted ha.canonical hb.canonical (congrArg Json.sorted hjson)
  rwa [canonical_canonical, canonical_canonical] at this

/-- Schemas that are the same have one shape. -/
theorem canonical_eq_of_same {a b : Schema} (ha : a.Spelled) (hb : b.Spelled) (h : a.same b = true) :
    a.canonical = b.canonical :=
  canonical_eq_of_sorted ha hb (of_decide_eq_true h)

/-- Schemas are the same that differ in the order of properties and mappings alone. Required names in another order make
them different, though their shapes agree. -/
theorem same_iff {a b : Schema} (ha : a.Spelled) (hb : b.Spelled) : a.same b = true ↔ a.ordered = b.ordered := by
  rw [same, Json.same, decide_eq_true_iff]
  refine ⟨ordered_eq_of_sorted ha hb, fun h => ?_⟩
  rw [← sorted_toJson_ordered, h, sorted_toJson_ordered]

end Schema

end RouteManifest
