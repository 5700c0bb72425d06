import Mathlib.Tactic.MkIffOfInductiveProp
import RouteManifest.Proofs.Schema.Canonical
import RouteManifest.Registry
import RouteManifest.TypeExpr.Catalog

/-!
# The values of types and of schemas

What it means that a JSON value belongs to a type, and that it validates against a schema. Both are the least
relations with the rules one expects: a type or a schema that comes back to itself without taking anything off
the value has no values that way.

An expression alone is no type yet. What its names mean depends on the file it is written in, and what its
type parameters mean on who uses the declaration around it; `Closure` keeps both with it.

The two meanings are independent of how schemas are computed. `format` and `discriminator` say nothing about a
value here, and neither does the width of a number.
-/

namespace RouteManifest

/-! ## Types

A value takes one layer off an expression: an object has members that belong to the types of its properties, and a name
has the values of what it stands for. Names that stand for themselves have no rule to begin with. -/

/-- The values of a scalar. -/
def Primitive.Admits (p : Primitive) (v : Json) : Prop :=
  match p with
  | .string | .char | .uuid | .dateTime | .date => ∃ text, v = .string text
  | .i8 | .i16 | .i32 | .i64 | .i128 | .u8 | .u16 | .u32 | .u64 | .u128 => ∃ n, v = .int n
  | .f32 | .f64 => (∃ n, v = .int n) ∨ ∃ x, v = .float x
  | .bool => ∃ b, v = .bool b
  | .null => v = .null
  | .any => True

/-- An expression with the file it is written in and what its type parameters stand for. -/
inductive Closure where
  | mk (node : TypeExpr) (scope : List (String × Closure)) (unit : Path)

namespace Closure

/-- The expression. -/
def node : Closure → TypeExpr
  | .mk e _ _ => e

/-- Another expression in the same place. -/
def within : Closure → TypeExpr → Closure
  | .mk _ scope unit, e => .mk e scope unit

end Closure

namespace Catalog

/-- The body of a declaration that is applied to arguments. -/
def applied? (c : Catalog) (i : Fin c.size) (args : List Closure) : Closure :=
  .mk (c.get i).body (Table.ofEntries ((c.get i).typeParams.zip args)) (c.get i).location.unit

/-- What a declared name stands for that is written in a file with arguments. -/
def declared? (c : Catalog) (name : String) (args : List Closure) (unit : Path) : Option Closure :=
  (c.lookup? name unit).bind fun i =>
    if (c.get i).typeParams.length = args.length then some (c.applied? i args) else none

end Catalog

/-- What a name or a type parameter stands for. -/
def Closure.target? (c : Catalog) : Closure → Option Closure
  | .mk (.reference name) scope unit => (Table.find? scope name).or (c.declared? name [] unit)
  | .mk (.generic base []) scope unit => (Table.find? scope base).or (c.declared? base [] unit)
  | .mk (.generic base args) scope unit => c.declared? base (args.map fun e => .mk e scope unit) unit
  | .mk (.typeParameter name) scope _ => Table.find? scope name
  | _ => none

/-- A value belongs to a type. -/
inductive Belongs (c : Catalog) : Closure → Json → Prop where
  | primitive {kind scope unit v} : kind.Admits v → Belongs c (.mk (.primitive kind) scope unit) v
  /-- members of a property's name have the property's type, required names are there, and a closed object has
  no other names -/
  | object {properties closed scope unit members} :
      (∀ p ∈ properties, ∀ m ∈ members, m.1 = p.1 → Belongs c (.mk p.2.node scope unit) m.2) →
      (∀ p ∈ properties, p.2.required = true → p.1 ∈ Table.names members) →
      (closed = true → ∀ m ∈ members, m.1 ∈ Table.names properties) →
      Belongs c (.mk (.object properties closed) scope unit) (.object members)
  | map {value scope unit members} :
      (∀ m ∈ members, Belongs c (.mk value scope unit) m.2) → Belongs c (.mk (.map value) scope unit) (.object members)
  | array {element scope unit items} :
      (∀ v ∈ items, Belongs c (.mk element scope unit) v) → Belongs c (.mk (.array element) scope unit) (.array items)
  | tuple {elements scope unit items} :
      elements.length = items.length → (∀ p ∈ elements.zip items, Belongs c (.mk p.1 scope unit) p.2) →
      Belongs c (.mk (.tuple elements) scope unit) (.array items)
  | union {variants scope unit variant v} :
      variant ∈ variants → Belongs c (.mk variant scope unit) v → Belongs c (.mk (.union variants) scope unit) v
  | intersection {members scope unit v} :
      (∀ e ∈ members, Belongs c (.mk e scope unit) v) → Belongs c (.mk (.intersection members) scope unit) v
  | enumeration {literals scope unit l} :
      l ∈ literals → Belongs c (.mk (.enumeration literals) scope unit) l.toJson
  | literal {l scope unit} : Belongs c (.mk (.literal l) scope unit) l.toJson
  | named {cl target v} : cl.target? c = some target → Belongs c target v → Belongs c cl v

/-! ## Schemas

`Keywords.Met` is what one node asks of a value, with what its subschemas admit as a parameter. It is monotone in that
parameter, so there is a least relation that satisfies it at every node, and that relation is validation. -/

/-- The values of a schema type. -/
def Json.HasType (type : String) : Json → Prop
  | .null => type = "null"
  | .bool _ => type = "boolean"
  | .int _ => type = "integer" ∨ type = "number"
  | .float _ => type = "number"
  | .string _ => type = "string"
  | .array _ => type = "array"
  | .object _ => type = "object"

/-- What the keywords of a node other than `nullable` ask of a value, if `ok` is what subschemas admit and
`target?` what ids stand for. -/
@[mk_iff]
structure Keywords.Met (target? : String → Option Schema) (ok : Schema → Json → Prop) (k : Keywords Schema)
    (v : Json) : Prop where
  type : ∀ type, k.type = some type → v.HasType type
  properties : ∀ members, v = .object members → ∀ p ∈ k.properties.getD [], ∀ m ∈ members, m.1 = p.1 → ok p.2 m.2
  required : ∀ members, v = .object members → ∀ name ∈ k.required.getD [], name ∈ Table.names members
  /-- the members that no property is declared for -/
  additional : ∀ members, v = .object members → ∀ m ∈ members, m.1 ∉ Table.names (k.properties.getD []) →
    k.additional ≠ some (.allowed false) ∧ ∀ s, k.additional = some (.schema s) → ok s m.2
  /-- the items that no position is declared for -/
  items : ∀ items, v = .array items → ∀ w ∈ items.drop (k.prefixItems.getD []).length, ∀ s, k.items = some s → ok s w
  prefixItems : ∀ items, v = .array items → ∀ p ∈ (k.prefixItems.getD []).zip items, ok p.1 p.2
  minItems : ∀ items, v = .array items → ∀ n, k.minItems = some n → n ≤ items.length
  maxItems : ∀ items, v = .array items → ∀ n, k.maxItems = some n → items.length ≤ n
  enumeration : ∀ values, k.enumeration = some values → v ∈ values
  oneOf : ∀ alternatives, k.oneOf = some alternatives → ∃ s ∈ alternatives, ok s v
  allOf : ∀ parts, k.allOf = some parts → ∀ s ∈ parts, ok s v
  ref : ∀ id, k.ref = some id → ∃ s, target? id = some s ∧ ok s v

/-- A value that a node admits: null if it is nullable, and what its keywords ask for. -/
def Keywords.Admits (target? : String → Option Schema) (ok : Schema → Json → Prop) (k : Keywords Schema)
    (v : Json) : Prop :=
  k.nullable = some true ∧ v = .null ∨ k.Met target? ok v

section Monotone

variable {target? : String → Option Schema} {ok ok' : Schema → Json → Prop} {k : Keywords Schema} {v : Json}

theorem Keywords.Met.mono (h : ∀ s w, ok s w → ok' s w) (hk : k.Met target? ok v) : k.Met target? ok' v where
  type := hk.type
  properties := fun members hv p hp m hm hname => h _ _ (hk.properties members hv p hp m hm hname)
  required := hk.required
  additional := fun members hv m hm hname =>
    ⟨(hk.additional members hv m hm hname).1, fun s hs => h _ _ ((hk.additional members hv m hm hname).2 s hs)⟩
  items := fun items hv w hw s hs => h _ _ (hk.items items hv w hw s hs)
  prefixItems := fun items hv p hp => h _ _ (hk.prefixItems items hv p hp)
  minItems := hk.minItems
  maxItems := hk.maxItems
  enumeration := hk.enumeration
  oneOf := fun alternatives hs => (hk.oneOf alternatives hs).imp fun _ hs => ⟨hs.1, h _ _ hs.2⟩
  allOf := fun parts hs s hmem => h _ _ (hk.allOf parts hs s hmem)
  ref := fun id hid => (hk.ref id hid).imp fun _ hs => ⟨hs.1, h _ _ hs.2⟩

theorem Keywords.Admits.mono (h : ∀ s w, ok s w → ok' s w) (hk : k.Admits target? ok v) : k.Admits target? ok' v :=
  hk.imp_right fun hk => hk.mono h

end Monotone

/-- A value validates against a schema, with the entries of a registry for its references: the least relation in which
a schema has the values that its keywords admit. -/
inductive Validates (r : Registry) : Schema → Json → Prop
  | intro {ok : Schema → Json → Prop} {s : Schema} {v : Json} (admits : s.keywords.Admits r.get? ok v)
      (validates : ∀ t w, ok t w → Validates r t w) : Validates r s v

/-- A value validates just if the node admits it, where subschemas admit what validates against them. -/
theorem validates_iff {r : Registry} {s : Schema} {v : Json} :
    Validates r s v ↔ s.keywords.Admits r.get? (Validates r) v := by
  refine ⟨fun hv => ?_, fun hadmits => .intro hadmits fun _ _ hw => hw⟩
  cases hv with
  | intro hadmits hok => exact hadmits.mono hok

/-- What holds of every value that the keywords admit, once it holds of the values they ask about, holds of every value
that validates. -/
theorem Validates.least {r : Registry} {P : Schema → Json → Prop}
    (h : ∀ s v, s.keywords.Admits r.get? P v → P s v) {s : Schema} {v : Json} (hv : Validates r s v) : P s v := by
  induction hv with
  | intro hadmits _ ih => exact h _ _ (hadmits.mono ih)

/-! ## Shapes

Schemas of one shape have the same values. -/

section Shape

variable {α : Type} {f : Schema → α}

/-- Of two lists with the same images every element has one in the other list. -/
theorem exists_mem_of_map_eq {l l' : List Schema} (h : l.map f = l'.map f) {t : Schema} (ht : t ∈ l') :
    ∃ s ∈ l, f s = f t := by
  have : f t ∈ l.map f := by
    rw [h]
    exact List.mem_map_of_mem ht
  exact List.mem_map.mp this

/-- Of two tables that are sorted to the same images every entry has one in the other table, under its name. -/
theorem exists_mem_of_sortByName_eq {t t' : Table Schema}
    (h : (t.mapValues f).sortByName = (t'.mapValues f).sortByName) {e : String × Schema} (he : e ∈ t') :
    ∃ e' ∈ t, e'.1 = e.1 ∧ f e'.2 = f e.2 := by
  have hmem : (e.1, f e.2) ∈ t.mapValues f := by
    rw [← (Table.sortByName_perm (t.mapValues f)).mem_iff, h, (Table.sortByName_perm _).mem_iff]
    exact List.mem_map.mpr ⟨e, he, rfl⟩
  obtain ⟨e', he', heq⟩ := List.mem_map.mp hmem
  exact ⟨e', he', Prod.mk.inj heq⟩

/-- Of two lists with the same images beside one third list every pair has one beside the same element. -/
theorem exists_mem_zip_of_map_eq {β : Type} {l l' : List Schema} (h : l.map f = l'.map f) {items : List β}
    {p : Schema × β} (hp : p ∈ l'.zip items) : ∃ s, (s, p.2) ∈ l.zip items ∧ f s = f p.1 := by
  induction l generalizing l' items with
  | nil =>
    cases l' with
    | nil => cases hp
    | cons t rest' => cases h
  | cons s rest ih =>
    cases l' with
    | nil => cases h
    | cons t rest' =>
      cases items with
      | nil => cases hp
      | cons x items =>
        obtain ⟨hhead, htail⟩ := List.cons.inj h
        rcases List.mem_cons.mp hp with rfl | hp
        · exact ⟨s, List.mem_cons_self, hhead⟩
        · obtain ⟨u, hu, heq⟩ := ih htail hp
          exact ⟨u, List.mem_cons_of_mem _ hu, heq⟩

end Shape

section Shape

variable {target? : String → Option Schema} {ok ok' : Schema → Json → Prop} {k k' : Keywords Schema} {v : Json}

/-! ### Nodes of one shape

Only what validation looks at is listed, and for tables and lists in the form in which it is looked at. -/

/-- What two nodes of one shape have in common. -/
structure Keywords.SameShape (k k' : Keywords Schema) : Prop where
  type : k.type = k'.type
  properties : ∀ p' ∈ k'.properties.getD [], ∃ p ∈ k.properties.getD [], p.1 = p'.1 ∧ p.2.canonical = p'.2.canonical
  names : ∀ p ∈ k.properties.getD [], p.1 ∈ Table.names (k'.properties.getD [])
  required : ∀ name ∈ k'.required.getD [], name ∈ k.required.getD []
  additional : k.additional.map (Additional.map Schema.canonical) = k'.additional.map (Additional.map Schema.canonical)
  items : k.items.map Schema.canonical = k'.items.map Schema.canonical
  prefixItems : (k.prefixItems.getD []).map Schema.canonical = (k'.prefixItems.getD []).map Schema.canonical
  minItems : k.minItems = k'.minItems
  maxItems : k.maxItems = k'.maxItems
  enumeration : k.enumeration = k'.enumeration
  oneOf : k.oneOf.map (List.map Schema.canonical) = k'.oneOf.map (List.map Schema.canonical)
  allOf : k.allOf.map (List.map Schema.canonical) = k'.allOf.map (List.map Schema.canonical)
  nullable : k.nullable = k'.nullable
  ref : k.ref = k'.ref

/-- Nodes of one canonical form have everything in common that validation looks at. -/
theorem Keywords.sameShape (h : (Schema.mk k).canonical = (Schema.mk k').canonical) : k.SameShape k' := by
  rw [Schema.canonical_mk, Schema.canonical_mk] at h
  simp only [Keywords.canonical, Keywords.map, Schema.mk.injEq, Keywords.mk.injEq] at h
  obtain ⟨htype, -, hproperties, hrequired, hadditional, hitems, hprefix, hmin, hmax, henum, honeOf, hallOf, -,
    hnullable, href⟩ := h
  have hsorted : (Table.mapValues Schema.canonical (k.properties.getD [])).sortByName =
      (Table.mapValues Schema.canonical (k'.properties.getD [])).sortByName := by
    have hget (o : Option (Table Schema)) : (Table.mapValues Schema.canonical (o.getD [])).sortByName =
        ((o.map (Table.mapValues Schema.canonical)).map Table.sortByName).getD [] := by cases o <;> rfl
    rw [hget, hget, hproperties]
  refine ⟨htype, fun p' hp' => exists_mem_of_sortByName_eq hsorted hp', fun p hp => ?_, fun name hname => ?_,
    hadditional, hitems, ?_, hmin, hmax, henum, honeOf, hallOf, hnullable, href⟩
  · obtain ⟨p', hp', hname, -⟩ := exists_mem_of_sortByName_eq hsorted.symm hp
    rw [← hname]
    exact List.mem_map_of_mem hp'
  · have hget (o : Option (List String)) : name ∈ (o.map sortDistinct).getD [] ↔ name ∈ o.getD [] := by
      cases o with
      | none => exact Iff.rfl
      | some l => exact mem_sortDistinct
    rw [← hget, hrequired, hget]
    exact hname
  · have hget (o : Option (List Schema)) :
        (o.getD []).map Schema.canonical = (o.map (List.map Schema.canonical)).getD [] := by cases o <;> rfl
    rw [hget, hget, hprefix]

/-- A node asks for what any node of the same shape asks for. -/
theorem Keywords.SameShape.met (h : k.SameShape k')
    (hok : ∀ s t w, s.canonical = t.canonical → ok s w → ok' t w) (hk : k.Met target? ok v) :
    k'.Met target? ok' v where
  type := by
    rw [← h.type]
    exact hk.type
  properties := by
    intro members hv p' hp' m hm hname
    obtain ⟨p, hp, hpp', hshape⟩ := h.properties p' hp'
    exact hok _ _ _ hshape (hk.properties members hv p hp m hm (hname.trans hpp'.symm))
  required := fun members hv name hname => hk.required members hv name (h.required name hname)
  additional := by
    intro members hv m hm hnew
    -- a member that is not declared here is not declared there, where the properties have the same names
    have hold : m.1 ∉ Table.names (k.properties.getD []) := fun hmem => by
      obtain ⟨p, hp, heq⟩ := List.mem_map.mp hmem
      exact hnew (heq ▸ h.names p hp)
    obtain ⟨hopen, hschema⟩ := hk.additional members hv m hm hold
    have hshape := h.additional
    refine ⟨fun hclosed => ?_, fun t ht => ?_⟩
    · rw [hclosed] at hshape
      obtain ⟨a, ha, hmap⟩ := Option.map_eq_some_iff.mp hshape
      cases a with
      | allowed b =>
        cases hmap
        exact hopen ha
      | schema s => cases hmap
    · rw [ht] at hshape
      obtain ⟨a, ha, hmap⟩ := Option.map_eq_some_iff.mp hshape
      cases a with
      | allowed b => cases hmap
      | schema s => exact hok _ _ _ (Additional.schema.inj hmap) (hschema s ha)
  items := by
    intro items hv w hw s hs
    have hlength : (k.prefixItems.getD []).length = (k'.prefixItems.getD []).length := by
      simpa using congrArg List.length h.prefixItems
    have hsome := h.items
    rw [hs] at hsome
    obtain ⟨t, ht, hshape⟩ := Option.map_eq_some_iff.mp hsome
    exact hok _ _ _ hshape (hk.items items hv w (by rwa [hlength]) t ht)
  prefixItems := by
    intro items hv p hp
    obtain ⟨s, hs, hshape⟩ := exists_mem_zip_of_map_eq h.prefixItems hp
    exact hok _ _ _ hshape (hk.prefixItems items hv _ hs)
  minItems := by
    rw [← h.minItems]
    exact hk.minItems
  maxItems := by
    rw [← h.maxItems]
    exact hk.maxItems
  enumeration := by
    rw [← h.enumeration]
    exact hk.enumeration
  oneOf := by
    intro l' hl'
    have hsome := h.oneOf
    rw [hl'] at hsome
    obtain ⟨l, hl, hmap⟩ := Option.map_eq_some_iff.mp hsome
    obtain ⟨s, hs, hsv⟩ := hk.oneOf l hl
    obtain ⟨t, ht, hshape⟩ := exists_mem_of_map_eq hmap.symm hs
    exact ⟨t, ht, hok _ _ _ hshape.symm hsv⟩
  allOf := by
    intro l' hl' t ht
    have hsome := h.allOf
    rw [hl'] at hsome
    obtain ⟨l, hl, hmap⟩ := Option.map_eq_some_iff.mp hsome
    obtain ⟨s, hs, hshape⟩ := exists_mem_of_map_eq hmap ht
    exact hok _ _ _ hshape (hk.allOf l hl s hs)
  ref := by
    intro id hid
    rw [← h.ref] at hid
    obtain ⟨s, hs, hsv⟩ := hk.ref id hid
    exact ⟨s, hs, hok _ _ _ rfl hsv⟩

/-- Nodes of one shape admit the same, if that is so of their subschemas. -/
theorem Keywords.Admits.of_shape (h : (Schema.mk k).canonical = (Schema.mk k').canonical)
    (hok : ∀ s t w, s.canonical = t.canonical → ok s w → ok' t w) (hk : k.Admits target? ok v) :
    k'.Admits target? ok' v := by
  have hshape := Keywords.sameShape h
  rcases hk with ⟨hnull, hv⟩ | hk
  · exact Or.inl ⟨hshape.nullable ▸ hnull, hv⟩
  · exact Or.inr (hshape.met hok hk)

end Shape

/-- A schema admits what any schema of the same shape admits. -/
theorem Validates.of_shape {r : Registry} {s t : Schema} {v : Json} (h : s.canonical = t.canonical)
    (hv : Validates r s v) : Validates r t v := by
  refine Validates.least (P := fun s v => ∀ t : Schema, s.canonical = t.canonical → Validates r t v) ?_ hv t h
  intro s v step t h
  obtain ⟨k⟩ := s
  obtain ⟨k'⟩ := t
  exact validates_iff.mpr (Keywords.Admits.of_shape h (fun s t w hst hs => hs t hst) step)

end RouteManifest
