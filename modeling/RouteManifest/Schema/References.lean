import RouteManifest.Schema.Basic

/-!
# References between schemas

A schema points at other schemas in two places: by its `$ref`, and by the targets of a discriminator's
mapping. `Schema.refIds` lists both over the whole tree, node before subschemas; `Schema.mapRefs` rewrites
the same places. `Schema.references` asks for a `$ref` alone.
-/

namespace RouteManifest

namespace Keywords

variable {σ : Type}

/-- The ids that this node itself points at, the `$ref` first. -/
def ownRefs (k : Keywords σ) : List String :=
  k.ref.toList ++ ((k.discriminator.bind Discriminator.mapping).map Table.values).getD []

/-- Rewrites the ids that this node itself points at. -/
def mapOwnRefs (f : String → String) (k : Keywords σ) : Keywords σ :=
  { k with
    ref := k.ref.map f
    discriminator := k.discriminator.map fun d => { d with mapping := d.mapping.map (Table.mapValues f) } }

end Keywords

namespace Schema

/-- Whether a `$ref` anywhere inside the schema holds the id. -/
def references (id : String) : Schema → Bool := fold fun k => k.ref == some id || k.children.contains true

/-- Every id that the schema points at, in the order of the nodes. -/
def refIds : Schema → List String := fold fun k => k.ownRefs ++ k.children.flatten

/-- Rewrites every id that the schema points at. -/
def mapRefs (f : String → String) : Schema → Schema := fold fun k => .mk (k.mapOwnRefs f)

end Schema

end RouteManifest
