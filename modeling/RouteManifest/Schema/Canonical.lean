import RouteManifest.Json.Printer
import RouteManifest.Schema.Json

/-!
# The canonical form of a schema

Two schemas that differ only in the order of their properties, of a discriminator's mapping, or in the
order and repetition of required names describe the same values. `Schema.canonical` picks one of them, and
`Schema.fingerprint` is its text: the key under which equal shapes are found.

`Schema.same` is finer: it is equality of the JSON forms, where only the order of object members is
ignored, so the order of `required` still counts.
-/

namespace RouteManifest

/-- Inserts a text in front of the first text that is not smaller, unless it is that text. -/
def insertDistinct (s : String) : List String → List String
  | [] => [s]
  | t :: rest => if s < t then s :: t :: rest else if s = t then t :: rest else t :: insertDistinct s rest

/-- The texts in increasing order, each once. -/
def sortDistinct (l : List String) : List String := l.foldr insertDistinct []

/-- One node in canonical order. -/
def Keywords.canonical {σ : Type} (k : Keywords σ) : Keywords σ :=
  { k with
    properties := k.properties.map Table.sortByName
    required := k.required.map sortDistinct
    discriminator := k.discriminator.map fun d => { d with mapping := d.mapping.map Table.sortByName } }

namespace Schema

/-- The same schema with properties, mappings and required names sorted at every level, and each required
name once. -/
def canonical : Schema → Schema := fold fun k => .mk k.canonical

/-- The text of the canonical form. -/
def fingerprint (s : Schema) : String := s.canonical.toJson.compact

/-- Equality of schemas: the order of properties and of mappings does not count, the order of lists does. -/
def same (a b : Schema) : Bool := a.toJson.same b.toJson

end Schema

end RouteManifest
