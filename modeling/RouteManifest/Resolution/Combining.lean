import RouteManifest.Registry
import RouteManifest.Text.Words
import RouteManifest.TypeExpr.Basic

/-!
# Combining schemas

What becomes of schemas that are already resolved when they meet in a union or an intersection.

* A union of literals of one kind is an enumeration; any other union is a `oneOf` of its distinct
  alternatives. If the alternatives are objects, and some required property has a different single literal
  in each of them, that property is the union's discriminator.
* An intersection of objects that agree on their common properties is one object; any other intersection
  is an `allOf`.
-/

namespace RouteManifest

namespace Schema

/-! ## Scalars and literals -/

/-- The schema of a scalar. -/
def ofPrimitive (p : Primitive) : Schema := .mk { type := p.schemaType?, format := p.format? }

/-- The schema type that all literals share; none if they are of several kinds, or there are none. -/
def commonType? (literals : List Literal) : Option String :=
  literals.head?.bind fun first =>
    if literals.all fun l => l.schemaType == first.schemaType then some first.schemaType else none

/-- The schema that admits exactly the literals. -/
def ofLiterals (literals : List Literal) : Schema :=
  .mk { type := commonType? literals, enumeration := some (literals.map Literal.toJson) }

/-- The schema or null. A schema with a `$ref` is wrapped, since keywords beside a `$ref` say nothing. -/
def orNull (s : Schema) : Schema :=
  if s.keywords.ref.isSome then .mk { oneOf := some [s], nullable := some true }
  else .mk { s.keywords with nullable := some true }

/-- A name for a schema inside a longer name. -/
def displayName : Schema → String := fun s =>
  let algebra (k : Keywords (String × Schema)) : String × Schema :=
    let self : Schema := .mk (k.map Prod.snd)
    let name :=
      match self.refId? with
      | some id => id
      | none =>
        match k.type with
        | some "array" =>
          match k.items with
          | some (items, _) => "Array_" ++ items
          | none => "Array"
        | some "" => "Any"
        | some other => Text.upperCamel other
        | none => "Any"
    (name, self)
  (s.fold algebra).1

end Schema

/-! ## Unions -/

namespace TypeExpr

/-- The variants of a union with unions among them replaced by their own variants. -/
def flatten : List TypeExpr → List TypeExpr
  | [] => []
  | .union inner :: rest => flatten inner ++ flatten rest
  | variant :: rest => variant :: flatten rest

/-- The literals of a literal type. -/
def literals? : TypeExpr → Option (List Literal)
  | .literal value => some [value]
  | .enumeration values => some values
  | _ => none

/-- The distinct literals of variants that are all literals of one kind. -/
def commonLiterals? (variants : List TypeExpr) : Option (List Literal) :=
  (variants.mapM literals?).bind fun lists =>
    if (Schema.commonType? lists.flatten).isSome then some lists.flatten.eraseDups else none

end TypeExpr

/-- The first of each fingerprint. -/
def distinctShapes (seen : List String) : List Schema → List Schema
  | [] => []
  | s :: rest =>
    if seen.contains s.fingerprint then distinctShapes seen rest
    else s :: distinctShapes (s.fingerprint :: seen) rest

namespace Registry

/-- The object behind a schema: itself, or the schema of the id that it is nothing but a `$ref` to. -/
def objectView? (r : Registry) (s : Schema) : Option Schema :=
  (match s.refId? with
    | some id => r.get? id
    | none => some s).bind fun target => if target.isObject then some target else none

end Registry

namespace Schema

/-- The text of a literal as a key of a mapping. -/
def literalKey : Json → String
  | .string text => text
  | other => other.compact

/-- The single literal of a required property of an object. -/
def tag? (property : String) (object : Schema) : Option Json :=
  if (object.keywords.required.getD []).contains property then
    (Table.find? (object.keywords.properties.getD []) property).bind singleLiteral?
  else none

/-- Whether no two values are the same. -/
def allDifferent : List Json → Bool
  | [] => true
  | v :: rest => rest.all (fun w => !v.same w) && allDifferent rest

/-- From the literal of each alternative to its id; `none` unless every alternative has an id and a key of
its own. -/
def mapping? (alternatives : List Schema) (tags : List Json) : Option (Table String) :=
  let entries := (alternatives.zip tags).filterMap fun (a, tag) => a.refId?.map fun id => (literalKey tag, id)
  let table := Table.ofEntries entries
  if table.length = alternatives.length then some table else none

end Schema

/-- The first property, in the order of the first alternative, that tells all alternatives apart. -/
def Registry.discriminator? (r : Registry) (alternatives : List Schema) : Option Discriminator := do
  let objects ← alternatives.mapM r.objectView?
  let first ← objects.head?
  let properties ← first.keywords.properties
  (Table.names properties).findSome? fun property => do
    let tags ← objects.mapM (Schema.tag? property)
    if Schema.allDifferent tags then some ⟨property, Schema.mapping? alternatives tags⟩ else none

/-- The union of alternatives: the one there is, or a `oneOf`. -/
def Registry.oneOf (r : Registry) (alternatives : List Schema) : Schema :=
  match distinctShapes [] alternatives with
  | [single] => single
  | several => .mk { oneOf := some several, discriminator := r.discriminator? several }

/-! ## Intersections -/

namespace Schema

/-- Adds properties to those collected so far; `none` if one of them is there with another schema. -/
def addProperties (collected : Table Schema) : Table Schema → Option (Table Schema)
  | [] => some collected
  | (name, schema) :: rest =>
    match collected.find? name with
    | some existing => if existing.same schema then addProperties collected rest else none
    | none => addProperties (collected.insert name schema) rest

/-- Adds names to those collected so far, each once. -/
def addNames (collected : List String) : List String → List String
  | [] => collected
  | name :: rest =>
    if collected.contains name then addNames collected rest else addNames (collected ++ [name]) rest

end Schema

/-- The properties and required names of objects taken together; `none` if a part is no object, is nullable,
or disagrees with the others. -/
def Registry.mergeParts (r : Registry) (properties : Table Schema) (required : List String) :
    List Schema → Option (Table Schema × List String)
  | [] => some (properties, required)
  | part :: rest => do
    let object ← r.objectView? part
    if object.isNullable then none
    else
      let properties ← Schema.addProperties properties (object.keywords.properties.getD [])
      r.mergeParts properties (Schema.addNames required (object.keywords.required.getD [])) rest

/-- The intersection of parts: the one there is, one object, or an `allOf`. -/
def Registry.allOf (r : Registry) (parts : List Schema) : Schema :=
  match parts with
  | [single] => single
  | parts =>
    match r.mergeParts [] [] parts with
    | some (properties, required) => .object properties required false
    | none => .mk { allOf := some parts }

end RouteManifest
