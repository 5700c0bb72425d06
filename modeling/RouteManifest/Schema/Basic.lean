import RouteManifest.Json.Basic

/-!
# Schemas

A schema is a finite tree of *keywords*: one record of optional keywords per node, in which some keywords
hold further schemas. `Keywords σ` is one such record over a type `σ` of subschemas, and `Schema` ties the
knot.

Everything that walks a schema is a `Schema.fold`: it says what to do at one node when the work below is
already done. `Schema.fold_mk` unfolds a fold by one node and `Schema.induction` is the matching way to
prove something about all schemas, so no walk needs a recursion of its own.

A `$ref` holds the bare id of a registered schema. Turning ids into pointers into a document is left to
whoever writes the document.
-/

namespace RouteManifest

/-- What an object may hold beside its declared properties. -/
inductive Additional (σ : Type) where
  /-- everything or nothing -/
  | allowed (value : Bool)
  /-- values of one schema -/
  | schema (value : σ)
deriving DecidableEq, Repr

/-- The property that tells the alternatives of a union apart. -/
structure Discriminator where
  propertyName : String
  /-- from the text of a tag to the id of its alternative -/
  mapping : Option (Table String) := none
deriving DecidableEq, Repr

/-- The keywords of one schema over subschemas of type `σ`, all optional. -/
structure Keywords (σ : Type) where
  type : Option String := none
  format : Option String := none
  properties : Option (List (String × σ)) := none
  /-- names of required properties -/
  required : Option (List String) := none
  additional : Option (Additional σ) := none
  items : Option σ := none
  /-- schemas by position, for tuples -/
  prefixItems : Option (List σ) := none
  minItems : Option Nat := none
  maxItems : Option Nat := none
  /-- the admitted values -/
  enumeration : Option (List Json) := none
  oneOf : Option (List σ) := none
  allOf : Option (List σ) := none
  discriminator : Option Discriminator := none
  nullable : Option Bool := none
  /-- id of another schema -/
  ref : Option String := none
deriving DecidableEq

/-- A schema: keywords over further schemas. -/
inductive Schema where
  | mk (keywords : Keywords Schema)

namespace Additional

variable {σ τ : Type}

/-- Applies a function to the subschema. -/
def map (f : σ → τ) : Additional σ → Additional τ
  | .allowed b => .allowed b
  | .schema s => .schema (f s)

/-- The subschema, if there is one. -/
def children : Additional σ → List σ
  | .allowed _ => []
  | .schema s => [s]

end Additional

namespace Keywords

variable {σ τ υ : Type}

/-- Applies a function to every subschema. -/
def map (f : σ → τ) (k : Keywords σ) : Keywords τ where
  type := k.type
  format := k.format
  properties := k.properties.map (Table.mapValues f)
  required := k.required
  additional := k.additional.map (Additional.map f)
  items := k.items.map f
  prefixItems := k.prefixItems.map (List.map f)
  minItems := k.minItems
  maxItems := k.maxItems
  enumeration := k.enumeration
  oneOf := k.oneOf.map (List.map f)
  allOf := k.allOf.map (List.map f)
  discriminator := k.discriminator
  nullable := k.nullable
  ref := k.ref

/-- The subschemas: properties, additional properties, items, positions, alternatives, parts. -/
def children (k : Keywords σ) : List σ :=
  (k.properties.map Table.values).getD [] ++ (k.additional.map Additional.children).getD []
    ++ k.items.toList ++ k.prefixItems.getD [] ++ k.oneOf.getD [] ++ k.allOf.getD []

/-- Whether no keyword is present. -/
def isEmpty (k : Keywords σ) : Bool :=
  k.type.isNone && k.format.isNone && k.properties.isNone && k.required.isNone && k.additional.isNone
    && k.items.isNone && k.prefixItems.isNone && k.minItems.isNone && k.maxItems.isNone
    && k.enumeration.isNone && k.oneOf.isNone && k.allOf.isNone && k.discriminator.isNone
    && k.nullable.isNone && k.ref.isNone

end Keywords

namespace Schema

/-- The keywords of the top node. -/
def keywords : Schema → Keywords Schema
  | .mk k => k

/-! ## Folding -/

variable {α : Type}

mutual
/-- Computes a value bottom up: `alg` is given the keywords of a node with the values of its subschemas. -/
def fold (alg : Keywords α → α) : Schema → α
  | .mk ⟨type, format, properties, required, additional, items, prefixItems, minItems, maxItems,
      enumeration, oneOf, allOf, discriminator, nullable, ref⟩ =>
    alg ⟨type, format, foldProperties alg properties, required, foldAdditional alg additional,
      foldItems alg items, foldOptional alg prefixItems, minItems, maxItems, enumeration,
      foldOptional alg oneOf, foldOptional alg allOf, discriminator, nullable, ref⟩

/-- The fold of the properties. -/
def foldProperties (alg : Keywords α → α) : Option (Table Schema) → Option (Table α)
  | none => none
  | some entries => some (foldTable alg entries)

/-- The fold of a table. -/
def foldTable (alg : Keywords α → α) : Table Schema → Table α
  | [] => []
  | (name, s) :: rest => (name, fold alg s) :: foldTable alg rest

/-- The fold of the additional properties. -/
def foldAdditional (alg : Keywords α → α) : Option (Additional Schema) → Option (Additional α)
  | none => none
  | some (.allowed b) => some (.allowed b)
  | some (.schema s) => some (.schema (fold alg s))

/-- The fold of the items. -/
def foldItems (alg : Keywords α → α) : Option Schema → Option α
  | none => none
  | some s => some (fold alg s)

/-- The fold of an optional list. -/
def foldOptional (alg : Keywords α → α) : Option (List Schema) → Option (List α)
  | none => none
  | some list => some (foldList alg list)

/-- The fold of a list. -/
def foldList (alg : Keywords α → α) : List Schema → List α
  | [] => []
  | s :: rest => fold alg s :: foldList alg rest
end

theorem foldTable_eq (alg : Keywords α → α) (t : Table Schema) :
    foldTable alg t = t.mapValues (fold alg) := by
  induction t with
  | nil => rfl
  | cons e rest ih => obtain ⟨n, s⟩ := e; simpa [foldTable, Table.mapValues] using ih

theorem foldList_eq (alg : Keywords α → α) (l : List Schema) : foldList alg l = l.map (fold alg) := by
  induction l with
  | nil => rfl
  | cons s rest ih => simp [foldList, ih]

/-- A fold does its work at a node on the results of its subschemas. -/
theorem fold_mk (alg : Keywords α → α) (k : Keywords Schema) :
    fold alg (.mk k) = alg (k.map (fold alg)) := by
  obtain ⟨type, format, properties, required, additional, items, prefixItems, minItems, maxItems,
    enumeration, oneOf, allOf, discriminator, nullable, ref⟩ := k
  have h1 : foldProperties alg properties = properties.map (Table.mapValues (fold alg)) := by
    cases properties <;> simp [foldProperties, foldTable_eq]
  have h2 : foldAdditional alg additional = additional.map (Additional.map (fold alg)) := by
    rcases additional with _ | (_ | _) <;> simp [foldAdditional, Additional.map]
  have h3 : foldItems alg items = items.map (fold alg) := by cases items <;> simp [foldItems]
  have h4 : ∀ l : Option (List Schema), foldOptional alg l = l.map (List.map (fold alg)) := by
    intro l; cases l <;> simp [foldOptional, foldList_eq]
  simp [fold, Keywords.map, h1, h2, h3, h4]

/-! ## Induction -/

private theorem sizeOf_lt_of_mem_values {t : Table Schema} {s : Schema} (h : s ∈ t.values) :
    sizeOf s < sizeOf t := by
  induction t with
  | nil => simp [Table.values] at h
  | cons e rest ih =>
    obtain ⟨n, v⟩ := e
    simp only [Table.values, List.map_cons, List.mem_cons] at h
    simp only [List.cons.sizeOf_spec, Prod.mk.sizeOf_spec]
    rcases h with rfl | h
    · omega
    · have := ih h
      omega

theorem sizeOf_lt_of_mem_children {k : Keywords Schema} {s : Schema} (h : s ∈ k.children) :
    sizeOf s < sizeOf (Schema.mk k) := by
  obtain ⟨type, format, properties, required, additional, items, prefixItems, minItems, maxItems,
    enumeration, oneOf, allOf, discriminator, nullable, ref⟩ := k
  simp only [Keywords.children, List.mem_append] at h
  simp only [Schema.mk.sizeOf_spec, Keywords.mk.sizeOf_spec]
  rcases h with ((((h | h) | h) | h) | h) | h
  · cases properties with
    | none => simp at h
    | some t =>
      have := sizeOf_lt_of_mem_values (t := t) (by simpa using h)
      simp only [Option.some.sizeOf_spec]
      omega
  · rcases additional with _ | (_ | v)
    · simp at h
    · simp [Additional.children] at h
    · obtain rfl : s = v := by simpa [Additional.children] using h
      simp only [Option.some.sizeOf_spec, Additional.schema.sizeOf_spec]
      omega
  · cases items with
    | none => simp at h
    | some v =>
      obtain rfl : s = v := by simpa using h
      simp only [Option.some.sizeOf_spec]
      omega
  · cases prefixItems with
    | none => simp at h
    | some l =>
      have := List.sizeOf_lt_of_mem (show s ∈ l by simpa using h)
      simp only [Option.some.sizeOf_spec]
      omega
  · cases oneOf with
    | none => simp at h
    | some l =>
      have := List.sizeOf_lt_of_mem (show s ∈ l by simpa using h)
      simp only [Option.some.sizeOf_spec]
      omega
  · cases allOf with
    | none => simp at h
    | some l =>
      have := List.sizeOf_lt_of_mem (show s ∈ l by simpa using h)
      simp only [Option.some.sizeOf_spec]
      omega

/-- What passes from the subschemas of every node to the node holds of all schemas. -/
theorem induction {P : Schema → Prop} (step : ∀ k : Keywords Schema, (∀ s ∈ k.children, P s) → P (.mk k))
    (s : Schema) : P s :=
  match s with
  | .mk k => step k fun c _h => induction step c
termination_by sizeOf s
decreasing_by exact sizeOf_lt_of_mem_children _h

/-! ## Building and viewing -/

instance : Inhabited Schema := ⟨.mk {}⟩

/-- A schema with a `type` alone. -/
def typed (type : String) : Schema := .mk { type := some type }

/-- A schema that is nothing but a `$ref`. -/
def reference (id : String) : Schema := .mk { ref := some id }

/-- An object with declared properties. An empty `required` list is left out, and a closed object admits no
further properties. -/
def object (properties : Table Schema) (required : List String) (closed : Bool) : Schema :=
  .mk {
    type := some "object"
    properties := some properties
    required := if required.isEmpty then none else some required
    additional := if closed then some (.allowed false) else none }

/-- An array of one kind of items. -/
def array (items : Schema) : Schema := .mk { type := some "array", items := some items }

/-- The id of a schema that is nothing but a `$ref`. -/
def refId? (s : Schema) : Option String :=
  if { s.keywords with ref := none }.isEmpty then s.keywords.ref else none

/-- The schema wrapped as `oneOf` of one alternative with `nullable`, and nothing else. -/
def unwrapNullable? (s : Schema) : Option Schema :=
  match s.keywords.oneOf with
  | some [inner] =>
    if s.keywords.nullable = some true ∧ { s.keywords with oneOf := none, nullable := none }.isEmpty then
      some inner
    else none
  | _ => none

/-- An object with declared properties, possibly none. -/
def isObject (s : Schema) : Bool := s.keywords.type == some "object" && s.keywords.properties.isSome

/-- The value of an enumeration of one. -/
def singleLiteral? (s : Schema) : Option Json :=
  match s.keywords.enumeration with
  | some [value] => some value
  | _ => none

/-- Whether the schema admits null by its own `nullable`. -/
def isNullable (s : Schema) : Bool := s.keywords.nullable == some true

end Schema

end RouteManifest
