import RouteManifest.Proofs.Binding.Request
import RouteManifest.Proofs.Resolution.Closed
import RouteManifest.Proofs.Resolution.Evaluation

/-!
# What the bindings ask of the request

Binding a handler has two results: the tree of its bindings, which says how each parameter is read, and the schemas of
the request, which were collected on the way. The leaves of the tree are what is read from the request
(`Binding.readings`), and each of them claims properties of a place: one, or those of the object that it expands into
(`Reading.claims`).

`RequestParts.Describes` says that the parts collected so far are exactly what some readings claim. It is kept by
everything that binding a parameter comes to, so in the end the schemas of the route and the leaves of its bindings
describe one request. The object that a reading expands into is looked up in the registry, which grows meanwhile; but an
object that was there once is there for good, so what has been claimed stays claimed (`Reading.claims_of_moves`).
-/

namespace RouteManifest

variable {c : Catalog}

/-! ## Readings

What a parameter reads is a field of the request. A field is in a place or it is the body or an object of the server; in
a place it is one property, or the place as a whole. -/

namespace Field

/-- The place that the field is in. -/
def place? : Field → Option Place
  | .params | .pathParam _ => some .path
  | .query | .queryField _ => some .query
  | .headers | .header _ => some .header
  | .body | .request | .reply | .socket => none

/-- Whether the field is a place as a whole. -/
def isWhole : Field → Bool
  | .params | .query | .headers => true
  | _ => false

/-- A scalar is one property, which has the name of the parameter as it is written in the place; a place as a whole is
something structured. -/
def Suits (c : Catalog) (p : Parameter) : Field → Prop
  | .pathParam name | .queryField name => name = p.name ∧ c.shapeOf p.node p.location.unit = .scalar
  | .header name => name = headerName p.name ∧ c.shapeOf p.node p.location.unit = .scalar
  | .params | .query | .headers => c.shapeOf p.node p.location.unit = .structured
  | .body | .request | .reply | .socket => True

end Field

namespace Place

@[simp] theorem place?_single (place : Place) (name : String) : (place.single name).place? = some place := by
  cases place <;> rfl

@[simp] theorem isWhole_single (place : Place) (name : String) : (place.single name).isWhole = false := by
  cases place <;> rfl

@[simp] theorem place?_whole (place : Place) : place.whole.place? = some place := by
  cases place <;> rfl

@[simp] theorem isWhole_whole (place : Place) : place.whole.isWhole = true := by
  cases place <;> rfl

/-- A property of a place is not an object of the server. -/
theorem source_single (place : Place) (name : String) : (place.single name).source ≠ "raw" := by
  cases place <;> simp [single, Field.source]

/-- A place as a whole is not an object of the server. -/
theorem source_whole (place : Place) : place.whole.source ≠ "raw" := by
  cases place <;> simp [whole, Field.source]

end Place

/-- A parameter that is read from the request. -/
structure Reading where
  name : String
  field : Field
  schema : Option Schema

namespace Binding

mutual
/-- The leaves of a binding. -/
def readings : Binding → List Reading
  | .request name _ field schema => [⟨name, field, schema⟩]
  | .provided _ _ _ _ dependencies => readingsOf dependencies

/-- The leaves of bindings, in order. -/
def readingsOf : List Binding → List Reading
  | [] => []
  | b :: rest => readings b ++ readingsOf rest
end

/-- A binding is that of a parameter: by the provider of its name, whose parameters are bound in turn, or to a field of
the request if there is none, by a schema unless it is an object of the server. -/
inductive Matches (c : Catalog) (providers : Providers) : Binding → Parameter → Prop where
  | request {p : Parameter} {field : Field} {schema : Option Schema} :
      providers.find? p.name = none → field.Suits c p → (schema = none ↔ field.source = "raw") →
      Matches c providers (.request p.name p.node field schema) p
  | provided {p : Parameter} {provider : Provider} {dependencies : List Binding} :
      providers.find? p.name = some provider → List.Forall₂ (Matches c providers) dependencies provider.params →
      Matches c providers (.provided p.name p.node provider.target provider.mayAbort dependencies) p

end Binding

namespace Reading

/-- The object that a place read as a whole expands into. -/
def object? (registry : Registry) (x : Reading) : Option Schema :=
  x.schema.bind fun s => registry.objectView? (s.unwrapNullable?.getD s)

/-- The properties that are read: those of the object, or one that has the name of the parameter. -/
def properties (registry : Registry) (x : Reading) : Table Schema :=
  if x.field.isWhole then ((x.object? registry).bind fun object => object.keywords.properties).getD []
  else x.schema.toList.map fun s => (x.name, s)

/-- The properties of a place that are read, under their names in the place. -/
def claims (registry : Registry) (place : Place) (x : Reading) : Table Schema :=
  if x.field.place? = some place then (x.properties registry).map fun (name, s) => (place.rename name, s) else []

/-- Nothing is claimed of a place that is not read from. -/
theorem claims_of_place?_ne {registry : Registry} {place : Place} {x : Reading} (h : x.field.place? ≠ some place) :
    x.claims registry place = [] := if_neg h

section Moves

variable {registry registry' : Registry} (hmoves : Registry.Moves registry registry') {x : Reading}
include hmoves

/-- The object that a reading expands into stays the same. -/
theorem object?_of_moves {object : Schema} (h : x.object? registry = some object) :
    x.object? registry' = some object := by
  obtain ⟨s, hs, hview⟩ := Option.bind_eq_some_iff.mp h
  rw [object?, hs, Option.bind_some, Registry.objectView?_of_moves hmoves hview]

/-- An object that is seen goes on being seen. -/
theorem isSome_object?_of_moves (h : (x.object? registry).isSome = true) : (x.object? registry').isSome = true := by
  obtain ⟨object, hobject⟩ := Option.isSome_iff_exists.mp h
  rw [object?_of_moves hmoves hobject]
  rfl

/-- A reading that expands claims the same from then on. -/
theorem claims_of_moves (hexpands : x.field.isWhole = true → (x.object? registry).isSome = true) (place : Place) :
    x.claims registry' place = x.claims registry place := by
  have hproperties : x.properties registry' = x.properties registry := by
    rw [properties, properties]
    split
    next hwhole =>
      obtain ⟨object, hobject⟩ := Option.isSome_iff_exists.mp (hexpands hwhole)
      rw [hobject, object?_of_moves hmoves hobject]
    · rfl
  rw [claims, claims, hproperties]

end Moves

end Reading

/-! ## Properties

Names are never repeated in a place, since adding a name that is taken is refused. -/

namespace Properties

/-- Properties of different names, among them the required ones. -/
structure Proper (p : Properties) : Prop where
  nodup : p.schemas.names.Nodup
  required : ∀ name ∈ p.required, name ∈ p.schemas.names

/-- Where there are no properties, no name is repeated or required in vain. -/
theorem proper_empty : ({} : Properties).Proper := ⟨List.nodup_nil, nofun⟩

variable {p p' : Properties} {place : Place} {location : Location}

/-- One more property comes last. -/
theorem Proper.add (h : p.Proper) {name : String} {schema : Schema} {required : Bool}
    (hadd : p.add place name schema required location = .ok p') :
    p'.Proper ∧ p'.schemas = p.schemas ++ [(name, schema)] := by
  rw [Properties.add] at hadd
  split at hadd
  · cases hadd
  next hnew =>
    -- a name that is taken is refused, so nothing is replaced
    have hnew : name ∉ p.schemas.names := fun hmem => hnew (Table.contains_iff.mpr hmem)
    have hschemas := Table.insert_of_not_mem hnew schema
    cases hadd
    refine ⟨⟨Table.nodup_insert h.nodup _ _, fun other hother => ?_⟩, hschemas⟩
    rw [Table.mem_names_insert]
    simp only at hother
    split at hother
    · rcases List.mem_append.mp hother with hother | hother
      · exact Or.inr (h.required other hother)
      · exact Or.inl (List.mem_singleton.mp hother)
    · exact Or.inr (h.required other hother)

/-- The properties of an object come last, in the object's order and under their names in the place. -/
theorem Proper.addAll (h : p.Proper) {rename : String → String} {required : List String} {added : Table Schema}
    (hadd : p.addAll place rename required location added = .ok p') :
    p'.Proper ∧ p'.schemas = p.schemas ++ added.map fun (name, s) => (rename name, s) := by
  induction added generalizing p with
  | nil =>
    cases hadd
    exact ⟨h, (List.append_nil _).symm⟩
  | cons e rest ih =>
    obtain ⟨name, schema⟩ := e
    rw [Properties.addAll] at hadd
    split at hadd
    · cases hadd
    next p₁ hfirst =>
      obtain ⟨hp₁, hschemas⟩ := h.add hfirst
      obtain ⟨hp', hschemas'⟩ := ih hp₁ hadd
      refine ⟨hp', ?_⟩
      rw [hschemas', hschemas, List.append_assoc]
      rfl

end Properties

/-! ## Parts that describe readings

One field of `Describes` for each place and two more for the body and the socket. A step of the binding touches one of
them. -/

namespace RequestParts

/-- The parts are what the readings ask for. -/
structure Describes (registry : Registry) (verb : Verb) (parts : RequestParts) (xs : List Reading) : Prop where
  properties : ∀ place, (parts.atPlace place).schemas = xs.flatMap (Reading.claims registry place)
  proper : ∀ place, (parts.atPlace place).Proper
  expands : ∀ x ∈ xs, x.field.isWhole = true → (x.object? registry).isSome = true
  /-- the body is read once if there is one -/
  body : (xs.filter fun x => x.field = .body).map Reading.schema = parts.body.toList.map some
  socket : ∀ x ∈ xs, x.field = .socket → verb = .ws

/-- The properties of one place can be replaced without touching those of the others. -/
theorem atPlace_withPlace (parts : RequestParts) (props : Properties) (place other : Place) :
    (parts.withPlace props place).atPlace other = if other = place then props else parts.atPlace other := by
  cases place <;> cases other <;> rfl

theorem body_withPlace (parts : RequestParts) (props : Properties) (place : Place) :
    (parts.withPlace props place).body = parts.body := by
  cases place <;> rfl

namespace Describes

variable {registry : Registry} {verb : Verb} {parts : RequestParts} {xs : List Reading}

/-- A request of which nothing is read has no parts. -/
theorem empty (registry : Registry) (verb : Verb) : ({} : RequestParts).Describes registry verb [] where
  properties := fun place => by cases place <;> rfl
  proper := fun place => by cases place <;> exact Properties.proper_empty
  expands := nofun
  body := rfl
  socket := nofun

/-- What the parts are does not change when the registry grows. -/
theorem moves {registry' : Registry} (h : parts.Describes registry verb xs)
    (hmoves : Registry.Moves registry registry') : parts.Describes registry' verb xs where
  properties := by
    intro place
    rw [h.properties place]
    exact List.flatMap_congr fun x hx => (Reading.claims_of_moves hmoves (h.expands x hx) place).symm
  proper := h.proper
  expands := fun x hx hwhole => Reading.isSome_object?_of_moves hmoves (h.expands x hx hwhole)
  body := h.body
  socket := h.socket

/-- One more reading, what it claims being added last. -/
theorem append (h : parts.Describes registry verb xs) {parts' : RequestParts} {x : Reading}
    (hprops : ∀ place, (parts'.atPlace place).Proper ∧
      (parts'.atPlace place).schemas = (parts.atPlace place).schemas ++ x.claims registry place)
    (hexpands : x.field.isWhole = true → (x.object? registry).isSome = true)
    (hbody : parts'.body.toList.map some = parts.body.toList.map some ++ if x.field = .body then [x.schema] else [])
    (hsocket : x.field = .socket → verb = .ws) : parts'.Describes registry verb (xs ++ [x]) where
  properties := by
    intro place
    rw [(hprops place).2, h.properties place, List.flatMap_append, List.flatMap_singleton]
  proper := fun place => (hprops place).1
  expands := List.forall_mem_append.mpr ⟨h.expands, List.forall_mem_singleton.mpr hexpands⟩
  body := by
    rw [hbody, ← h.body, List.filter_append, List.map_append, List.filter_singleton]
    by_cases hx : x.field = .body
    · simp [hx]
    · simp [hx]
  socket := List.forall_mem_append.mpr ⟨h.socket, List.forall_mem_singleton.mpr hsocket⟩

/-- One more reading of a place, whose properties have grown by what it claims. -/
theorem withPlace (h : parts.Describes registry verb xs) {place : Place} {x : Reading} {props : Properties}
    (hplace : x.field.place? = some place)
    (hexpands : x.field.isWhole = true → (x.object? registry).isSome = true)
    (hprops : props.Proper ∧ props.schemas = (parts.atPlace place).schemas ++ x.claims registry place) :
    (parts.withPlace props place).Describes registry verb (xs ++ [x]) := by
  -- the other places are as they were, and the field is neither the body nor the socket
  refine h.append (fun other => ?_) hexpands ?_ fun hsocket => ?_
  · rw [atPlace_withPlace]
    split
    next heq =>
      rw [heq]
      exact hprops
    next hne =>
      have hnone : x.claims registry other = [] :=
        Reading.claims_of_place?_ne fun heq => hne (Option.some.inj (heq.symm.trans hplace))
      rw [hnone, List.append_nil]
      exact ⟨h.proper other, rfl⟩
  · rw [if_neg (fun heq => by simp [heq, Field.place?] at hplace), body_withPlace, List.append_nil]
  · simp [hsocket, Field.place?] at hplace

/-- One more reading of something that is no place, all places as they were. -/
theorem aside (h : parts.Describes registry verb xs) {parts' : RequestParts} {x : Reading}
    (hplace : x.field.place? = none) (hsame : ∀ place, parts'.atPlace place = parts.atPlace place)
    (hbody : parts'.body.toList.map some = parts.body.toList.map some ++ if x.field = .body then [x.schema] else [])
    (hsocket : x.field = .socket → verb = .ws) : parts'.Describes registry verb (xs ++ [x]) := by
  refine h.append (fun place => ?_) (fun hwhole => ?_) hbody hsocket
  · rw [Reading.claims_of_place?_ne (by simp [hplace]), List.append_nil, hsame]
    exact ⟨h.proper place, rfl⟩
  · cases hfield : x.field <;> simp [hfield, Field.place?, Field.isWhole] at hplace hwhole

/-- What is collected apart from places and body says nothing of the readings. -/
theorem congr (h : parts.Describes registry verb xs) {parts' : RequestParts}
    (hsame : ∀ place, parts'.atPlace place = parts.atPlace place) (hbody : parts'.body = parts.body) :
    parts'.Describes registry verb xs where
  properties := fun place => hsame place ▸ h.properties place
  proper := fun place => hsame place ▸ h.proper place
  expands := h.expands
  body := hbody ▸ h.body
  socket := h.socket

end Describes

end RequestParts

/-! ## Binding

For each rule by which a parameter is bound there is one more reading or, behind a provider, those of the provider's
parameters. -/

namespace Bind

variable {parts parts' : RequestParts} {r r' : Resolver c} {b : Binding} {verb : Verb} {xs : List Reading}

/-- What is taken of a parameter's schema is one more reading. -/
theorem Takes.describes {p : Parameter} {schema : Schema} (h : Takes r p schema parts b parts')
    (hparts : parts.Describes r.registry verb xs) : parts'.Describes r.registry verb (xs ++ b.readings) := by
  cases h with
  | @property place props _ hadd =>
    refine hparts.withPlace (place.place?_single p.name) (fun hwhole => ?_) ?_
    · simp at hwhole
    · obtain ⟨hproper, hschemas⟩ := (hparts.proper place).add hadd
      refine ⟨hproper, ?_⟩
      rw [hschemas, Reading.claims, if_pos (place.place?_single p.name), Reading.properties]
      simp
  | @whole place view object props _ hview hobject _ hmerge =>
    have hview : Reading.object? r.registry ⟨p.name, place.whole, some schema⟩ = some view := hview
    refine hparts.withPlace place.place?_whole (fun _ => ?_) ?_
    · rw [hview]
      rfl
    · obtain ⟨hproper, hschemas⟩ := (hparts.proper place).addAll hmerge
      refine ⟨hproper, ?_⟩
      rw [hschemas, Reading.claims, if_pos place.place?_whole, Reading.properties, if_pos place.isWhole_whole, hview,
        hobject]
      rfl
  | body hnone =>
    refine hparts.aside rfl (fun place => ?_) ?_ nofun
    · cases place <;> rfl
    · rw [hnone]
      rfl

/-- What is taken is a binding of that parameter, by a schema. -/
theorem Takes.matches {p : Parameter} {schema : Schema} (h : Takes r p schema parts b parts') {providers : Providers}
    (hnone : providers.find? p.name = none) : b.Matches c providers p := by
  cases h with
  | @property place _ hshape =>
    refine .request hnone ?_ (iff_of_false nofun (place.source_single p.name))
    cases place <;> exact ⟨rfl, hshape⟩
  | @whole place _ _ _ hshape =>
    refine .request hnone ?_ (iff_of_false nofun place.source_whole)
    cases place <;> exact hshape
  | body => exact .request hnone trivial (iff_of_false nofun (by simp [Field.source]))

/-- What is read of a parameter without a provider is one more reading: the resolver grows, then the parts do. -/
theorem Reads.describes {p : Parameter} (h : Reads verb p parts r b parts' r')
    (hparts : parts.Describes r.registry verb xs) : parts'.Describes r'.registry verb (xs ++ b.readings) := by
  cases h with
  | raw target hsocket =>
    refine hparts.aside ?_ (fun _ => rfl) ?_ fun hfield => hsocket ?_
    · cases target <;> rfl
    · cases target <;> simp [RawTarget.field]
    · cases target <;> simp [RawTarget.field] at hfield ⊢
  | @schema s _ positional _ _ hs htakes =>
    -- resolving the type may register schemas, but changes none that were seen before
    have hruns : Runs {} (.node [] p.location p.node) r (.ok s) r' := runs_iff.mpr hs
    refine htakes.describes ((hparts.moves hruns.moves).congr (fun place => ?_) rfl)
    cases place <;> rfl

/-- What is read is a binding of that parameter, with a schema or to an object of the server. -/
theorem Reads.matches {p : Parameter} (h : Reads verb p parts r b parts' r') {providers : Providers}
    (hnone : providers.find? p.name = none) : b.Matches c providers p := by
  cases h with
  | raw target => cases target <;> exact .request hnone trivial (by decide)
  | schema _ htakes => exact htakes.matches hnone

/-- The bindings are those of the parameters, and the parts grow by what their leaves read. -/
theorem Binds.describes {providers : Providers} {ps : List Parameter} {bs : List Binding}
    (h : Binds providers verb ps parts r bs parts' r') (hparts : parts.Describes r.registry verb xs) :
    List.Forall₂ (Binding.Matches c providers) bs ps ∧
      parts'.Describes r'.registry verb (xs ++ Binding.readingsOf bs) := by
  induction h generalizing xs with
  | nil =>
    rw [Binding.readingsOf, List.append_nil]
    exact ⟨.nil, hparts⟩
  | read hnone hread _ ih =>
    obtain ⟨hmatches, hparts'⟩ := ih (hread.describes hparts)
    rw [Binding.readingsOf, ← List.append_assoc]
    exact ⟨.cons (hread.matches hnone) hmatches, hparts'⟩
  | provided hfound _ _ _ ihDeps ih =>
    obtain ⟨hdeps, hparts₁⟩ := ihDeps hparts
    obtain ⟨hmatches, hparts'⟩ := ih (hparts₁.congr (fun place => by cases place <;> rfl) rfl)
    rw [Binding.readingsOf, ← List.append_assoc]
    exact ⟨.cons (.provided hfound hdeps) hmatches, hparts'⟩

end Bind

/-! ## The schemas of a route

The parts become schemas at the end: a place with properties becomes an object of them, and an empty place becomes
nothing. -/

namespace RouteSchema

/-- The schema of a place. -/
def atPlace (s : RouteSchema) : Place → Option Schema
  | .path => s.params
  | .query => s.querystring
  | .header => s.headers

/-- The properties of a place. -/
def propertiesAt (s : RouteSchema) (place : Place) : Table Schema :=
  ((s.atPlace place).bind fun object => object.keywords.properties).getD []

/-- The names of the properties that a place must have. -/
def requiredAt (s : RouteSchema) (place : Place) : List String :=
  ((s.atPlace place).bind fun object => object.keywords.required).getD []

/-- The schemas of a route and some readings are about the same request. -/
structure Describes (registry : Registry) (verb : Verb) (s : RouteSchema) (xs : List Reading) : Prop where
  /-- a place has the properties that are claimed of it, in order -/
  properties : ∀ place, s.propertiesAt place = xs.flatMap (Reading.claims registry place)
  nodup : ∀ place, (s.propertiesAt place).names.Nodup
  required : ∀ place, ∀ name ∈ s.requiredAt place, name ∈ (s.propertiesAt place).names
  expands : ∀ x ∈ xs, x.field.isWhole = true → (x.object? registry).isSome = true
  /-- there is a body just if one reading is of the body, and only one -/
  body_isSome : s.body.isSome = true ↔ ∃ x, (xs.filter fun x => x.field = .body) = [x]
  body_eq : ∀ x ∈ xs, x.field = .body → s.body = x.schema
  socket : ∀ x ∈ xs, x.field = .socket → verb = .ws

end RouteSchema

namespace RequestParts

variable {registry : Registry} {verb : Verb} {parts : RequestParts} {xs : List Reading}

/-- A place has the properties collected for it as its schema, or none if there are none. -/
theorem atPlace_toRouteSchema (parts : RequestParts) (response : Schema) (place : Place) :
    ∃ closed, (parts.toRouteSchema response).atPlace place = (parts.atPlace place).toSchema? closed := by
  cases place <;> exact ⟨_, rfl⟩

/-- The properties of a place are those collected for it, whether or not there are any. -/
theorem propertiesAt_toRouteSchema (parts : RequestParts) (response : Schema) (place : Place) :
    (parts.toRouteSchema response).propertiesAt place = (parts.atPlace place).schemas := by
  obtain ⟨closed, hclosed⟩ := parts.atPlace_toRouteSchema response place
  rw [RouteSchema.propertiesAt, hclosed, Properties.toSchema?]
  split
  next hempty => rw [List.isEmpty_iff.mp hempty]; rfl
  · rfl

/-- What a place requires was required when it was collected. -/
theorem mem_requiredAt_toRouteSchema {response : Schema} {place : Place} {name : String}
    (h : name ∈ (parts.toRouteSchema response).requiredAt place) : name ∈ (parts.atPlace place).required := by
  obtain ⟨closed, hclosed⟩ := parts.atPlace_toRouteSchema response place
  rw [RouteSchema.requiredAt, hclosed, Properties.toSchema?] at h
  split at h
  · cases h
  · change name ∈ (if (parts.atPlace place).required.isEmpty then none else some _ : Option (List String)).getD [] at h
    split at h
    · cases h
    · exact h

/-- The schemas of a route are about the same readings as the parts that they are made of. -/
theorem Describes.toRouteSchema (h : parts.Describes registry verb xs) (response : Schema) :
    (parts.toRouteSchema response).Describes registry verb xs where
  properties := fun place => (parts.propertiesAt_toRouteSchema response place).trans (h.properties place)
  nodup := fun place => parts.propertiesAt_toRouteSchema response place ▸ (h.proper place).nodup
  required := by
    intro place name hname
    rw [propertiesAt_toRouteSchema]
    exact (h.proper place).required name (mem_requiredAt_toRouteSchema hname)
  expands := h.expands
  body_isSome := by
    have hbody := h.body
    show parts.body.isSome = true ↔ _
    rcases hvalue : parts.body with _ | s
    · rw [hvalue] at hbody
      rw [List.map_eq_nil_iff.mp hbody]
      simp
    · rw [hvalue] at hbody
      obtain ⟨x, hx, -⟩ := List.map_eq_singleton_iff.mp hbody
      exact iff_of_true rfl ⟨x, hx⟩
  body_eq := by
    intro x hx hfield
    show parts.body = _
    have hmem : x.schema ∈ parts.body.toList.map some :=
      h.body ▸ List.mem_map_of_mem (List.mem_filter.mpr ⟨hx, decide_eq_true hfield⟩)
    obtain ⟨s, hs, heq⟩ := List.mem_map.mp hmem
    rw [← heq, Option.mem_toList.mp hs]
  socket := h.socket

end RequestParts

/-- The bindings of a handler are those of its parameters, and the bindings behind a provider those of the provider's
parameters, one for one. What the leaves of these trees read is what the schemas of the route describe: the properties
of path, query string and headers, the body if there is one, and nothing else. -/
theorem bindings_describe_request {providers : Providers} {verb : Verb} {tokens : List String}
    {params : List Parameter} {r r' : Resolver c} {bindings : List Binding} {parts : RequestParts}
    (h : (bindAll providers verb tokens params).run r = (.ok (bindings, parts), r')) (response : Schema) :
    List.Forall₂ (Binding.Matches c providers) bindings params ∧
      (parts.toRouteSchema response).Describes r'.registry verb (Binding.readingsOf bindings) := by
  obtain ⟨hmatches, hparts⟩ := (Bind.binds_of_bindAll h).describes (.empty r.registry verb)
  exact ⟨hmatches, hparts.toRouteSchema response⟩

/-! ### Notes

A handler with one parameter of each kind. -/

/-- A page is the part of a list after an offset. -/
def pageCatalog : Catalog where
  declarations := [
    { name := "Page", location := ⟨⟨"page.rs"⟩, 1, 0⟩,
      body := .object [("offset", ⟨.primitive .f64, false⟩), ("limit", ⟨.primitive .f64, true⟩)] false }]

/-- The session of a request is found by its id. -/
def sessionProvider : Provider where
  target := "findSession"
  params := [{ name := "session_id", node := .string, marker := some .header, location := ⟨⟨"session.rs"⟩, 3, 0⟩ }]
  mayAbort := true
  location := ⟨⟨"session.rs"⟩, 1, 0⟩

def sessionProviders : Providers := [("session", sessionProvider)]

/-- One parameter of each kind: a scalar of the path, one that is provided, an object of the query, and the body. -/
def notesParams : List Parameter := [
  { name := "id", node := .string, location := ⟨⟨"notes.rs"⟩, 1, 0⟩ },
  { name := "session", node := .reference "Session", location := ⟨⟨"notes.rs"⟩, 2, 0⟩ },
  { name := "page", node := .reference "Page", marker := some .query, location := ⟨⟨"notes.rs"⟩, 3, 0⟩ },
  { name := "note", node := .map .string, location := ⟨⟨"notes.rs"⟩, 4, 0⟩ }]

/-- A page is an object, so it fills the query string as a whole. -/
theorem pageCatalog_shapeOf_page : pageCatalog.shapeOf (.reference "Page") ⟨"notes.rs"⟩ = .structured := by
  have hlookup : pageCatalog.lookup? "Page" ⟨"notes.rs"⟩ = some ⟨0, by decide⟩ := by decide +kernel
  rw [Catalog.shapeOf, Catalog.anyStructured, hlookup]
  simp [Catalog.anyStructured, Catalog.get, pageCatalog]

/-- The four parameters are bound, the provider's one among them, and each property is where its parameter reads it. -/
theorem bindings_describe_request_notes :
    ∃ (bindings : List Binding) (parts : RequestParts) (r : Resolver pageCatalog),
      (bindAll sessionProviders .post ["id"] notesParams).run {} = (.ok (bindings, parts), r) ∧
      List.Forall₂ (Binding.Matches pageCatalog sessionProviders) bindings notesParams ∧
      (parts.toRouteSchema default).Describes r.registry .post (Binding.readingsOf bindings) ∧
      parts.params.schemas.names = ["id"] ∧ parts.query.schemas.names = ["offset", "limit"] ∧
      parts.headers.schemas.names = ["session-id"] ∧ parts.body.isSome = true := by
  have hstring (unit : Path) : pageCatalog.shapeOf .string unit = .scalar := by
    simp [Catalog.shapeOf, Catalog.anyStructured, TypeExpr.string]
  have hmap (unit : Path) : pageCatalog.shapeOf (.map .string) unit = .structured := by
    simp [Catalog.shapeOf, Catalog.anyStructured]
  have hprovided : sessionProviders.find? "session" = some sessionProvider := rfl
  have hread : ∀ name ∈ ["id", "page", "note", "session_id"], sessionProviders.find? name = none := by
    simp [sessionProviders, Table.find?]
  simp only [List.forall_mem_cons] at hread
  have hnames : ((bindAll sessionProviders .post ["id"] notesParams).run ({} : Resolver pageCatalog)).1.toOption.map
      (fun bound => (bound.2.params.schemas.names, bound.2.query.schemas.names, bound.2.headers.schemas.names,
        bound.2.body.isSome)) = some (["id"], ["offset", "limit"], ["session-id"], true) := by
    -- neither the search for providers nor the one for shapes computes by itself
    simp only [bindAll, notesParams, List.mapM_cons, List.mapM_nil, Bind.parameter_eq, hprovided, hread,
      Bind.positional, Bind.marked, Bind.placed, Bind.schemaOf, pageCatalog_shapeOf_page, hstring, hmap,
      sessionProvider, Option.filter, resolve_eq_within]
    decide +kernel
  rcases hrun : (bindAll sessionProviders .post ["id"] notesParams).run ({} : Resolver pageCatalog) with
    ⟨fault | ⟨bindings, parts⟩, r⟩
  · rw [hrun] at hnames
    cases hnames
  · rw [hrun] at hnames
    obtain ⟨hparams, hquery, hheaders, hbody⟩ := by simpa [Except.toOption] using hnames
    obtain ⟨hmatches, hdescribes⟩ := bindings_describe_request hrun default
    exact ⟨bindings, parts, r, rfl, hmatches, hdescribes, hparams, hquery, hheaders, hbody⟩

end RouteManifest
