import RouteManifest.Binding.Request
import RouteManifest.Proofs.Resolution.Runs

/-!
# Binding, read backwards

`Bind.Gives` is what it means that a computation succeeds. For every step of the binding there is a lemma
that says what its success comes to: how a parameter that no provider provides is read from the request (`Bind.Reads`),
and what its schema has added to the parts of the request (`Bind.Takes`). Nothing but the resolution of the parameter's
type touches the resolver.

The steps are put together in `Bind.Binds`, one rule for a parameter that is read and one for a parameter that is
provided. What is proved of bindings elsewhere goes by induction over these rules, and the functions themselves are not
opened again.

So the layers are three. `gives_bind` and its companions take the monad apart, with the parts of the request and the
resolver as two states that are handed on. `takes_*` and `reads_*` invert one function each and end in a rule of
`Takes` or `Reads`. Only the last part has a recursion to follow, that of the search for providers, whose measure is
the number of aliases outside the chain.
-/

namespace RouteManifest

/-- A computation that ends with an answer made of another one succeeds if that does. -/
theorem bind_pure_eq_ok {ε α β : Type} {m : Except ε α} {f : α → β} {b : β} :
    (m >>= fun a => pure (f a)) = .ok b ↔ ∃ a, m = .ok a ∧ b = f a := by
  cases m with
  | error e =>
    constructor
    · intro h
      cases h
    · rintro ⟨_, h, -⟩
      cases h
  | ok a =>
    constructor
    · intro h
      cases h
      exact ⟨a, rfl, rfl⟩
    · rintro ⟨_, h, rfl⟩
      cases h
      rfl

/-- A computation whose answer is only changed is a map. -/
theorem bind_pure_eq_map {ε α β : Type} {m : Except ε α} {f : α → β} : (m >>= fun a => pure (f a)) = m.map f := by
  cases m <;> rfl

/-- Two computations in a row succeed if the first one does and the second one after it. -/
theorem Resolving.run_bind_eq_ok {c : Catalog} {α β : Type} {m : Resolving c α} {f : α → Resolving c β}
    {r r'' : Resolver c} {b : β} :
    (m >>= f).run r = (.ok b, r'') ↔ ∃ a r', m.run r = (.ok a, r') ∧ (f a).run r' = (.ok b, r'') := by
  rw [run_bind]
  rcases m.run r with ⟨_ | a, r'⟩
  · constructor
    · intro h
      cases h
    · rintro ⟨_, _, h, -⟩
      cases h
  · constructor
    · intro h
      exact ⟨a, r', rfl, h⟩
    · rintro ⟨_, _, h, h'⟩
      cases h
      exact h'

namespace Bind

variable {c : Catalog} {α β : Type}

/-- The computation succeeds with an answer, and goes from one state to another. -/
def Gives (m : Bind c α) (parts : RequestParts) (r : Resolver c) (a : α) (parts' : RequestParts)
    (r' : Resolver c) : Prop := (m.run parts).run r = (.ok (a, parts'), r')

variable {parts parts' parts'' : RequestParts} {r r' r'' : Resolver c}

/-- An answer that is there already changes nothing. -/
theorem gives_pure {a b : α} : (pure a : Bind c α).Gives parts r b parts' r' ↔ b = a ∧ parts' = parts ∧ r' = r := by
  constructor
  · intro h
    cases h
    exact ⟨rfl, rfl, rfl⟩
  · rintro ⟨rfl, rfl, rfl⟩
    rfl

/-- Computations in a row hand their states on. -/
theorem gives_bind {m : Bind c α} {f : α → Bind c β} {b : β} :
    (m >>= f).Gives parts r b parts'' r'' ↔
      ∃ a parts' r', m.Gives parts r a parts' r' ∧ (f a).Gives parts' r' b parts'' r'' := by
  rw [Gives, StateT.run_bind, Resolving.run_bind_eq_ok]
  constructor
  · rintro ⟨⟨a, parts'⟩, r', h, h'⟩
    exact ⟨a, parts', r', h, h'⟩
  · rintro ⟨a, parts', r', h, h'⟩
    exact ⟨(a, parts'), r', h, h'⟩

/-- A refusal is no success. -/
theorem not_gives_fail {location : Location} {cause : RouteFault} {a : α} :
    ¬(fail location cause : Bind c α).Gives parts r a parts' r' := by
  intro h
  cases h

/-- Updating the parts leaves the resolver alone. -/
theorem gives_update {f : RequestParts → Except Fault RequestParts} {a : Unit} :
    (update f : Bind c Unit).Gives parts r a parts' r' ↔ f parts = .ok parts' ∧ r' = r := by
  rw [update, gives_bind]
  constructor
  · rintro ⟨_, _, _, hget, h⟩
    cases hget
    split at h
    next new heq =>
      cases h
      exact ⟨heq, rfl⟩
    next heq => cases h
  · rintro ⟨h, rfl⟩
    refine ⟨parts, parts, r', rfl, ?_⟩
    rw [h]
    rfl

/-- The resolver seen by a binding. -/
theorem gives_getResolver {a : Resolver c} :
    (getThe (Resolver c) : Bind c (Resolver c)).Gives parts r a parts' r' ↔ a = r ∧ parts' = parts ∧ r' = r := by
  constructor
  · intro h
    cases h
    exact ⟨rfl, rfl, rfl⟩
  · rintro ⟨rfl, rfl, rfl⟩
    rfl

/-- Resolving the type of a parameter leaves the parts alone. -/
theorem gives_schemaOf {p : Parameter} {s : Schema} :
    (schemaOf p : Bind c Schema).Gives parts r s parts' r' ↔
      (resolve p.node p.location : Resolving c Schema).run r = (.ok s, r') ∧ parts' = parts := by
  show ((resolve p.node p.location : Resolving c Schema) >>= fun s => pure (s, parts)).run r = _ ↔ _
  rw [Resolving.run_bind_eq_ok]
  constructor
  · rintro ⟨_, _, h, h'⟩
    cases h'
    exact ⟨h, rfl⟩
  · rintro ⟨h, rfl⟩
    exact ⟨s, r', h, rfl⟩

end Bind

/-! ## Where schemas go

A place collects properties, and a body is one schema. What was collected is never taken back, so it is enough to say
what a step adds. -/

namespace Properties

/-- The properties after one more was added. -/
theorem add_eq_ok {p p' : Properties} {place : Place} {name : String} {schema : Schema} {required : Bool}
    {location : Location} (h : p.add place name schema required location = .ok p') :
    p'.schemas = p.schemas.insert name schema := by
  rw [add] at h
  split at h
  · cases h
  · cases h
    rfl

/-- After adding an object's properties, a schema was there before or is one of them. -/
theorem mem_of_addAll {p p' : Properties} {place : Place} {rename : String → String} {required : List String}
    {location : Location} {added : Table Schema} (h : p.addAll place rename required location added = .ok p')
    {s : Schema} (hs : s ∈ p'.schemas.values) : s ∈ p.schemas.values ∨ s ∈ added.values := by
  induction added generalizing p with
  | nil =>
    cases h
    exact Or.inl hs
  | cons e rest ih =>
    obtain ⟨name, schema⟩ := e
    rw [addAll] at h
    split at h
    · cases h
    next p₁ hadd =>
      rcases ih h with hs | hs
      · rw [add_eq_ok hadd] at hs
        rcases Table.mem_values_insert hs with rfl | hs
        · exact Or.inr List.mem_cons_self
        · exact Or.inl hs
      · exact Or.inr (List.mem_cons_of_mem _ hs)

end Properties

namespace RequestParts

/-- The schemas collected so far. -/
def schemas (r : RequestParts) : List Schema :=
  Table.values r.params.schemas ++ Table.values r.query.schemas ++ Table.values r.headers.schemas ++ r.body.toList

/-- The schemas collected are those of the places, and the body. -/
theorem mem_schemas {r : RequestParts} {s : Schema} :
    s ∈ r.schemas ↔ s ∈ Table.values r.params.schemas ∨ s ∈ Table.values r.query.schemas ∨
      s ∈ Table.values r.headers.schemas ∨ r.body = some s := by
  rw [schemas, List.mem_append, List.mem_append, List.mem_append, Option.mem_toList, or_assoc, or_assoc]

/-- The properties collected for a place. -/
def atPlace (r : RequestParts) : Place → Properties
  | .path => r.params
  | .query => r.query
  | .header => r.headers

/-- The request parts with other properties for a place. -/
def withPlace (r : RequestParts) (p : Properties) : Place → RequestParts
  | .path => { r with params := p }
  | .query => { r with query := p }
  | .header => { r with headers := p }

/-- The properties of any place are among them. -/
theorem mem_schemas_of_atPlace {r : RequestParts} {place : Place} {s : Schema}
    (hs : s ∈ Table.values (r.atPlace place).schemas) : s ∈ r.schemas := by
  rw [mem_schemas]
  cases place with
  | path => exact Or.inl hs
  | query => exact Or.inr (Or.inl hs)
  | header => exact Or.inr (Or.inr (Or.inl hs))

/-- Properties that grew in one place, all else as it was. -/
theorem mem_schemas_withPlace {r : RequestParts} {p : Properties} {place : Place} {s : Schema}
    (hs : s ∈ (r.withPlace p place).schemas) : s ∈ r.schemas ∨ s ∈ Table.values p.schemas := by
  cases place <;> simp only [withPlace, mem_schemas] at hs ⊢ <;> tauto

end RequestParts

namespace Binding

mutual
/-- The schemas by which a binding and its dependencies are read. -/
def schemas : Binding → List Schema
  | .request _ _ _ schema => schema.toList
  | .provided _ _ _ _ dependencies => schemasOf dependencies

/-- The schemas by which bindings are read. -/
def schemasOf : List Binding → List Schema
  | [] => []
  | b :: rest => schemas b ++ schemasOf rest
end

end Binding

namespace Place

/-- How the names of properties are written in a place. -/
def rename : Place → String → String
  | .path | .query => id
  | .header => headerName

/-- The field of one property of a place. -/
def single : Place → String → Field
  | .path, name => .pathParam name
  | .query, name => .queryField name
  | .header, name => .header (headerName name)

/-- The field of a place as a whole. -/
def whole : Place → Field
  | .path => .params
  | .query => .query
  | .header => .headers

end Place

/-- The field of an object of the server. -/
def RawTarget.field : RawTarget → Field
  | .request => .request
  | .reply => .reply
  | .socket => .socket

/-- What a parameter of a schema can add to the request: the schema, or a property of the object that it
expands into. -/
inductive Contributes (r : Registry) (schema : Schema) : Schema → Prop where
  | self : Contributes r schema schema
  | property {target object : Schema} {name : String} {s : Schema}
      (target_eq : target = schema ∨ schema.unwrapNullable? = some target)
      (view : r.objectView? target = some object) (mem : (name, s) ∈ object.keywords.properties.getD []) :
      Contributes r schema s

/-- What can be null says so. -/
theorem Schema.isNullable_of_unwrapNullable? {s inner : Schema} (h : s.unwrapNullable? = some inner) :
    s.isNullable = true := by
  rw [unwrapNullable?] at h
  split at h
  · split at h
    next hnull =>
      rw [isNullable, hnull.1]
      rfl
    · cases h
  · cases h

namespace Bind

variable {c : Catalog} {parts parts' : RequestParts} {r r' : Resolver c} {b : Binding}

/-! ### Steps that add

Each touches one place and refuses what is there already. -/

/-- Adding a property touches one place and can be refused there. -/
theorem gives_addProperty {place : Place} {name : String} {schema : Schema} {required : Bool}
    {location : Location} {a : Unit} :
    (addProperty place name schema required location : Bind c Unit).Gives parts r a parts' r' ↔
      (∃ p, (parts.atPlace place).add place name schema required location = .ok p ∧
        parts' = parts.withPlace p place) ∧ r' = r := by
  rw [addProperty, gives_update]
  refine and_congr_left fun _ => ?_
  cases place <;> exact bind_pure_eq_ok

/-- Adding an object's properties touches one place, too. -/
theorem gives_addObject {place : Place} {object : Schema} {location : Location} {a : Unit} :
    (addObject place object location : Bind c Unit).Gives parts r a parts' r' ↔
      (∃ p, (parts.atPlace place).merge place object place.rename location = .ok p ∧
        parts' = parts.withPlace p place) ∧ r' = r := by
  rw [addObject, gives_update]
  refine and_congr_left fun _ => ?_
  cases place <;> exact bind_pure_eq_ok

/-- The object that a parameter of a schema expands into, its required names dropped if it can be null. -/
theorem gives_objectOf {place : Place} {p : Parameter} {schema object : Schema}
    (h : (objectOf place p schema : Bind c Schema).Gives parts r object parts' r') :
    (∃ view, r.registry.objectView? (schema.unwrapNullable?.getD schema) = some view ∧
      object.keywords.properties = view.keywords.properties ∧
      object.keywords.required = if schema.isNullable then none else view.keywords.required) ∧
    parts' = parts ∧ r' = r := by
  rw [objectOf] at h
  split at h
  next target optional htarget =>
    obtain ⟨_, _, _, hget, h₁⟩ := gives_bind.mp h
    obtain ⟨rfl, rfl, rfl⟩ := gives_getResolver.mp hget
    have hsame : target = schema.unwrapNullable?.getD schema ∧ optional = schema.isNullable := by
      split at htarget
      next inner hinner =>
        cases htarget
        rw [hinner]
        exact ⟨rfl, (Schema.isNullable_of_unwrapNullable? hinner).symm⟩
      next hnone =>
        cases htarget
        rw [hnone]
        exact ⟨rfl, rfl⟩
    obtain ⟨rfl, rfl⟩ := hsame
    split at h₁
    · exact absurd h₁ not_gives_fail
    next view hview =>
      obtain ⟨rfl, rfl, rfl⟩ := gives_pure.mp h₁
      refine ⟨⟨view, hview, ?_⟩, rfl, rfl⟩
      split <;> exact ⟨rfl, rfl⟩

/-! ## One parameter

`Takes` is how a parameter whose place is known is read, and `Reads` how the place is found: by its marker, or without
one by the tokens of the address and the verb. -/

/-- How a parameter of a schema is read from the request, and what it adds to the parts. -/
inductive Takes (r : Resolver c) (p : Parameter) (schema : Schema) (parts : RequestParts) :
    Binding → RequestParts → Prop where
  | property {place : Place} {props : Properties} :
      c.shapeOf p.node p.location.unit = .scalar →
      (parts.atPlace place).add place (place.rename p.name) schema (decide (place = .path) || !schema.isNullable)
        p.location = .ok props →
      Takes r p schema parts (.request p.name p.node (place.single p.name) (some schema))
        (parts.withPlace props place)
  | whole {place : Place} {view object : Schema} {props : Properties} :
      c.shapeOf p.node p.location.unit = .structured →
      r.registry.objectView? (schema.unwrapNullable?.getD schema) = some view →
      object.keywords.properties = view.keywords.properties →
      (object.keywords.required = if schema.isNullable then none else view.keywords.required) →
      (parts.atPlace place).merge place object place.rename p.location = .ok props →
      Takes r p schema parts (.request p.name p.node place.whole (some schema)) (parts.withPlace props place)
  | body : parts.body = none →
      Takes r p schema parts (.request p.name p.node .body (some schema)) { parts with body := some schema }

/-! ### Taking and reading

One lemma for each function that takes a parameter of a known place, and then one for each way to know the place. -/

/-- A single property has to be a scalar; it is required in a path, and elsewhere unless it can be null. -/
theorem takes_property {place : Place} {p : Parameter} {schema : Schema}
    (hshape : c.shapeOf p.node p.location.unit = .scalar)
    (h : (property place p schema : Bind c Binding).Gives parts r b parts' r') :
    Takes r p schema parts b parts' ∧ r' = r := by
  have key {name : String} {required : Bool} {field : Field} (hname : name = place.rename p.name)
      (hrequired : required = (decide (place = .path) || !schema.isNullable)) (hfield : field = place.single p.name)
      (h : (do
        addProperty place name schema required p.location
        return .request p.name p.node field (some schema) : Bind c Binding).Gives parts r b parts' r') :
      Takes r p schema parts b parts' ∧ r' = r := by
    obtain ⟨_, _, _, hadd, h₁⟩ := gives_bind.mp h
    obtain ⟨⟨props, hprops, rfl⟩, rfl⟩ := gives_addProperty.mp hadd
    obtain ⟨rfl, rfl, rfl⟩ := gives_pure.mp h₁
    rw [hname, hrequired] at hprops
    rw [hfield]
    exact ⟨.property hshape hprops, rfl⟩
  cases place with
  | path => exact key rfl rfl rfl h
  | query => exact key rfl rfl rfl h
  | header => exact key rfl rfl rfl h

/-- An object fills a place with its properties, required as they are in the object unless it can be null. -/
theorem takes_whole {place : Place} {p : Parameter} {schema : Schema}
    (hshape : c.shapeOf p.node p.location.unit = .structured)
    (h : (whole place p schema : Bind c Binding).Gives parts r b parts' r') :
    Takes r p schema parts b parts' ∧ r' = r := by
  obtain ⟨object, _, _, hobject, h₁⟩ := gives_bind.mp h
  obtain ⟨⟨view, hview, hprops, hrequired⟩, rfl, rfl⟩ := gives_objectOf hobject
  obtain ⟨_, _, _, hadd, h₂⟩ := gives_bind.mp h₁
  obtain ⟨⟨props, hmerge, rfl⟩, rfl⟩ := gives_addObject.mp hadd
  obtain ⟨rfl, rfl, rfl⟩ := gives_pure.mp h₂
  exact ⟨.whole hshape hview hprops hrequired hmerge, rfl⟩

/-- A body is taken once at most. -/
theorem takes_body {p : Parameter} {schema : Schema}
    (h : (body p schema : Bind c Binding).Gives parts r b parts' r') :
    Takes r p schema parts b parts' ∧ r' = r := by
  obtain ⟨_, _, _, htake, h₁⟩ := gives_bind.mp h
  obtain ⟨hbody, rfl⟩ := gives_update.mp htake
  obtain ⟨rfl, rfl, rfl⟩ := gives_pure.mp h₁
  split at hbody
  · cases hbody
  next hnone =>
    cases hbody
    exact ⟨.body (by simpa using hnone), rfl⟩

/-- A parameter adds to the request what its schema can add. -/
theorem Takes.contributes {p : Parameter} {schema : Schema} (h : Takes r p schema parts b parts') :
    b.schemas = [schema] ∧ ∀ s ∈ parts'.schemas, s ∈ parts.schemas ∨ Contributes r.registry schema s := by
  cases h with
  | property _ hadd =>
    refine ⟨rfl, fun s hs => ?_⟩
    rcases RequestParts.mem_schemas_withPlace hs with hs | hs
    · exact Or.inl hs
    · rw [Properties.add_eq_ok hadd] at hs
      rcases Table.mem_values_insert hs with rfl | hs
      · exact Or.inr .self
      · exact Or.inl (RequestParts.mem_schemas_of_atPlace hs)
  | whole _ hview hprops _ hmerge =>
    refine ⟨rfl, fun s hs => ?_⟩
    -- the object may be the schema itself, or what is wrapped in it
    have htarget : schema.unwrapNullable?.getD schema = schema ∨
        schema.unwrapNullable? = some (schema.unwrapNullable?.getD schema) := by
      cases schema.unwrapNullable? with
      | none => exact Or.inl rfl
      | some inner => exact Or.inr rfl
    rcases RequestParts.mem_schemas_withPlace hs with hs | hs
    · exact Or.inl hs
    · rcases Properties.mem_of_addAll hmerge hs with hs | hs
      · exact Or.inl (RequestParts.mem_schemas_of_atPlace hs)
      · rw [hprops] at hs
        obtain ⟨⟨name, s⟩, hmem, rfl⟩ := List.mem_map.mp hs
        exact Or.inr (.property htarget hview hmem)
  | body =>
    refine ⟨rfl, fun s hs => ?_⟩
    rw [RequestParts.mem_schemas] at hs ⊢
    rcases hs with hs | hs | hs | hs
    · exact Or.inl (Or.inl hs)
    · exact Or.inl (Or.inr (Or.inl hs))
    · exact Or.inl (Or.inr (Or.inr (Or.inl hs)))
    · cases hs
      exact Or.inr .self

/-- How a parameter that no provider provides is read from the request. -/
inductive Reads (verb : Verb) (p : Parameter) (parts : RequestParts) (r : Resolver c) :
    Binding → RequestParts → Resolver c → Prop where
  | raw (target : RawTarget) : (target = .socket → verb = .ws) →
      Reads verb p parts r (.request p.name p.node target.field none) parts r
  | schema {s : Schema} {r' : Resolver c} {positional : Option String} {b : Binding} {parts' : RequestParts} :
      (resolve p.node p.location : Resolving c Schema).run r = (.ok s, r') →
      Takes r' p s { parts with positional } b parts' → Reads verb p parts r b parts' r'

/-- An object of the server is read without a schema, and a socket only where the verb is one. -/
theorem reads_raw {p : Parameter} {target : RawTarget} {verb : Verb}
    (h : (raw p target verb : Bind c Binding).Gives parts r b parts' r') : Reads verb p parts r b parts' r' := by
  cases target with
  | request =>
    obtain ⟨rfl, rfl, rfl⟩ := gives_pure.mp h
    exact .raw .request nofun
  | reply =>
    obtain ⟨rfl, rfl, rfl⟩ := gives_pure.mp h
    exact .raw .reply nofun
  | socket =>
    rw [raw] at h
    split at h
    next hverb =>
      obtain ⟨rfl, rfl, rfl⟩ := gives_pure.mp h
      exact .raw .socket fun _ => hverb
    · exact absurd h not_gives_fail

/-- A parameter of a place is taken as one property or as an object, depending on its shape. -/
theorem reads_placed {place : Place} {p : Parameter} {verb : Verb}
    (h : (placed place p : Bind c Binding).Gives parts r b parts' r') : Reads verb p parts r b parts' r' := by
  obtain ⟨s, _, _, hschema, h₁⟩ := gives_bind.mp h
  obtain ⟨hs, rfl⟩ := gives_schemaOf.mp hschema
  split at h₁
  next hshape =>
    obtain ⟨htakes, rfl⟩ := takes_whole hshape h₁
    exact .schema hs htakes
  next hshape =>
    obtain ⟨htakes, rfl⟩ := takes_property hshape h₁
    exact .schema hs htakes

/-- A marker decides where a parameter is read. -/
theorem reads_marked {p : Parameter} {verb : Verb} {marker : Marker}
    (h : (marked p verb marker : Bind c Binding).Gives parts r b parts' r') : Reads verb p parts r b parts' r' := by
  cases marker with
  | raw target => exact reads_raw h
  | path => exact reads_placed h
  | query => exact reads_placed h
  | header => exact reads_placed h
  | body =>
    obtain ⟨s, _, _, hschema, h₁⟩ := gives_bind.mp h
    obtain ⟨hs, rfl⟩ := gives_schemaOf.mp hschema
    obtain ⟨htakes, rfl⟩ := takes_body h₁
    exact .schema hs htakes

/-- Without a marker, the tokens of the address and the verb decide. -/
theorem reads_positional {p : Parameter} {verb : Verb} {tokens : List String}
    (h : (positional p verb tokens : Bind c Binding).Gives parts r b parts' r') :
    Reads verb p parts r b parts' r' := by
  obtain ⟨s, _, _, hschema, h₁⟩ := gives_bind.mp h
  obtain ⟨hs, rfl⟩ := gives_schemaOf.mp hschema
  split at h₁
  next hshape =>
    obtain ⟨htakes, rfl⟩ := takes_property hshape h₁
    exact .schema hs htakes
  next hshape =>
    obtain ⟨_, _, _, hget, h₂⟩ := gives_bind.mp h₁
    cases hget
    split at h₂
    · exact absurd h₂ not_gives_fail
    · obtain ⟨_, _, _, hmod, h₃⟩ := gives_bind.mp h₂
      cases hmod
      split at h₃
      · obtain ⟨htakes, rfl⟩ := takes_body h₃
        exact .schema hs htakes
      · obtain ⟨htakes, rfl⟩ := takes_whole hshape h₃
        exact .schema hs htakes

/-! ## Providers

The search goes down a chain of providers and ends at one that is on the chain already. `Binds` leaves the chain out:
what succeeds does not depend on where in it it was bound. -/

/-- Binding a parameter, one step of the search for providers unfolded. -/
theorem parameter_eq (providers : Providers) (verb : Verb) (tokens chain : List String) (p : Parameter) :
    (parameter providers verb tokens chain p : Bind c Binding) =
      match providers.find? p.name with
      | some provider =>
        if chain.contains p.name = true then fail p.location (.providerCycle (chain ++ [p.name]))
        else
          match provider.output.filter fun output => !output.same p.node with
          | some output =>
            fail p.location (.providerMismatch p.name output.displayName p.name p.node.displayName)
          | none => do
            let dependencies ← provider.params.mapM (parameter providers verb tokens (chain ++ [p.name]))
            modifyThe RequestParts fun r => { r with shortCircuits := r.shortCircuits || provider.mayAbort }
            return .provided p.name p.node provider.target provider.mayAbort dependencies
      | none =>
        match p.marker with
        | some marker => marked p verb marker
        | none => positional p verb tokens := by
  rw [parameter]
  split
  next provider h =>
    rewrite [h]
    rfl
  next h =>
    rewrite [h]
    rfl

/-- How parameters are bound, one after another: by the provider of its name, whose own parameters are bound first, or
by being read from the request if there is no provider. The type that a provider declares for its value is written like
that of the parameter. -/
inductive Binds (providers : Providers) (verb : Verb) : List Parameter → RequestParts → Resolver c → List Binding →
    RequestParts → Resolver c → Prop where
  | nil {parts : RequestParts} {r : Resolver c} : Binds providers verb [] parts r [] parts r
  | read {p : Parameter} {ps : List Parameter} {parts parts₁ parts' : RequestParts} {r r₁ r' : Resolver c} {b : Binding}
      {bs : List Binding} :
      providers.find? p.name = none → Reads verb p parts r b parts₁ r₁ →
      Binds providers verb ps parts₁ r₁ bs parts' r' → Binds providers verb (p :: ps) parts r (b :: bs) parts' r'
  | provided {p : Parameter} {ps : List Parameter} {parts parts₁ parts' : RequestParts} {r r₁ r' : Resolver c}
      {provider : Provider} {dependencies bs : List Binding} :
      providers.find? p.name = some provider → (∀ output, provider.output = some output → output.same p.node = true) →
      Binds providers verb provider.params parts r dependencies parts₁ r₁ →
      Binds providers verb ps { parts₁ with shortCircuits := parts₁.shortCircuits || provider.mayAbort } r₁ bs
        parts' r' →
      Binds providers verb (p :: ps) parts r
        (.provided p.name p.node provider.target provider.mayAbort dependencies :: bs) parts' r'

/-- Parameters that are bound in a row are bound by the rules. The induction is that of the search itself: over the
aliases that are not on the chain yet, and then over the parameters. -/
theorem gives_mapM_binds {providers : Providers} {verb : Verb} {tokens chain : List String} {ps : List Parameter}
    {bs : List Binding} (h : (ps.mapM (parameter providers verb tokens chain) : Bind c _).Gives parts r bs parts' r') :
    Binds providers verb ps parts r bs parts' r' := by
  -- the number of aliases outside the chain goes down when a provider is entered
  induction hn : outside providers chain using Nat.strongRecOn generalizing chain ps parts parts' r r' bs with
  | ind n ihChain =>
  induction ps generalizing parts r bs with
  | nil =>
    rw [List.mapM_nil] at h
    obtain ⟨rfl, rfl, rfl⟩ := gives_pure.mp h
    exact .nil
  | cons p rest ih =>
    rw [List.mapM_cons] at h
    obtain ⟨b, parts₁, r₁, hb, h₁⟩ := gives_bind.mp h
    obtain ⟨bs', parts₂, r₂, hbs, h₂⟩ := gives_bind.mp h₁
    obtain ⟨rfl, rfl, rfl⟩ := gives_pure.mp h₂
    rw [parameter_eq] at hb
    split at hb
    next provider hfound =>
      split at hb
      · exact absurd hb not_gives_fail
      next hfresh =>
        split at hb
        · exact absurd hb not_gives_fail
        next hmatching =>
          have houtput (output : TypeExpr) (h : provider.output = some output) : output.same p.node = true := by
            simpa using Option.filter_eq_none_iff.mp hmatching output h
          obtain ⟨dependencies, parts₂, r₂, hdeps, hb₁⟩ := gives_bind.mp hb
          obtain ⟨_, _, _, hmod, hb₂⟩ := gives_bind.mp hb₁
          cases hmod
          obtain ⟨rfl, rfl, rfl⟩ := gives_pure.mp hb₂
          exact .provided hfound houtput (ihChain _ (hn ▸ outside_concat_lt hfound hfresh) hdeps rfl) (ih hbs)
    next hnone =>
      split at hb
      · exact .read hnone (reads_marked hb) (ih hbs)
      · exact .read hnone (reads_positional hb) (ih hbs)

/-- The parameters of a handler are bound by the rules, with an empty chain to begin with. -/
theorem binds_of_bindAll {providers : Providers} {verb : Verb} {tokens : List String} {params : List Parameter}
    {bindings : List Binding} (h : (bindAll providers verb tokens params).run r = (.ok (bindings, parts), r')) :
    Binds providers verb params {} r bindings parts r' := gives_mapM_binds h

end Bind

end RouteManifest
