import RouteManifest.Proofs.Operations
import RouteManifest.Proofs.PathParameters

/-!
# What a request must have

A place of the request requires exactly what the readings of it require, in their order (`RequestParts.Requires`): one
property of the path always, one property of another place unless it can be null, and of an object the properties that
the object requires, unless it can be null as a whole.

A document says of every parameter of a path that it is required. A route says so of those alone that its schema
requires. So the two agree about a route just if every object that it reads from the path is required to have all its
properties (`path_parameters_required_iff`).
-/

namespace RouteManifest

variable {c : Catalog}

/-! ## Readings

A reading demands a property or leaves it optional, and what it demands is among what it claims. -/

namespace Reading

/-- Whether a property that is read must be there. -/
def demands (registry : Registry) (x : Reading) (name : String) : Bool :=
  if x.field.isWhole then
    !x.schema.any Schema.isNullable &&
      (((x.object? registry).bind fun object => object.keywords.required).getD []).contains name
  else decide (x.field.place? = some .path) || !x.schema.any Schema.isNullable

/-- The names that a place must have, as they are written there. -/
def requires (registry : Registry) (place : Place) (x : Reading) : List String :=
  if x.field.place? = some place then ((x.properties registry).names.filter (x.demands registry)).map place.rename
  else []

variable {registry : Registry} {place : Place} {x : Reading}

/-- A reading requires nothing of a place that it does not read from. -/
theorem requires_of_place?_ne (h : x.field.place? ≠ some place) : x.requires registry place = [] := if_neg h

/-- The names that are claimed of the path are the names of the properties that are read, since nothing is renamed
there. -/
theorem names_claims_path (h : x.field.place? = some .path) :
    (x.claims registry .path).names = (x.properties registry).names := by
  rw [claims, if_pos h, Table.names, List.map_map]
  rfl

/-- What a reading of the path requires is among what it claims. -/
theorem mem_requires_path {name : String} : name ∈ x.requires registry .path ↔
    name ∈ (x.claims registry .path).names ∧ x.demands registry name = true := by
  by_cases h : x.field.place? = some .path
  · rw [names_claims_path h, requires, if_pos h, show (Place.path).rename = id from rfl, List.map_id, List.mem_filter]
  · rw [requires_of_place?_ne h, claims_of_place?_ne h]
    simp [Table.names]

/-- A reading that expands requires the same from then on. -/
theorem requires_of_moves {registry' : Registry} (hmoves : Registry.Moves registry registry')
    (hexpands : x.field.isWhole = true → (x.object? registry).isSome = true) (place : Place) :
    x.requires registry' place = x.requires registry place := by
  have hobject (h : x.field.isWhole = true) : x.object? registry' = x.object? registry := by
    obtain ⟨object, hobject⟩ := Option.isSome_iff_exists.mp (hexpands h)
    rw [hobject, object?_of_moves hmoves hobject]
  have hproperties : x.properties registry' = x.properties registry := by
    rw [properties, properties]
    split
    next h => rw [hobject h]
    · rfl
  have hdemands : x.demands registry' = x.demands registry := by
    funext name
    rw [demands, demands]
    split
    next h => rw [hobject h]
    · rfl
  rw [requires, requires, hproperties, hdemands]

end Reading

/-! ## Properties

The required names of a place grow at the end, like its properties, and in the same order. -/

namespace Properties

variable {p p' : Properties} {place : Place} {location : Location}

/-- A property that must be there adds its name to the required ones, at the end. -/
theorem required_of_add {name : String} {schema : Schema} {required : Bool}
    (h : p.add place name schema required location = .ok p') :
    p'.required = p.required ++ if required then [name] else [] := by
  rw [add] at h
  split at h
  · cases h
  · cases h
    cases required
    · exact (List.append_nil _).symm
    · rfl

/-- The properties of an object add the names that the object requires, as they are written in the place. -/
theorem required_of_addAll {rename : String → String} {required : List String} {added : Table Schema}
    (h : p.addAll place rename required location added = .ok p') :
    p'.required = p.required ++ (added.names.filter required.contains).map rename := by
  induction added generalizing p with
  | nil =>
    cases h
    exact (List.append_nil _).symm
  | cons e rest ih =>
    obtain ⟨name, schema⟩ := e
    rw [addAll] at h
    split at h
    · cases h
    next p₁ hadd =>
      have hnames : Table.names ((name, schema) :: rest) = name :: Table.names rest := rfl
      rw [ih h, required_of_add hadd, hnames, List.filter_cons, List.append_assoc]
      cases required.contains name <;> rfl

end Properties

/-! ## Parts that require what readings require

The invariant of binding extends that of `RequestParts.Describes` by the required names. The rules that bind a parameter
are gone through once more, for this one field. -/

namespace RequestParts

/-- The parts are what the readings ask for, and require what the readings require. -/
structure Requires (registry : Registry) (verb : Verb) (parts : RequestParts) (xs : List Reading) : Prop extends
    Describes registry verb parts xs where
  required : ∀ place, (parts.atPlace place).required = xs.flatMap (Reading.requires registry place)

variable {registry : Registry} {verb : Verb} {parts parts' : RequestParts} {xs : List Reading}

theorem Requires.empty (registry : Registry) (verb : Verb) : ({} : RequestParts).Requires registry verb [] :=
  ⟨.empty registry verb, fun place => by cases place <;> rfl⟩

theorem Requires.moves {registry' : Registry} (h : parts.Requires registry verb xs)
    (hmoves : Registry.Moves registry registry') : parts.Requires registry' verb xs := by
  refine ⟨h.toDescribes.moves hmoves, fun place => ?_⟩
  rw [h.required place]
  exact List.flatMap_congr fun x hx => (Reading.requires_of_moves hmoves (h.expands x hx) place).symm

/-- What is collected apart from places and body says nothing of the readings. -/
theorem Requires.congr (h : parts.Requires registry verb xs) (hsame : ∀ place, parts'.atPlace place = parts.atPlace place)
    (hbody : parts'.body = parts.body) : parts'.Requires registry verb xs :=
  ⟨h.toDescribes.congr hsame hbody, fun place => hsame place ▸ h.required place⟩

/-- One more reading of a place, which has come to require what the reading does. -/
theorem Requires.withPlace {place : Place} {x : Reading} {props : Properties} (h : parts.Requires registry verb xs)
    (hdescribes : (parts.withPlace props place).Describes registry verb (xs ++ [x]))
    (hplace : x.field.place? = some place)
    (hprops : props.required = (parts.atPlace place).required ++ x.requires registry place) :
    (parts.withPlace props place).Requires registry verb (xs ++ [x]) := by
  refine ⟨hdescribes, fun other => ?_⟩
  rw [atPlace_withPlace, List.flatMap_append, List.flatMap_singleton]
  split
  next heq => rw [heq, hprops, h.required place]
  next hne =>
    have hnone : x.requires registry other = [] :=
      Reading.requires_of_place?_ne fun heq => hne (Option.some.inj (heq.symm.trans hplace))
    rw [hnone, List.append_nil, h.required other]

/-- One more reading of something that is no place, all places as they were. -/
theorem Requires.aside {x : Reading} (h : parts.Requires registry verb xs)
    (hdescribes : parts'.Describes registry verb (xs ++ [x])) (hplace : x.field.place? = none)
    (hsame : ∀ place, parts'.atPlace place = parts.atPlace place) : parts'.Requires registry verb (xs ++ [x]) := by
  refine ⟨hdescribes, fun place => ?_⟩
  rw [hsame, h.required place, List.flatMap_append, List.flatMap_singleton,
    Reading.requires_of_place?_ne (by simp [hplace]), List.append_nil]

end RequestParts

namespace Bind

variable {parts parts' : RequestParts} {r r' : Resolver c} {b : Binding} {verb : Verb} {xs : List Reading}

/-- What a parameter takes is required as its reading says. -/
theorem Takes.requires {p : Parameter} {schema : Schema} (h : Takes r p schema parts b parts')
    (hparts : parts.Requires r.registry verb xs) : parts'.Requires r.registry verb (xs ++ b.readings) := by
  have hdescribes := h.describes hparts.toDescribes
  cases h with
  | @property place props _ hadd =>
    refine hparts.withPlace hdescribes (place.place?_single p.name) ?_
    rw [Properties.required_of_add hadd, Reading.requires, if_pos (place.place?_single p.name)]
    have hdemands : Reading.demands r.registry ⟨p.name, place.single p.name, some schema⟩ p.name =
        (decide (place = .path) || !schema.isNullable) := by
      simp [Reading.demands]
    have hnames : (Reading.properties r.registry ⟨p.name, place.single p.name, some schema⟩).names = [p.name] := by
      simp [Reading.properties, Table.names]
    rw [hnames, List.filter_singleton, hdemands]
    cases decide (place = .path) || !schema.isNullable <;> rfl
  | @whole place view object props _ hview hprops hrequired hmerge =>
    refine hparts.withPlace hdescribes place.place?_whole ?_
    have hview : Reading.object? r.registry ⟨p.name, place.whole, some schema⟩ = some view := hview
    have hdemands : Reading.demands r.registry ⟨p.name, place.whole, some schema⟩ =
        (object.keywords.required.getD []).contains := by
      funext name
      rw [Reading.demands, if_pos place.isWhole_whole, hview, hrequired]
      cases hnull : schema.isNullable <;> simp [hnull]
    rw [Properties.required_of_addAll hmerge, Reading.requires, if_pos place.place?_whole, Reading.properties,
      if_pos place.isWhole_whole, hview, hdemands, hprops]
    rfl
  | body => exact hparts.aside hdescribes rfl fun place => by cases place <;> rfl

/-- What is read of a parameter without a provider is required as its reading says. -/
theorem Reads.requires {p : Parameter} (h : Reads verb p parts r b parts' r')
    (hparts : parts.Requires r.registry verb xs) : parts'.Requires r'.registry verb (xs ++ b.readings) := by
  have hdescribes := h.describes hparts.toDescribes
  cases h with
  | raw target =>
    refine hparts.aside hdescribes ?_ fun _ => rfl
    cases target <;> rfl
  | schema hs htakes =>
    have hruns : Runs {} (.node [] p.location p.node) r (.ok _) r' := runs_iff.mpr hs
    refine htakes.requires ((hparts.moves hruns.moves).congr (fun place => ?_) rfl)
    cases place <;> rfl

/-- The parts grow by what the leaves of the bindings require. -/
theorem Binds.requires {providers : Providers} {ps : List Parameter} {bs : List Binding}
    (h : Binds providers verb ps parts r bs parts' r') (hparts : parts.Requires r.registry verb xs) :
    parts'.Requires r'.registry verb (xs ++ Binding.readingsOf bs) := by
  induction h generalizing xs with
  | nil =>
    rw [Binding.readingsOf, List.append_nil]
    exact hparts
  | read _ hread _ ih =>
    rw [Binding.readingsOf, ← List.append_assoc]
    exact ih (hread.requires hparts)
  | provided _ _ _ _ ihDeps ih =>
    rw [Binding.readingsOf, ← List.append_assoc]
    exact ih ((ihDeps hparts).congr (fun place => by cases place <;> rfl) rfl)

end Bind

/-! ## Routes

A place that has no properties has no schema, and then it requires nothing. So the names that a route requires are those
that the parts do. -/

/-- A place requires what was collected for it. -/
theorem RequestParts.requiredAt_toRouteSchema (parts : RequestParts) (response : Schema) {place : Place}
    (h : (parts.atPlace place).Proper) :
    (parts.toRouteSchema response).requiredAt place = (parts.atPlace place).required := by
  obtain ⟨closed, hclosed⟩ := parts.atPlace_toRouteSchema response place
  rw [RouteSchema.requiredAt, hclosed, Properties.toSchema?]
  split
  next hempty =>
    -- a place without properties is left out, and had none to require
    refine (List.eq_nil_iff_forall_not_mem.mpr fun name hname => ?_).symm
    have hmem := h.required name hname
    rw [List.isEmpty_iff.mp hempty] at hmem
    cases hmem
  · show (if (parts.atPlace place).required.isEmpty then none else some _ : Option (List String)).getD [] = _
    split
    next hempty => exact (List.isEmpty_iff.mp hempty).symm
    · rfl

/-- The schemas of a route require what the leaves of its bindings require. -/
theorem requiredAt_of_buildRoute {providers : Providers} {address : UnitAddress} {verb : Verb} {operationId : String}
    {handler : Handler} {r r' : Resolver c} {route : Route}
    (h : (buildRoute providers address verb operationId handler).run r = (.ok route, r')) :
    route.schema.Describes r'.registry verb (Binding.readingsOf route.parameters) ∧
      ∀ place, route.schema.requiredAt place =
        (Binding.readingsOf route.parameters).flatMap (Reading.requires r'.registry place) := by
  obtain ⟨bindings, parts, response, r₁, hbind, -, hresponse, hmade⟩ := buildRoute_eq_ok h
  have hschema : route.schema = parts.toRouteSchema response := by rw [hmade]
  have hparameters : route.parameters = bindings := by rw [hmade]
  rw [hschema, hparameters]
  have hruns : Runs {} (.node [] handler.location handler.response) r₁ (.ok response) r' := runs_iff.mpr hresponse
  have hparts := ((Bind.binds_of_bindAll hbind).requires (.empty r.registry verb)).moves hruns.moves
  refine ⟨hparts.toDescribes.toRouteSchema response, fun place => ?_⟩
  rw [parts.requiredAt_toRouteSchema response (hparts.proper place)]
  exact hparts.required place

namespace OpenApi

/-- A parameter is in the place that it was made for. -/
theorem place_of_mem_parametersOf {place : String} {always : Bool} {schema : Option Schema} {p : Parameter}
    (h : p ∈ parametersOf place always schema) : p.place = place := by
  cases schema with
  | none => cases h
  | some s =>
    obtain ⟨_, -, rfl⟩ := List.mem_map.mp h
    rfl

/-- A document has one parameter of the path for every property of the path, and requires all of them. -/
theorem pathParameters_operation (route : Route) :
    (route.operation.parameters.filter fun p => p.place = "path").map (fun p => (p.name, p.required)) =
      (route.schema.propertiesAt .path).names.map fun name => (name, true) := by
  have hother {place : String} {schema : Option Schema} (hne : place ≠ "path") :
      (parametersOf place false schema).filter (fun p => p.place = "path") = [] :=
    List.filter_eq_nil_iff.mpr fun p hp => by simp [place_of_mem_parametersOf hp, hne]
  have hpath : (parametersOf "path" true route.schema.params).filter (fun p => p.place = "path") =
      parametersOf "path" true route.schema.params :=
    List.filter_eq_self.mpr fun p hp => by simp [place_of_mem_parametersOf hp]
  have hparameters : route.operation.parameters = parametersOf "path" true route.schema.params ++
      parametersOf "query" false route.schema.querystring ++ parametersOf "header" false route.schema.headers := rfl
  rw [hparameters, List.filter_append, List.filter_append, hpath, hother (by decide), hother (by decide),
    List.append_nil, List.append_nil, RouteSchema.propertiesAt, RouteSchema.atPlace]
  cases route.schema.params with
  | none => rfl
  | some s =>
    rw [parametersOf, List.map_map, Table.names, List.map_map]
    rfl

end OpenApi

/-! ## The document and the route

A document asks for every parameter of a path. A route asks for those that its leaves require, and a leaf that reads the
path as a whole may require fewer than it claims. -/

/-- What two leaves claim of one place is different. -/
theorem eq_of_claim {registry : Registry} {place : Place} {xs : List Reading} {x y : Reading} {name : String}
    (hnodup : (xs.flatMap fun x => (x.claims registry place).names).Nodup) (hx : x ∈ xs) (hy : y ∈ xs)
    (hxname : name ∈ (x.claims registry place).names) (hyname : name ∈ (y.claims registry place).names) : x = y := by
  obtain ⟨before, z, after, rfl, -, hothers⟩ := exists_unique_claim hnodup (List.mem_flatMap.mpr ⟨x, hx, hxname⟩)
  have key {w : Reading} (hw : w ∈ before ++ z :: after) (hwname : name ∈ (w.claims registry place).names) : w = z := by
    by_contra hne
    refine hothers w ?_ hwname
    rw [List.mem_append, List.mem_cons] at hw
    exact List.mem_append.mpr (hw.imp_right (Or.resolve_left · hne))
  exact (key hx hxname).trans (key hy hyname).symm

/-- A property of the path is required just if the leaf that reads it requires it. -/
theorem mem_requiredAt_iff {registry : Registry} {verb : Verb} {s : RouteSchema} {xs : List Reading}
    (h : s.Describes registry verb xs)
    (hrequired : s.requiredAt .path = xs.flatMap (Reading.requires registry .path)) {x : Reading} (hx : x ∈ xs)
    {name : String} (hname : name ∈ (x.claims registry .path).names) :
    name ∈ s.requiredAt .path ↔ x.demands registry name = true := by
  rw [hrequired, List.mem_flatMap]
  constructor
  · rintro ⟨y, hy, hyname⟩
    obtain ⟨hclaim, hdemands⟩ := Reading.mem_requires_path.mp hyname
    have hnodup := h.nodup .path
    rw [h.properties .path, names_flatMap_claims] at hnodup
    rwa [eq_of_claim hnodup hx hy hname hclaim]
  · exact fun hdemands => ⟨x, hx, Reading.mem_requires_path.mpr ⟨hname, hdemands⟩⟩

/-- Every property of the path is required. -/
def RouteSchema.PathRequired (s : RouteSchema) : Prop :=
  ∀ name ∈ (s.propertiesAt .path).names, name ∈ s.requiredAt .path

/-- Every object that is read from the path as a whole cannot be null and requires all its properties. -/
def Reading.Firm (registry : Registry) (x : Reading) : Prop :=
  x.field = .params → ∀ s object, x.schema = some s → x.object? registry = some object →
    ∀ name ∈ Table.names (object.keywords.properties.getD []),
      s.isNullable = false ∧ name ∈ object.keywords.required.getD []

/-- A leaf that is not of the whole path requires what it claims of the path. -/
theorem Reading.demands_of_ne_params {registry : Registry} {x : Reading} {name : String} (hne : x.field ≠ .params)
    (hname : name ∈ (x.claims registry .path).names) : x.demands registry name = true := by
  have hplace : x.field.place? = some .path := by
    by_contra h
    rw [claims_of_place?_ne h] at hname
    cases hname
  have hwhole : x.field.isWhole = false := by
    cases hfield : x.field <;> simp_all [Field.place?, Field.isWhole]
  simp [demands, hwhole, hplace]

/-- All of the path is required just if every leaf requires all that it claims of it. -/
theorem pathRequired_iff {registry : Registry} {verb : Verb} {s : RouteSchema} {xs : List Reading}
    (h : s.Describes registry verb xs)
    (hrequired : s.requiredAt .path = xs.flatMap (Reading.requires registry .path)) :
    s.PathRequired ↔ ∀ x ∈ xs, x.Firm registry := by
  have hclaimed (name : String) : name ∈ (s.propertiesAt .path).names ↔
      ∃ x ∈ xs, name ∈ (x.claims registry .path).names := by
    rw [h.properties .path, names_flatMap_claims, List.mem_flatMap]
  have hwhole {x : Reading} (hfield : x.field = .params) {object : Schema} (hobject : x.object? registry = some object) :
      (x.claims registry .path).names = Table.names (object.keywords.properties.getD []) := by
    rw [Reading.names_claims_path (by rw [hfield]; rfl), Reading.properties, if_pos (by rw [hfield]; rfl), hobject]
    rfl
  have hdemands {x : Reading} (hfield : x.field = .params) {t object : Schema} (ht : x.schema = some t)
      (hobject : x.object? registry = some object) (name : String) : x.demands registry name = true ↔
        t.isNullable = false ∧ name ∈ object.keywords.required.getD [] := by
    rw [Reading.demands, if_pos (by rw [hfield]; rfl), ht, hobject]
    simp
  constructor
  · intro hall x hx hfield t object ht hobject name hname
    have hclaim : name ∈ (x.claims registry .path).names := by rwa [hwhole hfield hobject]
    refine (hdemands hfield ht hobject name).mp ((mem_requiredAt_iff h hrequired hx hclaim).mp (hall name ?_))
    exact (hclaimed name).mpr ⟨x, hx, hclaim⟩
  · intro hfirm name hname
    obtain ⟨x, hx, hclaim⟩ := (hclaimed name).mp hname
    refine (mem_requiredAt_iff h hrequired hx hclaim).mpr ?_
    -- only an object that is read as a whole can leave a property optional
    by_cases hfield : x.field = .params
    · obtain ⟨object, hobject⟩ := Option.isSome_iff_exists.mp (h.expands x hx (by rw [hfield]; rfl))
      obtain ⟨t, ht, -⟩ := Option.bind_eq_some_iff.mp hobject
      refine (hdemands hfield ht hobject name).mpr (hfirm x hx hfield t object ht hobject name ?_)
      rwa [hwhole hfield hobject] at hclaim
    · exact Reading.demands_of_ne_params hfield hclaim

/-- What is required of the path. The schemas of an accepted route require of each place what the leaves of its bindings
require, in their order, and a leaf that is one property of the path requires it, wherever it stands in a chain of
providers. The document of the route requires all parameters of its path. So the schema says the same as the document
just if every object that is read from the path as a whole cannot be null and requires all its properties. -/
theorem path_parameters_required_iff {providers : Providers} {address : UnitAddress} {verb : Verb}
    {operationId : String} {handler : Handler} {r r' : Resolver c} {route : Route}
    (h : (buildRoute providers address verb operationId handler).run r = (.ok route, r')) :
    let leaves := Binding.readingsOf route.parameters
    (∀ place, route.schema.requiredAt place = leaves.flatMap (Reading.requires r'.registry place)) ∧
    (∀ x ∈ leaves, x.field ≠ .params → ∀ name ∈ (x.claims r'.registry .path).names,
      name ∈ route.schema.requiredAt .path) ∧
    (route.schema.PathRequired ↔ ∀ x ∈ leaves, x.Firm r'.registry) ∧
    ((route.operation.parameters.filter fun p => p.place = "path").map (fun p => (p.name, p.required)) =
      (route.schema.propertiesAt .path).names.map fun name => (name, true)) ∧
    ((∀ p ∈ route.operation.parameters, p.place = "path" →
      (p.required = true ↔ p.name ∈ route.schema.requiredAt .path)) ↔ route.schema.PathRequired) := by
  intro leaves
  obtain ⟨hdescribes, hrequired⟩ := requiredAt_of_buildRoute h
  have hdocument := OpenApi.pathParameters_operation route
  refine ⟨hrequired, fun x hx hne name hname => ?_, pathRequired_iff hdescribes (hrequired .path), hdocument, ?_⟩
  · exact (mem_requiredAt_iff hdescribes (hrequired .path) hx hname).mpr (Reading.demands_of_ne_params hne hname)
  · have hparameter (name : String) : name ∈ (route.schema.propertiesAt .path).names ↔
        ∃ p ∈ route.operation.parameters, p.place = "path" ∧ p.name = name := by
      have hnames := congrArg (List.map Prod.fst) hdocument
      simp only [List.map_map, Function.comp_def, List.map_id'] at hnames
      rw [← hnames, List.mem_map]
      simp [List.mem_filter, and_assoc]
    have halways : ∀ p ∈ route.operation.parameters, p.place = "path" → p.required = true := by
      intro p hp hplace
      have hmem : (p.name, p.required) ∈ (route.schema.propertiesAt .path).names.map fun name => (name, true) := by
        rw [← hdocument]
        exact List.mem_map_of_mem (List.mem_filter.mpr ⟨hp, decide_eq_true hplace⟩)
      obtain ⟨_, -, heq⟩ := List.mem_map.mp hmem
      exact (Prod.mk.inj heq).2.symm
    constructor
    · intro hagree name hname
      obtain ⟨p, hp, hplace, rfl⟩ := (hparameter name).mp hname
      exact (hagree p hp hplace).mp (halways p hp hplace)
    · intro hall p hp hplace
      exact iff_of_true (halways p hp hplace) (hall p.name ((hparameter p.name).mpr ⟨p, hp, hplace, rfl⟩))

/-- A key is of a tenant, and perhaps of a region. -/
def keyCatalog : Catalog where
  declarations := [
    { name := "Key", location := ⟨⟨"key.rs"⟩, 1, 0⟩,
      body := .object [("tenant", ⟨.string, true⟩), ("region", ⟨.string, false⟩)] false }]

/-- A handler that reads a key from the path as a whole. -/
def keyHandler : Handler where
  exportName := "get"
  params := [{ name := "key", node := .reference "Key", marker := some .path, location := ⟨⟨"[tenant]/[region].rs"⟩, 1, 0⟩ }]
  location := ⟨⟨"[tenant]/[region].rs"⟩, 1, 0⟩

/-- A key is an object, so it is read from the path as a whole. -/
theorem keyCatalog_shapeOf_key (unit : Path) : keyCatalog.shapeOf (.reference "Key") unit = .structured := by
  have hlookup : keyCatalog.lookup? "Key" unit = some ⟨0, by decide⟩ := rfl
  rw [Catalog.shapeOf, Catalog.anyStructured, hlookup]
  simp [Catalog.anyStructured, Catalog.get, keyCatalog]

/-- The handler is accepted, and the document requires both of its parameters; the route requires one. -/
theorem path_parameters_required_iff_key : ∃ (route : Route) (r' : Resolver keyCatalog),
    (buildRoute [] (UrlRules.address ⟨⟨""⟩, .empty⟩ ⟨"[tenant]/[region].rs"⟩) .get "getKey" keyHandler).run {} =
      (.ok route, r') ∧
    (route.operation.parameters.filter fun p => p.place = "path").map (fun p => (p.name, p.required)) =
      [("tenant", true), ("region", true)] ∧
    route.schema.requiredAt .path = ["tenant"] ∧ ¬route.schema.PathRequired ∧
    ∃ x ∈ Binding.readingsOf route.parameters, ¬x.Firm r'.registry := by
  have hrequired : ((buildRoute [] (UrlRules.address ⟨⟨""⟩, .empty⟩ ⟨"[tenant]/[region].rs"⟩) .get "getKey" keyHandler).run
      ({} : Resolver keyCatalog)).1.toOption.map
        (fun route => ((route.schema.propertiesAt .path).names, route.schema.requiredAt .path)) =
      some (["tenant", "region"], ["tenant"]) := by
    -- neither the search for providers nor the one for shapes computes by itself
    simp only [buildRoute, bindAll, keyHandler, List.mapM_cons, List.mapM_nil, Bind.parameter_eq, Table.find?,
      Bind.marked, Bind.placed, Bind.schemaOf, keyCatalog_shapeOf_key, resolve_eq_within]
    decide +kernel
  rcases h : (buildRoute [] (UrlRules.address ⟨⟨""⟩, .empty⟩ ⟨"[tenant]/[region].rs"⟩) .get "getKey" keyHandler).run
    ({} : Resolver keyCatalog) with ⟨fault | route, r'⟩
  · rw [h] at hrequired
    cases hrequired
  · rw [h] at hrequired
    obtain ⟨hnames, hrequired⟩ := Prod.mk.inj (Option.some.inj hrequired)
    obtain ⟨-, -, hfirm, hdocument, -⟩ := path_parameters_required_iff h
    have hnot : ¬route.schema.PathRequired := fun hall => by
      rw [RouteSchema.PathRequired, hnames, hrequired] at hall
      exact absurd (hall "region" (by decide)) (by decide)
    refine ⟨route, r', rfl, ?_, hrequired, hnot, ?_⟩
    · rw [hdocument, hnames]
      rfl
    · rw [hfirm] at hnot
      simpa only [not_forall, exists_prop] using hnot

end RouteManifest
