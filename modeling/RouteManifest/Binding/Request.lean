import RouteManifest.Binding.Basic
import RouteManifest.Resolution.Basic
import RouteManifest.Resolution.Shape
import RouteManifest.Text.Case

/-!
# Binding the parameters of a handler

Where a parameter is read from is decided in three steps: a provider of its name, then its mark, then its
shape. An unmarked scalar is a path parameter if the path has a segment of its name and a query field
otherwise; one unmarked structured parameter is the body, or the query object of a verb without a body.

Every parameter read from the request adds to what the request must look like: `RequestParts` collects the
properties of path, query string and headers, and the body. Two parameters cannot claim one property.

**Why it ends.** A provider is entered only while it is not already being entered, so the number of
aliases that are not in the chain of providers goes down.
-/

namespace RouteManifest

/-- Properties collected for one part of the request. -/
structure Properties where
  schemas : Table Schema := []
  required : List String := []

/-- What the parameters bound so far ask of the request. -/
structure RequestParts where
  params : Properties := {}
  query : Properties := {}
  headers : Properties := {}
  body : Option Schema := none
  /-- the unmarked structured parameter, if there has been one -/
  positional : Option String := none
  /-- whether some provider can end the request -/
  shortCircuits : Bool := false

/-- A named part of the request made of properties. -/
inductive Place where
  | path | query | header
deriving DecidableEq, Repr

namespace Place

/-- The place in messages. -/
def text : Place → String
  | .path => "path"
  | .query => "query"
  | .header => "header"

end Place

/-- The name of a header on the wire. -/
def headerName (name : String) : String :=
  String.ofList ((Text.toSmallText name).toList.map fun c => if c = '_' then '-' else c)

namespace Properties

/-- Adds a property; no two parameters may claim one name. -/
def add (p : Properties) (place : Place) (name : String) (schema : Schema) (required : Bool)
    (location : Location) : Except Fault Properties :=
  if p.schemas.contains name then .error (.invalidRoute location (.duplicateParameter place.text name))
  else
    .ok {
      schemas := p.schemas.insert name schema
      required := if required then p.required ++ [name] else p.required }

/-- Adds properties of an object under new names. -/
def addAll (p : Properties) (place : Place) (rename : String → String) (required : List String)
    (location : Location) : Table Schema → Except Fault Properties
  | [] => .ok p
  | (name, schema) :: rest =>
    match p.add place (rename name) schema (required.contains name) location with
    | .error fault => .error fault
    | .ok p => p.addAll place rename required location rest

/-- Adds the properties of an object schema under new names. -/
def merge (p : Properties) (place : Place) (object : Schema) (rename : String → String)
    (location : Location) : Except Fault Properties :=
  p.addAll place rename (object.keywords.required.getD []) location (object.keywords.properties.getD [])

/-- The object schema of the properties, if there are any. -/
def toSchema? (p : Properties) (closed : Bool) : Option Schema :=
  if p.schemas.isEmpty then none else some (.object p.schemas p.required closed)

end Properties

/-- The schemas of a route. -/
structure RouteSchema where
  params : Option Schema := none
  querystring : Option Schema := none
  body : Option Schema := none
  headers : Option Schema := none
  response : Schema := .mk {}

namespace RouteSchema

/-- The schemas as they are written out. -/
def toJson (s : RouteSchema) : Json :=
  .object (Keywords.entry "params" Schema.toJson s.params
    ++ Keywords.entry "querystring" Schema.toJson s.querystring
    ++ Keywords.entry "body" Schema.toJson s.body
    ++ Keywords.entry "headers" Schema.toJson s.headers
    ++ [("response", s.response.toJson)])

end RouteSchema

namespace RequestParts

/-- The names of the path parameters. -/
def paramNames (r : RequestParts) : List String := r.params.schemas.names

/-- The schemas of the route with its response. -/
def toRouteSchema (r : RequestParts) (response : Schema) : RouteSchema where
  params := r.params.toSchema? true
  querystring := r.query.toSchema? true
  body := r.body
  headers := r.headers.toSchema? false
  response

end RequestParts

/-- A computation that adds to the request parts. -/
abbrev Bind (c : Catalog) (α : Type) := StateT RequestParts (Resolving c) α

namespace Bind

variable {c : Catalog}

/-- A fault of a route. -/
def fail {α : Type} (location : Location) (cause : RouteFault) : Bind c α :=
  throw (.invalidRoute location cause)

/-- Lets a part of the request grow. -/
def update (f : RequestParts → Except Fault RequestParts) : Bind c Unit := do
  match f (← get) with
  | .ok parts => set parts
  | .error fault => throw fault

/-- Adds one property to a place. -/
def addProperty (place : Place) (name : String) (schema : Schema) (required : Bool) (location : Location) :
    Bind c Unit :=
  update fun r =>
    match place with
    | .path => return { r with params := ← r.params.add place name schema required location }
    | .query => return { r with query := ← r.query.add place name schema required location }
    | .header => return { r with headers := ← r.headers.add place name schema required location }

/-- Adds the properties of an object to a place. -/
def addObject (place : Place) (object : Schema) (location : Location) : Bind c Unit :=
  update fun r =>
    match place with
    | .path => return { r with params := ← r.params.merge place object id location }
    | .query => return { r with query := ← r.query.merge place object id location }
    | .header => return { r with headers := ← r.headers.merge place object headerName location }

/-- Takes the body. -/
def takeBody (schema : Schema) (location : Location) : Bind c Unit :=
  update fun r =>
    if r.body.isSome then .error (.invalidRoute location .secondBody)
    else .ok { r with body := some schema }

/-- The object that a structured parameter expands into. The properties of a nullable one are optional. -/
def objectOf (place : Place) (p : Parameter) (schema : Schema) : Bind c Schema := do
  let (target, optional) :=
    match schema.unwrapNullable? with
    | some inner => (inner, true)
    | none => (schema, schema.isNullable)
  match (← getThe (Resolver c)).registry.objectView? target with
  | none => fail p.location (.notAnObject place.text p.name p.node.displayName)
  | some object =>
    return if optional then .mk { object.keywords with required := none } else object

/-! ## One parameter -/

/-- Binds a parameter to an object of the server. -/
def raw (p : Parameter) (target : RawTarget) (verb : Verb) : Bind c Binding :=
  match target with
  | .request => return .request p.name p.node .request none
  | .reply => return .request p.name p.node .reply none
  | .socket =>
    if verb = .ws then return .request p.name p.node .socket none
    else fail p.location (.socketOutsideWebsocket p.name)

/-- Binds a parameter to one property of a place. -/
def property (place : Place) (p : Parameter) (schema : Schema) : Bind c Binding := do
  match place with
  | .path =>
    addProperty .path p.name schema true p.location
    return .request p.name p.node (.pathParam p.name) (some schema)
  | .query =>
    addProperty .query p.name schema (!schema.isNullable) p.location
    return .request p.name p.node (.queryField p.name) (some schema)
  | .header =>
    let name := headerName p.name
    addProperty .header name schema (!schema.isNullable) p.location
    return .request p.name p.node (.header name) (some schema)

/-- Binds a parameter to a place as a whole. -/
def whole (place : Place) (p : Parameter) (schema : Schema) : Bind c Binding := do
  let object ← objectOf place p schema
  addObject place object p.location
  let field : Field :=
    match place with
    | .path => .params
    | .query => .query
    | .header => .headers
  return .request p.name p.node field (some schema)

/-- Binds a parameter to the body. -/
def body (p : Parameter) (schema : Schema) : Bind c Binding := do
  takeBody schema p.location
  return .request p.name p.node .body (some schema)

/-- The schema of a parameter. -/
def schemaOf (p : Parameter) : Bind c Schema := (resolve p.node p.location : Resolving c Schema)

/-- Binds a parameter to a place, by its shape. -/
def placed (place : Place) (p : Parameter) : Bind c Binding := do
  let shape := c.shapeOf p.node p.location.unit
  let schema ← schemaOf p
  match shape with
  | .structured => whole place p schema
  | .scalar => property place p schema

/-- Binds a marked parameter. -/
def marked (p : Parameter) (verb : Verb) : Marker → Bind c Binding
  | .raw target => raw p target verb
  | .path => placed .path p
  | .query => placed .query p
  | .header => placed .header p
  | .body => do body p (← schemaOf p)

/-- Binds an unmarked parameter. -/
def positional (p : Parameter) (verb : Verb) (tokens : List String) : Bind c Binding := do
  let shape := c.shapeOf p.node p.location.unit
  let schema ← schemaOf p
  match shape with
  | .scalar => property (if tokens.contains p.name then .path else .query) p schema
  | .structured =>
    match (← getThe RequestParts).positional with
    | some first => fail p.location (.ambiguousParameter p.name first)
    | none =>
      modifyThe RequestParts fun r => { r with positional := some p.name }
      if verb.hasBody then body p schema else whole .query p schema

/-! ## Providers -/

/-- How many aliases are not in the chain. -/
def outside (providers : Providers) (chain : List String) : Nat :=
  providers.names.countP fun name => !chain.contains name

theorem mem_names_of_find? {α : Type} {t : Table α} {name : String} {v : α} (h : t.find? name = some v) :
    name ∈ t.names := by
  induction t with
  | nil => simp [Table.find?] at h
  | cons e rest ih =>
    obtain ⟨n, w⟩ := e
    by_cases hn : n = name
    · simp [Table.names, hn]
    · rw [Table.find?, if_neg hn] at h
      have := ih h
      simp only [Table.names, List.map_cons, List.mem_cons] at this ⊢
      exact Or.inr this

theorem outside_concat_lt {providers : Providers} {chain : List String} {name : String} {p : Provider}
    (found : providers.find? name = some p) (fresh : ¬chain.contains name = true) :
    outside providers (chain ++ [name]) < outside providers chain := by
  refine Catalog.countP_lt_countP (a := name) (fun b => ?_) (mem_names_of_find? found) (by simpa using fresh)
    (by simp)
  simp
  intro h _
  exact h

/-- Binds a parameter while the providers of a chain are being entered, outermost first. -/
def parameter (providers : Providers) (verb : Verb) (tokens : List String) (chain : List String)
    (p : Parameter) : Bind c Binding :=
  match _found : providers.find? p.name with
  | some provider =>
    if _fresh : chain.contains p.name = true then
      fail p.location (.providerCycle (chain ++ [p.name]))
    else
      match provider.output.filter fun output => !output.same p.node with
      | some output =>
        fail p.location (.providerMismatch p.name output.displayName p.name p.node.displayName)
      | none => do
        let dependencies ← provider.params.mapM fun d =>
          parameter providers verb tokens (chain ++ [p.name]) d
        modifyThe RequestParts fun r => { r with shortCircuits := r.shortCircuits || provider.mayAbort }
        return .provided p.name p.node provider.target provider.mayAbort dependencies
  | none =>
    match p.marker with
    | some marker => marked p verb marker
    | none => positional p verb tokens
termination_by outside providers chain
decreasing_by exact outside_concat_lt _found _fresh

end Bind

/-- The bindings of the parameters of a handler, and what they ask of the request. -/
def bindAll {c : Catalog} (providers : Providers) (verb : Verb) (tokens : List String)
    (params : List Parameter) : Resolving c (List Binding × RequestParts) :=
  (params.mapM (Bind.parameter providers verb tokens [])).run {}

end RouteManifest
