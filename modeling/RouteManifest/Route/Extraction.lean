import RouteManifest.Binding.Request
import RouteManifest.Route.Url
import RouteManifest.Text.Fresh

/-!
# Routes of a unit

Every exported function of a unit that is named after a verb becomes a route, or a fault. Its operation id
is the one it insists on, or is made of the verb and the controller's name, with a number behind it if the
unit already uses it.

The parameters of the URL and the path parameters that a route binds have to be the same names.
-/

namespace RouteManifest

/-- Everything known about a route. -/
structure Route where
  kind : RouteKind
  method : String
  url : String
  operationId : String
  controllerName : String
  /-- the exported name of the handler -/
  controllerMethod : String
  controllerPath : String
  description : Option String := none
  parameters : List Binding := []
  schema : RouteSchema
  /-- whether some provider can end the request -/
  shortCircuits : Bool := false

namespace Route

/-- The providers in the order they run. -/
def steps (r : Route) : List ProviderStep := Binding.stepsOf r.parameters

/-- The route as it is written out. -/
def toJson (r : Route) : Json :=
  .object ([("kind", .string r.kind.text), ("method", .string r.method), ("url", .string r.url),
      ("operationId", .string r.operationId), ("controllerName", .string r.controllerName),
      ("controllerMethod", .string r.controllerMethod), ("controllerPath", .string r.controllerPath)]
    ++ Keywords.entry "description" Json.string r.description
    ++ [("parameters", .array (Binding.listToJson r.parameters)), ("schema", r.schema.toJson),
      ("shortCircuits", .bool r.shortCircuits)])

end Route

/-- What the routes of a unit have in common. -/
structure UnitAddress where
  url : String
  tokens : List String
  controllerName : String
  controllerPath : String

namespace UrlRules

/-- The address of a unit. -/
def address (rules : UrlRules) (unit : Path) : UnitAddress where
  url := rules.url unit
  tokens := pathTokens (rules.url unit)
  controllerName := rules.controllerName unit
  controllerPath := rules.relativePath unit

end UrlRules

/-- Drops every `Controller` from the end of reversed characters. -/
def dropControllers (reversed : List Char) : List Char :=
  match reversed with
  | 'r' :: 'e' :: 'l' :: 'l' :: 'o' :: 'r' :: 't' :: 'n' :: 'o' :: 'C' :: rest => dropControllers rest
  | rest => rest

/-- The controller's name without its ending. -/
def controllerStem (name : String) : String := String.ofList (dropControllers name.toList.reverse).reverse

/-- The operation id of a handler in a unit that already uses some. -/
def operationIdFor (used : List String) (controllerName : String) (verb : Verb) (h : Handler) : String :=
  h.operationId.getD (Text.fresh used (verb.text ++ controllerStem controllerName))

/-- The path parameters that a route must bind, and the fault if they are not those of the URL. -/
def tokenFault? (address : UnitAddress) (bound : List String) : Option RouteFault :=
  match address.tokens.find? fun t => !bound.contains t with
  | some token => some (.unboundToken address.url token)
  | none =>
    match bound.find? fun n => !address.tokens.contains n with
    | some stray => some (.strayPathParameter stray address.url)
    | none => none

/-- The route of a handler. -/
def buildRoute {c : Catalog} (providers : Providers) (address : UnitAddress) (verb : Verb)
    (operationId : String) (h : Handler) : Resolving c Route := do
  let (parameters, parts) ← bindAll providers verb address.tokens h.params
  match tokenFault? address parts.paramNames with
  | some cause => throw (.invalidRoute h.location cause)
  | none =>
    let response ← resolve h.response h.location
    return {
      kind := verb.kind
      method := verb.method
      url := address.url
      operationId
      controllerName := address.controllerName
      controllerMethod := h.exportName
      controllerPath := address.controllerPath
      description := h.description
      parameters
      schema := parts.toRouteSchema response
      shortCircuits := parts.shortCircuits }

/-- The routes of a unit, and the faults of the handlers that are none. -/
structure UnitRoutes where
  routes : List Route := []
  faults : List Fault := []

/-- The routes of handlers in order. A fatal fault is the fault of the whole. -/
def extractHandlers {c : Catalog} (providers : Providers) (address : UnitAddress) (used : List String) :
    List Handler → Resolving c UnitRoutes
  | [] => return {}
  | h :: rest =>
    match Verb.ofName? h.exportName with
    | none => extractHandlers providers address used rest
    | some verb => do
      let id := operationIdFor used address.controllerName verb h
      let outcome ← (tryCatch (Except.ok <$> buildRoute providers address verb id h) fun fault =>
        if fault.isFatal then throw fault else return .error fault : Resolving c (Except Fault Route))
      let others ← extractHandlers providers address (id :: used) rest
      return match outcome with
        | .ok route => { others with routes := route :: others.routes }
        | .error fault => { others with faults := fault :: others.faults }

/-- The routes of a unit. -/
def extractUnit {c : Catalog} (rules : UrlRules) (providers : Providers) (unit : ControllerUnit) :
    Resolving c UnitRoutes :=
  extractHandlers providers (rules.address unit.path) [] unit.handlers

end RouteManifest
