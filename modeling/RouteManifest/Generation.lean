import RouteManifest.Route.Extraction

/-!
# Generation

A run extracts the routes of all units with one registry. Units are taken in the order of their paths,
whatever order they come in. An operation id that an earlier route has is a fault, and a run with any fault
fails with all of them.
-/

namespace RouteManifest

/-- The routes and schemas of a run. -/
structure Output where
  routes : List Route
  schemas : List Entry

namespace Output

/-- The output as it is written out. -/
def toJson (o : Output) : Json :=
  .object [("routes", .array (o.routes.map Route.toJson)), ("schemas", .array (o.schemas.map Entry.toJson))]

end Output

/-- Inserts a unit in front of the first whose path is not smaller. -/
def insertByPath (u : ControllerUnit) : List ControllerUnit → List ControllerUnit
  | [] => [u]
  | v :: rest => if v.path.compare u.path == .lt then v :: insertByPath u rest else u :: v :: rest

/-- The units in the order of their paths. -/
def sortByPath (units : List ControllerUnit) : List ControllerUnit := units.foldr insertByPath []

/-- What a run has so far. -/
structure Progress where
  routes : List Route := []
  faults : List Fault := []
  /-- from an operation id to the path of the controller that has it -/
  owners : Table String := []

namespace Progress

/-- Where a handler of a unit is declared. -/
def handlerLocation (unit : ControllerUnit) (exportName : String) : Location :=
  ((unit.handlers.find? fun h => h.exportName == exportName).map Handler.location).getD
    (.ofUnit unit.path)

/-- Takes a route in, or the fault that its operation id is in use. -/
def addRoute (unit : ControllerUnit) (p : Progress) (r : Route) : Progress :=
  match p.owners.find? r.operationId with
  | some owner =>
    let fault := .invalidRoute (handlerLocation unit r.controllerMethod)
      (.duplicateOperationId r.operationId owner)
    { p with faults := p.faults ++ [fault] }
  | none =>
    { p with
      routes := p.routes ++ [r]
      owners := p.owners.insert r.operationId r.controllerPath }

/-- Takes the routes and faults of a unit in. -/
def addUnit (p : Progress) (unit : ControllerUnit) (u : UnitRoutes) : Progress :=
  u.routes.foldl (addRoute unit) { p with faults := p.faults ++ u.faults }

end Progress

/-- Extracts units in the given order. -/
def extractUnits {c : Catalog} (rules : UrlRules) (providers : Providers) (p : Progress) :
    List ControllerUnit → Resolving c Progress
  | [] => return p
  | unit :: rest => do
    let u ← extractUnit rules providers unit
    extractUnits rules providers (p.addUnit unit u) rest

/-- A run over units: its output, or its faults. -/
def generate (c : Catalog) (rules : UrlRules) (providers : Providers) (units : List ControllerUnit) :
    Except (List Fault) Output :=
  let (outcome, resolver) := (extractUnits (c := c) rules providers {} (sortByPath units)).run {}
  match outcome with
  | .error fatal => .error [fatal]
  | .ok p => if p.faults.isEmpty then .ok ⟨p.routes, resolver.registry.entries⟩ else .error p.faults

end RouteManifest
