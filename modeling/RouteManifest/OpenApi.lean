import RouteManifest.Generation

/-!
# OpenAPI documents

The document of a run: one operation for every route that is not a websocket, found under its path and
method, and the registered schemas as components. Where a schema of the run holds the id of another, the
document holds a pointer to the component of that id.

Path parameters are always required; query and header parameters where their schema says so.
-/

namespace RouteManifest

namespace OpenApi

/-- Title, version and description of a document. -/
structure Info where
  title : String := "API Reference"
  version : String := "1.0.0"
  description : Option String := none
deriving DecidableEq, Repr

/-- A parameter of an operation. -/
structure Parameter where
  name : String
  /-- `path`, `query` or `header` -/
  place : String
  required : Bool
  schema : Schema

/-- The body that an operation expects. -/
structure RequestBody where
  required : Bool
  schema : Schema

/-- An operation. Its one response is the successful one, whose content may be missing. -/
structure Operation where
  summary : String
  description : Option String := none
  operationId : String
  parameters : List Parameter := []
  body : Option RequestBody := none
  response : Option Schema := none

/-- The operations of a path by method. -/
structure PathItem where
  get : Option Operation := none
  post : Option Operation := none
  put : Option Operation := none
  delete : Option Operation := none
  patch : Option Operation := none

/-- A document. -/
structure Document where
  info : Info
  paths : Table PathItem := []
  components : Table Schema := []

/-! ## Building -/

/-- The pointer to the component of an id. -/
def pointer (id : String) : String := "#/components/schemas/" ++ id

/-- A schema as it stands in a document. -/
def componentSchema (s : Schema) : Schema := s.mapRefs pointer

/-- A segment of a URL as it stands in a document. -/
def pathSegment (segment : String) : String :=
  match Text.dropLeadingText? ":" segment with
  | some name => "\x7b" ++ name ++ "\x7d"
  | none => segment

/-- The path of a URL, with parameters in braces. -/
def pathOf (url : String) : String := Text.join "/" ((Text.split '/' url).map pathSegment)

/-- One parameter for every property of an object schema. -/
def parametersOf (place : String) (alwaysRequired : Bool) (schema : Option Schema) : List Parameter :=
  match schema with
  | none => []
  | some s =>
    (s.keywords.properties.getD []).map fun (name, property) =>
      { name, place
        required := alwaysRequired || (s.keywords.required.getD []).contains name
        schema := componentSchema property }

/-- The operation of a route. -/
def operationOf (method url operationId : String) (description : Option String) (s : RouteSchema) :
    Operation where
  summary := method ++ " " ++ url
  description
  operationId
  parameters :=
    parametersOf "path" true s.params ++ parametersOf "query" false s.querystring
      ++ parametersOf "header" false s.headers
  body := s.body.map fun b => { required := !b.isNullable, schema := componentSchema b }
  response := if s.response.keywords.type = some "null" then none else some (componentSchema s.response)

namespace PathItem

/-- Puts an operation under a method. Other methods have no place. -/
def withOperation (item : PathItem) (method : String) (operation : Operation) : PathItem :=
  match method with
  | "GET" => { item with get := some operation }
  | "POST" => { item with post := some operation }
  | "PUT" => { item with put := some operation }
  | "DELETE" => { item with delete := some operation }
  | "PATCH" => { item with patch := some operation }
  | _ => item

end PathItem

/-- What a document needs to know of a route. -/
structure Endpoint where
  kind : RouteKind := .rest
  method : String
  url : String
  operationId : String
  description : Option String := none
  schema : RouteSchema

/-- Adds the operation of a route; a websocket has none. -/
def addEndpoint (paths : Table PathItem) (e : Endpoint) : Table PathItem :=
  match e.kind with
  | .websocket => paths
  | .rest =>
    let path := pathOf e.url
    let operation := operationOf e.method e.url e.operationId e.description e.schema
    paths.insert path (((paths.find? path).getD {}).withOperation e.method operation)

/-- The document of routes and registered schemas. -/
def build (info : Info) (endpoints : List Endpoint) (schemas : List (String × Schema)) : Document where
  info
  paths := endpoints.foldl addEndpoint []
  components := Table.ofEntries (schemas.map fun (id, s) => (id, componentSchema s))

/-- What a document needs to know of a route. -/
def endpointOf (r : Route) : Endpoint where
  kind := r.kind
  method := r.method
  url := r.url
  operationId := r.operationId
  description := r.description
  schema := r.schema

/-- The document of a run. -/
def ofOutput (info : Info) (o : Output) : Document :=
  build info (o.routes.map endpointOf) (o.schemas.map fun e => (e.id, e.schema))

/-! ## The written form -/

/-- A schema as content. -/
def contentToJson (s : Schema) : Json :=
  .object [("application/json", .object [("schema", s.toJson)])]

namespace Parameter

/-- The parameter as it is written out. -/
def toJson (p : Parameter) : Json :=
  .object [("name", .string p.name), ("in", .string p.place), ("required", .bool p.required),
    ("schema", p.schema.toJson)]

end Parameter

namespace Operation

/-- The response as it is written out. -/
def responseToJson (s : Option Schema) : Json :=
  .object (("description", .string "Successful response") :: Keywords.entry "content" contentToJson s)

/-- The operation as it is written out. -/
def toJson (o : Operation) : Json :=
  .object ([("summary", .string o.summary)]
    ++ Keywords.entry "description" Json.string o.description
    ++ [("operationId", .string o.operationId)]
    ++ (if o.parameters.isEmpty then [] else [("parameters", .array (o.parameters.map Parameter.toJson))])
    ++ Keywords.entry "requestBody"
      (fun b : RequestBody => .object [("required", .bool b.required), ("content", contentToJson b.schema)])
      o.body
    ++ [("responses", .object [("200", responseToJson o.response)])])

end Operation

namespace PathItem

/-- The operations as they are written out. -/
def toJson (item : PathItem) : Json :=
  .object (Keywords.entry "get" Operation.toJson item.get
    ++ Keywords.entry "post" Operation.toJson item.post
    ++ Keywords.entry "put" Operation.toJson item.put
    ++ Keywords.entry "delete" Operation.toJson item.delete
    ++ Keywords.entry "patch" Operation.toJson item.patch)

end PathItem

namespace Info

/-- The information as it is written out. -/
def toJson (i : Info) : Json :=
  .object ([("title", .string i.title), ("version", .string i.version)]
    ++ Keywords.entry "description" Json.string i.description)

end Info

namespace Document

/-- The document as it is written out. -/
def toJson (d : Document) : Json :=
  .object ([("openapi", .string "3.0.3"), ("info", d.info.toJson),
      ("paths", .object (d.paths.mapValues PathItem.toJson))]
    ++ (if d.components.isEmpty then []
      else [("components", .object [("schemas", .object (d.components.mapValues Schema.toJson))])]))

end Document

end OpenApi

end RouteManifest
