import RouteManifest.Location
import RouteManifest.TypeExpr.Basic

/-!
# Handlers

A controller unit is a source file whose exported functions named after a verb serve requests. A handler is
such a function as it is declared: its parameters with their types, and perhaps a mark that says where a
parameter is read from.
-/

namespace RouteManifest

/-- How a handler is called. -/
inductive Verb where
  | get | post | put | delete | patch
  /-- a websocket, which is opened by a `GET` -/
  | ws
deriving DecidableEq, Repr

/-- How a route is served. -/
inductive RouteKind where
  | rest | websocket
deriving DecidableEq, Repr

namespace RouteKind

/-- The kind as it is written out. -/
def text : RouteKind → String
  | .rest => "rest"
  | .websocket => "websocket"

end RouteKind

namespace Verb

/-- The verb that an exported name stands for, whatever its case. -/
def ofName? (name : String) : Option Verb :=
  match String.ofList (name.toList.map Char.toLower) with
  | "get" => some .get
  | "post" => some .post
  | "put" => some .put
  | "delete" => some .delete
  | "patch" => some .patch
  | "ws" => some .ws
  | _ => none

/-- The verb in small letters. -/
def text : Verb → String
  | .get => "get"
  | .post => "post"
  | .put => "put"
  | .delete => "delete"
  | .patch => "patch"
  | .ws => "ws"

/-- The method that the route is served with. -/
def method : Verb → String
  | .get | .ws => "GET"
  | .post => "POST"
  | .put => "PUT"
  | .delete => "DELETE"
  | .patch => "PATCH"

/-- Whether an unmarked structured parameter is read from the body. -/
def hasBody : Verb → Bool
  | .post | .put | .patch | .delete => true
  | .get | .ws => false

/-- How the route is served. -/
def kind : Verb → RouteKind
  | .ws => .websocket
  | _ => .rest

end Verb

/-- Objects of the server that a parameter can receive untouched. -/
inductive RawTarget where
  | request | reply | socket
deriving DecidableEq, Repr

/-- Where a parameter is marked to be read from. -/
inductive Marker where
  | path | query | body | header
  | raw (target : RawTarget)
deriving DecidableEq, Repr

namespace Marker

/-- The marker as it is written out. -/
def text : Marker → String
  | .path => "path"
  | .query => "query"
  | .body => "body"
  | .header => "header"
  | .raw .request => "raw:request"
  | .raw .reply => "raw:reply"
  | .raw .socket => "raw:socket"

end Marker

/-- A declared parameter. -/
structure Parameter where
  name : String
  node : TypeExpr
  marker : Option Marker := none
  location : Location

/-- An exported function. -/
structure Handler where
  exportName : String
  params : List Parameter := []
  response : TypeExpr := .null
  /-- an operation id the handler insists on -/
  operationId : Option String := none
  description : Option String := none
  location : Location

/-- A source file with its exported functions. -/
structure ControllerUnit where
  path : Path
  handlers : List Handler

end RouteManifest
