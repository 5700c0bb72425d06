import RouteManifest.Fault
import RouteManifest.Interface.Declarations
import RouteManifest.Interface.Documentation
import RouteManifest.Route.Provider
import RouteManifest.Route.ProviderReference

/-!
# Handlers and providers of an interface

The functions of a source file that everyone can see are the handlers of a controller unit; any function of a
file can be a provider. Both have parameters, whose types and comments can say where they are read from.
-/

namespace RouteManifest

namespace Source

/-! ## Parameters -/

/-- The name that a pattern binds, if it binds just one. -/
def Pattern.bound? : Pattern → Option String
  | .name text => some text
  | .wrapper [p] => bound? p
  | .reference p => bound? p
  | _ => none

/-- Where a parameter is read from by the name of its type. -/
def wrapperMarker? : String → Option Marker
  | "Path" => some .path
  | "Query" => some .query
  | "Body" | "Json" | "Form" => some .body
  | "Header" | "TypedHeader" => some .header
  | "Request" | "HttpRequest" => some (.raw .request)
  | "Reply" | "Response" => some (.raw .reply)
  | "WebSocket" | "WebSocketUpgrade" | "Socket" => some (.raw .socket)
  | _ => none

/-- What a wrapper holds; nothing can be said of objects of the server. -/
def wrappedType (typeParams : List String) (marker : Marker) (args : List TypeTerm) : TypeExpr :=
  match marker, args with
  | .raw _, _ => .anything
  | _, inner :: _ => inner.toTypeExpr typeParams
  | _, [] => .anything

/-- The wrapper that a type is: its marker, and what it holds. -/
def wrapper? (typeParams : List String) (t : TypeTerm) : Option (Marker × TypeExpr) := do
  let (name, args) ← t.lastName?
  let marker ← wrapperMarker? name
  return (marker, wrappedType typeParams marker args)

/-- A parameter of a handler or provider, the `index`th of its function. -/
def FunctionParam.parameter? (path : Path) (typeParams : List String) (d : Documentation) (index : Nat) :
    FunctionParam → Option Parameter
  | .receiver => none
  | .typed pattern place type =>
    let name := pattern.bound?.getD ("arg" ++ toString index)
    match wrapper? typeParams type with
    | some (marker, node) => some { name, node, marker := some marker, location := locate path place }
    | none =>
      some { name, node := type.toTypeExpr typeParams, marker := d.markerFor? name, location := locate path place }

/-- The parameters of a function. -/
def Function.parameters (path : Path) (f : Function) : List Parameter :=
  f.params.zipIdx.filterMap fun (p, index) =>
    p.parameter? path f.typeParams (.ofAttributes f.attributes) index

/-! ## Handlers -/

/-- Wrappers whose first argument is what is sent. -/
def responseWrappers : List String := ["Json", "Result"]

/-- What the wrappers of a response hold in the end, if there are any. -/
def TypeTerm.unwrapped? : TypeTerm → Option TypeTerm
  | .path _ _ name (inner :: _) =>
    if responseWrappers.contains name then some (inner.unwrapped?.getD inner) else none
  | .reference t | .parenthesized t => t.unwrapped?
  | _ => none

/-- The type of a response. One that is known by traits only can be anything. -/
def responseType (typeParams : List String) (t : TypeTerm) : TypeExpr :=
  match t.unwrapped?.getD t with
  | .someType _ => .anything
  | t => t.toTypeExpr typeParams

/-- A function as a handler. -/
def Function.handler (path : Path) (f : Function) : Handler :=
  let d := Documentation.ofAttributes f.attributes
  { exportName := f.name
    params := f.parameters path
    response := (f.output.map (responseType f.typeParams)).getD .null
    operationId := d.tag? "operationId"
    description := d.description?
    location := locate path f.place }

/-- The function that an item is. -/
def Item.function? : Item → Option Function
  | .function f => some f
  | _ => none

/-! ## Providers -/

/-- What a provider's result says: whether it can end the request, and what it provides. -/
def providedType (t : TypeTerm) : Bool × TypeTerm :=
  match t.lastName? with
  | some (name, inner :: _) =>
    if name = "ProviderOutcome" ∨ name = "Outcome" then (true, inner)
    else if name = "Result" then (false, inner)
    else (false, t)
  | _ => (false, t)

/-- The type of what is provided, unless it is known by traits only. -/
def outputType? (typeParams : List String) : TypeTerm → Option TypeExpr
  | .someType _ => none
  | t => some (t.toTypeExpr typeParams)

/-- A function as a provider. -/
def Function.provider (path : Path) (target : String) (f : Function) : Provider :=
  let result := f.output.map providedType
  { target
    params := f.parameters path
    output := result.bind fun (_, t) => outputType? f.typeParams t
    mayAbort := (result.map Prod.fst).getD false
    location := locate path f.place }

end Source

namespace SourceFile

/-- The functions of a file outside its modules. -/
def functions (file : SourceFile) : List Source.Function := file.items.filterMap Source.Item.function?

/-- The controller unit that a file is. -/
def controllerUnit (file : SourceFile) : ControllerUnit where
  path := file.path
  handlers := (file.functions.filter fun f => f.isPublic).map (Source.Function.handler file.path)

/-- The provider that a reference means in a file; `name` is what it is called where it is missed. -/
def provider (file : SourceFile) (name : String) (r : ProviderReference) : Except Fault Provider :=
  match file.functions.find? fun f => f.name == r.function with
  | some f => .ok (f.provider file.path r.text)
  | none => .error (.config (.missingFunction name r.function file.path.text))

end SourceFile

end RouteManifest
