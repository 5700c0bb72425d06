import RouteManifest.Route.Provider
import RouteManifest.Schema.Json

/-!
# Bindings

Where a parameter of a handler comes from: a field of the request, or a provider, whose own parameters are
bound in turn. The bindings of a handler form a forest; `Binding.stepsOf` lists its providers in the order in
which they have to run, each after everything it depends on.
-/

namespace RouteManifest

/-- A field of the request. -/
inductive Field where
  | body
  /-- the query string as a whole -/
  | query
  | queryField (name : String)
  /-- all path parameters -/
  | params
  | pathParam (name : String)
  /-- all headers -/
  | headers
  | header (name : String)
  | request
  | reply
  | socket
deriving DecidableEq, Repr

namespace Field

/-- The field as it is written out. -/
def text : Field → String
  | .body => "body"
  | .query => "query"
  | .queryField name => "query." ++ name
  | .params => "params"
  | .pathParam name => "params." ++ name
  | .headers => "headers"
  | .header name => "headers." ++ name
  | .request => "request"
  | .reply => "reply"
  | .socket => "socket"

/-- The part of the request that the field belongs to. -/
def source : Field → String
  | .body => "body"
  | .query | .queryField _ => "query"
  | .params | .pathParam _ => "param"
  | .headers | .header _ => "header"
  | .request | .reply | .socket => "raw"

end Field

/-- A parameter with the place it comes from. -/
inductive Binding where
  /-- read from the request, by a schema unless it is an object of the server -/
  | request (name : String) (node : TypeExpr) (field : Field) (schema : Option Schema)
  /-- produced by the provider of that alias from its own parameters -/
  | provided (name : String) (node : TypeExpr) (target : String) (mayAbort : Bool)
    (dependencies : List Binding)

namespace Binding

mutual
/-- The binding as it is written out. -/
def toJson : Binding → Json
  | .request name node field schema =>
    .object [("source", .string field.source), ("name", .string name), ("typeNode", node.toJson),
      ("extraction", .object (("field", .string field.text)
        :: (schema.map fun s => ("schema", s.toJson)).toList))]
  | .provided name node target mayAbort dependencies =>
    .object [("source", .string "provider"), ("name", .string name), ("typeNode", node.toJson),
      ("extraction", .object [("field", .string ("provider:" ++ name))]),
      ("provider", .object [("alias", .string name), ("target", .string target),
        ("mayAbort", .bool mayAbort), ("dependencies", .array (listToJson dependencies))])]

/-- A list of bindings as it is written out. -/
def listToJson : List Binding → List Json
  | [] => []
  | b :: rest => toJson b :: listToJson rest
end

end Binding

/-! ## Running providers -/

/-- One provider to run, with the bindings of its own parameters. -/
structure ProviderStep where
  provider : String
  target : String
  mayAbort : Bool
  dependencies : List Binding

namespace Binding

mutual
/-- The providers of a binding, dependencies before dependents. -/
def steps : Binding → List ProviderStep
  | .request _ _ _ _ => []
  | .provided name _ target mayAbort dependencies =>
    stepsOf dependencies ++ [⟨name, target, mayAbort, dependencies⟩]

/-- The providers of bindings in order. -/
def stepsOf : List Binding → List ProviderStep
  | [] => []
  | b :: rest => steps b ++ stepsOf rest
end

end Binding

/-- What a provider answers. -/
inductive Outcome (α : Type) where
  | proceed (value : α)
  /-- the request is over -/
  | aborted
deriving DecidableEq, Repr

/-- Runs the steps in order, up to and including the first that aborts; the handler may run only if none
does, and is given the values. -/
def runSteps {m : Type → Type} [Monad m] {α : Type} (run : ProviderStep → m (Outcome α)) :
    List ProviderStep → m (Outcome (List α))
  | [] => pure (.proceed [])
  | step :: rest => do
    match ← run step with
    | .aborted => pure .aborted
    | .proceed value =>
      match ← runSteps run rest with
      | .aborted => pure .aborted
      | .proceed values => pure (.proceed (value :: values))

end RouteManifest
