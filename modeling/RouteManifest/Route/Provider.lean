import RouteManifest.Route.Handler
import RouteManifest.Table

/-!
# Providers

A provider is a function that produces the value of every parameter named like its alias. It can have
parameters of its own, which can be provided in turn, and it can end the request before the handler runs.
-/

namespace RouteManifest

/-- A function that provides parameters. -/
structure Provider where
  /-- where the function is found, in words that mean nothing here -/
  target : String
  params : List Parameter := []
  /-- the type of the value, if it is declared -/
  output : Option TypeExpr := none
  mayAbort : Bool := false
  location : Location

/-- Providers by alias; a later one of an alias replaces an earlier one. -/
abbrev Providers := Table Provider

end RouteManifest
