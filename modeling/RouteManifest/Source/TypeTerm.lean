/-!
# Types as they are written

A type of a source text, reduced to what a reader of interfaces can use. A path keeps the names in front of
its last one, and the type arguments of the last; its lifetimes, constants and bindings are dropped. Of the
bounds of an abstract type only the names of the traits are kept.
-/

namespace RouteManifest

namespace Source

/-- A type as it is written. -/
inductive TypeTerm where
  | reference (target : TypeTerm)
  | parenthesized (inner : TypeTerm)
  | slice (element : TypeTerm)
  | array (element : TypeTerm)
  | tuple (elements : List TypeTerm)
  /-- a function pointer -/
  | function
  /-- a value of some type with these traits, chosen by the callee -/
  | someType (traits : List String)
  /-- a value of any type with these traits -/
  | anyType (traits : List String)
  /-- `rooted` says that the path begins with `::` -/
  | path (rooted : Bool) (qualifiers : List String) (name : String) (args : List TypeTerm)
  /-- a type of which nothing can be said: a pointer, a projection, the type that is never -/
  | other
deriving Repr

end Source

end RouteManifest
