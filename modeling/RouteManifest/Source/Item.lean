import RouteManifest.Path
import RouteManifest.Source.Pattern

/-!
# Items of a source file

A source file is a list of items. Types that are declared and functions are kept with what an interface shows
of them; every other item only counts.
-/

namespace RouteManifest

namespace Source

/-- What stands behind the path of an attribute. -/
inductive AttributeContent where
  | nothing
  /-- `= value`, with the text if the value is nothing but a text -/
  | value (text : Option String)
  /-- what stands in a group -/
  | list (trees : List TokenTree)
deriving Repr

/-- An attribute of an item, a field or a variant. -/
structure Attribute where
  /-- the path, if it is a single word -/
  name : Option String
  content : AttributeContent
deriving Repr

/-- What every field has. -/
structure Field where
  attributes : List Attribute
  type : TypeTerm
deriving Repr

/-- The fields of a struct or a variant. -/
inductive Fields where
  | named (fields : List (String × Field))
  | positional (fields : List Field)
  | unit
deriving Repr

/-- A variant of an enum. -/
structure Variant where
  name : String
  attributes : List Attribute
  fields : Fields
deriving Repr

/-- What every declared type has. -/
structure TypeHead where
  name : String
  /-- where the name stands -/
  place : Position
  attributes : List Attribute
  typeParams : List String
deriving Repr

/-- A parameter of a function. -/
inductive FunctionParam where
  /-- the object that a method is called on -/
  | receiver
  | typed (pattern : Pattern) (place : Position) (type : TypeTerm)
deriving Repr

/-- A function with a body. -/
structure Function where
  /-- visible without restriction -/
  isPublic : Bool
  name : String
  /-- where the name stands -/
  place : Position
  attributes : List Attribute
  typeParams : List String
  params : List FunctionParam
  output : Option TypeTerm
deriving Repr

/-- An item of a file or a module. -/
inductive Item where
  | structItem (head : TypeHead) (fields : Fields)
  | enumItem (head : TypeHead) (variants : List Variant)
  /-- another name for a type -/
  | synonym (head : TypeHead) (target : TypeTerm)
  /-- a module written in place -/
  | module (items : List Item)
  | function (f : Function)
  | other
deriving Repr

end Source

/-- A source file that has been read. -/
structure SourceFile where
  /-- as it is shown in locations -/
  path : Path
  items : List Source.Item

end RouteManifest
