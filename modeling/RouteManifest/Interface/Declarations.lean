import RouteManifest.Interface.Types
import RouteManifest.TypeExpr.Catalog

/-!
# Declarations of an interface

Structs, enums and synonyms of a source file as declarations, in the shape in which their values are written.
Modules written in place are looked into.

A variant of an enum is written by its name alone, as an object of one property named after it, with its name
in a property of its own (`tag`, and perhaps `content` for what it holds), or as what it holds (`untagged`).
-/

namespace RouteManifest

namespace Source

/-- The location of a place in a file. -/
def locate (path : Path) (place : Position) : Location := ⟨path, place.line, place.column⟩

/-! ## Fields -/

/-- The named fields that are written, each with its options. -/
def keptFields (fields : List (String × Field)) : List (String × Field × WireOptions) :=
  (fields.map fun (name, f) => (name, f, WireOptions.ofAttributes f.attributes)).filter fun (_, _, o) =>
    !o.isSkipped

/-- Named fields as an object, or as the intersection of an object and the types of the flattened fields. -/
def namedFieldsType (params : List String) (rule : Option String) (closed : Bool)
    (fields : List (String × Field)) : TypeExpr :=
  let kept := keptFields fields
  let own := kept.filter fun (_, _, o) => !o.isFlattened
  let flattened := kept.filter fun (_, _, o) => o.isFlattened
  let properties := Table.ofEntries (own.map fun (name, f, o) =>
    (o.nameOf rule name, f.type.toMember params o.isDefaulted))
  let object := TypeExpr.object properties closed
  if flattened.isEmpty then object
  else .intersection (object :: flattened.map fun (_, f, o) => (f.type.toMember params o.isDefaulted).node)

/-- Positional fields as a tuple; a single one is its type. -/
def positionalFieldsType (params : List String) (fields : List Field) : TypeExpr :=
  match fields.filter fun f => !(WireOptions.ofAttributes f.attributes).isSkipped with
  | [single] => single.type.toTypeExpr params
  | several => .tuple (several.map fun f => f.type.toTypeExpr params)

/-- What fields are written as. -/
def Fields.toTypeExpr (params : List String) (rule : Option String) (closed : Bool) : Fields → TypeExpr
  | .named fields => namedFieldsType params rule closed fields
  | .positional fields => positionalFieldsType params fields
  | .unit => .null

/-! ## Variants -/

/-- What a variant holds, if it holds anything. -/
def Variant.payload? (params : List String) (v : Variant) : Option TypeExpr :=
  match v.fields with
  | .unit => none
  | fields => some (fields.toTypeExpr params none false)

/-- The variants that are written, with their names. -/
def keptVariants (rule : Option String) (variants : List Variant) : List (String × Variant) :=
  (variants.filter fun v => !(WireOptions.ofAttributes v.attributes).isSkipped).map fun v =>
    ((WireOptions.ofAttributes v.attributes).nameOf rule v.name, v)

/-- Whether a variant holds nothing. -/
def Variant.isUnit (v : Variant) : Bool :=
  match v.fields with
  | .unit => true
  | _ => false

/-- A variant with its name in a property. -/
def taggedVariant (tag : String) (content : Option String) (name : String) (payload : Option TypeExpr) :
    TypeExpr :=
  let own : Table (Member TypeExpr) := [(tag, ⟨.literal (.string name), true⟩)]
  match payload, content with
  | none, _ => .object own false
  | some p, some content => .object (own.insert content ⟨p, true⟩) false
  | some (.object properties _), none =>
    .object (List.foldl (fun t e => Table.insert t e.1 e.2) own properties) false
  | some p, none => .intersection [.object own false, p]

/-- A variant as one alternative of an enum. -/
def variantType (o : WireOptions) (name : String) (payload : Option TypeExpr) : TypeExpr :=
  if o.isUntagged then payload.getD .null
  else
    match o.tag with
    | some tag => taggedVariant tag o.content name payload
    | none =>
      match payload with
      | none => .literal (.string name)
      | some p => .object [(name, ⟨p, true⟩)] true

/-- What an enum is written as. -/
def enumType (params : List String) (o : WireOptions) (variants : List Variant) : TypeExpr :=
  let kept := keptVariants o.renameAll variants
  if kept.all (fun (_, v) => v.isUnit) && o.tag.isNone && !o.isUntagged then
    .enumeration (kept.map fun (name, _) => .string name)
  else .union (kept.map fun (name, v) => variantType o name (v.payload? params))

/-! ## Items -/

/-- What a struct is written as. -/
def structType (params : List String) (o : WireOptions) (fields : Fields) : TypeExpr :=
  if o.isTransparent then fields.toTypeExpr params none false
  else fields.toTypeExpr params o.renameAll o.deniesUnknown

/-- The declaration of a type. -/
def TypeHead.declare (h : TypeHead) (path : Path) (body : TypeExpr) (externalId : Option String) :
    Declaration :=
  { name := h.name, typeParams := h.typeParams, body, location := locate path h.place, externalId }

mutual
/-- The declarations of an item. -/
def Item.declarations (path : Path) : Item → List Declaration
  | .structItem head fields =>
    let o := WireOptions.ofAttributes head.attributes
    [head.declare path (structType head.typeParams o fields) o.rename]
  | .enumItem head variants =>
    let o := WireOptions.ofAttributes head.attributes
    [head.declare path (enumType head.typeParams o variants) o.rename]
  | .synonym head target => [head.declare path (target.toTypeExpr head.typeParams) none]
  | .module items => declarationsOf path items
  | .function _ => []
  | .other => []

/-- The declarations of items, in order. -/
def declarationsOf (path : Path) : List Item → List Declaration
  | [] => []
  | item :: rest => item.declarations path ++ declarationsOf path rest
end

end Source

namespace SourceFile

/-- The declarations of a file, in order. -/
def declarations (file : SourceFile) : List Declaration := Source.declarationsOf file.path file.items

end SourceFile

end RouteManifest
