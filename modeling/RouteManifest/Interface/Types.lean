import RouteManifest.Interface.WireOptions
import RouteManifest.TypeExpr.Basic

/-!
# Types of an interface

What a written type means as the type of a value: well-known containers and wrappers are looked through, names
of scalars are scalars, and names of generic parameters stand for themselves. Every other name is one to be
looked up later.
-/

namespace RouteManifest

/-- A type or nothing. -/
def TypeExpr.nullable (e : TypeExpr) : TypeExpr := .union [e, .null]

/-- Anything at all. -/
def TypeExpr.anything : TypeExpr := .primitive .any

namespace Source.TypeTerm

/-- Traits whose values are functions. -/
def functionTraits : List String := ["Fn", "FnMut", "FnOnce"]

/-- Containers of values of one type. -/
def sequences : List String :=
  ["Vec", "VecDeque", "LinkedList", "HashSet", "BTreeSet", "IndexSet", "BinaryHeap"]

/-- Containers of values with keys. -/
def mappings : List String := ["HashMap", "BTreeMap", "IndexMap"]

/-- Wrappers that are written as what they hold. -/
def pointers : List String := ["Box", "Rc", "Arc", "Cow"]

/-- A name with arguments. -/
def applied (name : String) : List TypeExpr → TypeExpr
  | [] => .reference name
  | first :: rest =>
    if name = "Option" then first.nullable
    else if sequences.contains name then .array first
    else if mappings.contains name then .map (rest.head?.getD .anything)
    else if pointers.contains name then first
    else .generic name (first :: rest)

mutual
/-- What a written type means where some generic parameters are known. -/
def toTypeExpr (params : List String) : TypeTerm → TypeExpr
  | .reference t | .parenthesized t => toTypeExpr params t
  | .slice t | .array t => .array (toTypeExpr params t)
  | .tuple [] => .null
  | .tuple (t :: rest) => .tuple (toTypeExpr params t :: toTypeExprs params rest)
  | .function => .callable
  | .someType traits | .anyType traits =>
    if traits.any functionTraits.contains then .callable else .anything
  | .path _ qualifiers name args =>
    if qualifiers.isEmpty && args.isEmpty && params.contains name then .typeParameter name
    else
      match Primitive.ofTypeName? name with
      | some p => .primitive p
      | none => applied name (toTypeExprs params args)
  | .other => .anything

/-- What written types mean. -/
def toTypeExprs (params : List String) : List TypeTerm → List TypeExpr
  | [] => []
  | t :: rest => toTypeExpr params t :: toTypeExprs params rest
end

/-- The last name of a path with its arguments, looked for through references and parentheses. -/
def lastName? : TypeTerm → Option (String × List TypeTerm)
  | .path _ _ name args => some (name, args)
  | .reference t | .parenthesized t => lastName? t
  | _ => none

/-- A field as a member of an object: one that may be nothing, or has a default, can be missing. -/
def toMember (params : List String) (t : TypeTerm) (isDefaulted : Bool) : Member TypeExpr :=
  match t.lastName? with
  | some ("Option", [inner]) => ⟨inner.toTypeExpr params, false⟩
  | _ => ⟨t.toTypeExpr params, !isDefaulted⟩

end Source.TypeTerm

end RouteManifest
