import RouteManifest.Json.Basic
import RouteManifest.Text.Segments

/-!
# Type expressions

The static shape of a value as it is declared. A named type is not expanded in place: a reference or a
generic instantiation names a declaration, which is looked up where the expression is written.
-/

namespace RouteManifest

/-- The scalars in which a type can end. -/
inductive Primitive where
  | string | char
  | i8 | i16 | i32 | i64 | i128
  | u8 | u16 | u32 | u64 | u128
  | f32 | f64
  | bool | null
  /-- any value at all -/
  | any
  | uuid | dateTime | date
deriving DecidableEq, Repr

namespace Primitive

/-- The schema type; the unconstrained scalar has none. -/
def schemaType? : Primitive → Option String
  | .string | .char | .uuid | .dateTime | .date => some "string"
  | .i8 | .i16 | .i32 | .i64 | .i128 | .u8 | .u16 | .u32 | .u64 | .u128 => some "integer"
  | .f32 | .f64 => some "number"
  | .bool => some "boolean"
  | .null => some "null"
  | .any => none

/-- The schema format of the scalars that have one. -/
def format? : Primitive → Option String
  | .i8 | .i16 | .i32 | .u8 | .u16 | .u32 => some "int32"
  | .i64 | .i128 | .u64 | .u128 => some "int64"
  | .f32 => some "float"
  | .f64 => some "double"
  | .uuid => some "uuid"
  | .dateTime => some "date-time"
  | .date => some "date"
  | .string | .char | .bool | .null | .any => none

/-- The scalar that a type name stands for in a source file. -/
def ofTypeName? : String → Option Primitive
  | "String" | "str" => some .string
  | "char" => some .char
  | "i8" => some .i8
  | "i16" => some .i16
  | "i32" => some .i32
  | "i64" | "isize" => some .i64
  | "i128" => some .i128
  | "u8" => some .u8
  | "u16" => some .u16
  | "u32" => some .u32
  | "u64" | "usize" => some .u64
  | "u128" => some .u128
  | "f32" => some .f32
  | "f64" => some .f64
  | "bool" => some .bool
  | "Uuid" => some .uuid
  | "DateTime" | "NaiveDateTime" | "SystemTime" | "OffsetDateTime" => some .dateTime
  | "NaiveDate" => some .date
  | "Value" => some .any
  | _ => none

/-- The name in messages and ids. -/
def name : Primitive → String
  | .string => "String"
  | .char => "Char"
  | .i8 => "I8"
  | .i16 => "I16"
  | .i32 => "I32"
  | .i64 => "I64"
  | .i128 => "I128"
  | .u8 => "U8"
  | .u16 => "U16"
  | .u32 => "U32"
  | .u64 => "U64"
  | .u128 => "U128"
  | .f32 => "F32"
  | .f64 => "F64"
  | .bool => "Bool"
  | .null => "Null"
  | .any => "Any"
  | .uuid => "Uuid"
  | .dateTime => "DateTime"
  | .date => "Date"

/-- The keyword in written type expressions. -/
def keyword : Primitive → String
  | .string => "string"
  | .char => "char"
  | .i8 => "i8"
  | .i16 => "i16"
  | .i32 => "i32"
  | .i64 => "i64"
  | .i128 => "i128"
  | .u8 => "u8"
  | .u16 => "u16"
  | .u32 => "u32"
  | .u64 => "u64"
  | .u128 => "u128"
  | .f32 => "f32"
  | .f64 => "f64"
  | .bool => "bool"
  | .null => "null"
  | .any => "any"
  | .uuid => "uuid"
  | .dateTime => "dateTime"
  | .date => "date"

/-- All scalars. -/
def all : List Primitive :=
  [.string, .char, .i8, .i16, .i32, .i64, .i128, .u8, .u16, .u32, .u64, .u128, .f32, .f64, .bool, .null,
    .any, .uuid, .dateTime, .date]

/-- The scalar of a keyword. -/
def ofKeyword? (keyword : String) : Option Primitive := all.find? fun p => p.keyword == keyword

end Primitive

/-- A value that a type can consist of. -/
inductive Literal where
  | string (text : String)
  | integer (value : Int)
  | boolean (value : Bool)
  | null
deriving DecidableEq, Repr

namespace Literal

/-- The schema type of the value. -/
def schemaType : Literal → String
  | .string _ => "string"
  | .integer _ => "integer"
  | .boolean _ => "boolean"
  | .null => "null"

/-- The value in JSON. -/
def toJson : Literal → Json
  | .string text => .string text
  | .integer value => .int value
  | .boolean value => .bool value
  | .null => .null

end Literal

/-- A property of an object type, over types `τ`. -/
structure Member (τ : Type) where
  node : τ
  required : Bool

/-- A type expression. -/
inductive TypeExpr where
  | primitive (kind : Primitive)
  /-- named properties; a closed object has no others -/
  | object (properties : List (String × Member TypeExpr)) (closed : Bool)
  /-- a dictionary from texts to values of one type -/
  | map (value : TypeExpr)
  | array (element : TypeExpr)
  | tuple (elements : List TypeExpr)
  | union (variants : List TypeExpr)
  | intersection (members : List TypeExpr)
  | enumeration (literals : List Literal)
  | literal (value : Literal)
  /-- a declared name, or a type parameter in scope -/
  | reference (name : String)
  | generic (base : String) (args : List TypeExpr)
  | typeParameter (name : String)
  /-- a function, which is never data -/
  | callable

namespace TypeExpr

instance : Inhabited TypeExpr := ⟨.primitive .null⟩

/-- The type of texts. -/
def string : TypeExpr := .primitive .string

/-- The type of null alone. -/
def null : TypeExpr := .primitive .null

/-- The type of all values. -/
def any : TypeExpr := .primitive .any

/-- A type or null. -/
def orNull (inner : TypeExpr) : TypeExpr := .union [inner, null]

/-- Whether the expression is one of the two that mean null. -/
def isNullLike : TypeExpr → Bool
  | .primitive .null => true
  | .literal .null => true
  | _ => false

mutual
/-- The name in messages. -/
def displayName : TypeExpr → String
  | .primitive kind => kind.name
  | .object _ _ => "Object"
  | .map value => "Map_" ++ displayName value
  | .array element => "Array_" ++ displayName element
  | .tuple elements => "Tuple_" ++ Text.join "_" (displayNames elements)
  | .union variants => Text.join "Or" (displayNames variants)
  | .intersection members => Text.join "And" (displayNames members)
  | .enumeration _ => "Enum"
  | .literal _ => "Literal"
  | .reference name => name
  | .typeParameter name => name
  | .generic base args => base ++ String.join ((displayNames args).map ("_" ++ ·))
  | .callable => "Fn"

/-- The names of a list. -/
def displayNames : List TypeExpr → List String
  | [] => []
  | e :: rest => displayName e :: displayNames rest
end

/-! ## The written form -/

/-- A kind with what it holds. -/
def tagged (kind : String) (content : Json) : Json := .object [("kind", .string kind), ("of", content)]

mutual
/-- The expression in JSON. -/
def toJson : TypeExpr → Json
  | .primitive kind => tagged "primitive" (.string kind.keyword)
  | .object properties closed =>
    tagged "object" (.object [("properties", .object (membersToJson properties)), ("closed", .bool closed)])
  | .map value => tagged "map" (toJson value)
  | .array element => tagged "array" (toJson element)
  | .tuple elements => tagged "tuple" (.array (listToJson elements))
  | .union variants => tagged "union" (.array (listToJson variants))
  | .intersection members => tagged "intersection" (.array (listToJson members))
  | .enumeration literals => tagged "enum" (.array (literals.map Literal.toJson))
  | .literal value => tagged "literal" value.toJson
  | .reference name => tagged "reference" (.string name)
  | .generic base args =>
    tagged "generic" (.object [("base", .string base), ("args", .array (listToJson args))])
  | .typeParameter name => tagged "typeParameter" (.string name)
  | .callable => .object [("kind", .string "callable")]

/-- A list of expressions in JSON. -/
def listToJson : List TypeExpr → List Json
  | [] => []
  | e :: rest => toJson e :: listToJson rest

/-- Named properties in JSON. -/
def membersToJson : Table (Member TypeExpr) → Table Json
  | [] => []
  | (name, ⟨node, required⟩) :: rest =>
    (name, .object [("node", toJson node), ("required", .bool required)]) :: membersToJson rest
end

/-- Equality of type expressions: the order of an object's properties does not count. -/
def same (a b : TypeExpr) : Bool := a.toJson.same b.toJson

end TypeExpr

end RouteManifest
