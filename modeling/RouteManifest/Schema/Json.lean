import RouteManifest.Schema.Basic

/-!
# The JSON form of a schema

`Schema.toJson` writes the keywords that are present, always in the same order. `Schema.ofJson?` reads an
object back: members it does not know are skipped, a keyword that is `null` counts as absent, and any other
value of the wrong kind makes the whole schema unreadable.
-/

namespace RouteManifest

namespace Additional

/-- A flag or a schema. -/
def toJson : Additional Json → Json
  | .allowed b => .bool b
  | .schema s => s

end Additional

namespace Discriminator

/-- The property and, if there is one, the mapping. -/
def toJson (d : Discriminator) : Json :=
  .object (("propertyName", .string d.propertyName)
    :: (d.mapping.map fun m => ("mapping", .object (m.mapValues .string))).toList)

/-- A mapping from texts to texts. -/
def mappingOfJson? : Table Json → Option (Table String)
  | [] => some []
  | (name, .string id) :: rest => (mappingOfJson? rest).map ((name, id) :: ·)
  | _ :: _ => none

/-- Reads what `toJson` writes; the property name is mandatory. -/
def ofJson? : Json → Option Discriminator
  | .object members =>
    match Table.find? members "propertyName", Table.find? members "mapping" with
    | some (.string name), none => some ⟨name, none⟩
    | some (.string name), some .null => some ⟨name, none⟩
    | some (.string name), some (.object m) => (mappingOfJson? m).map fun m => ⟨name, some m⟩
    | _, _ => none
  | _ => none

end Discriminator

namespace Keywords

/-- An optional member. -/
def entry {α : Type} (name : String) (write : α → Json) (value : Option α) : Table Json :=
  (value.map fun v => (name, write v)).toList

/-- The members of one node whose subschemas are already written. -/
def members (k : Keywords Json) : Table Json :=
  entry "type" .string k.type
    ++ entry "format" .string k.format
    ++ entry "properties" .object k.properties
    ++ entry "required" (fun names => .array (names.map .string)) k.required
    ++ entry "additionalProperties" Additional.toJson k.additional
    ++ entry "items" id k.items
    ++ entry "prefixItems" .array k.prefixItems
    ++ entry "minItems" (fun n : Nat => .int n) k.minItems
    ++ entry "maxItems" (fun n : Nat => .int n) k.maxItems
    ++ entry "enum" .array k.enumeration
    ++ entry "oneOf" .array k.oneOf
    ++ entry "allOf" .array k.allOf
    ++ entry "discriminator" Discriminator.toJson k.discriminator
    ++ entry "nullable" .bool k.nullable
    ++ entry "$ref" .string k.ref

end Keywords

namespace Schema

/-- The JSON form: the keywords that are present, in the order of the record. -/
def toJson : Schema → Json := fold fun k => .object k.members

/-! ## Reading -/

/-- A text. -/
def textOfJson? : Json → Option String
  | .string s => some s
  | _ => none

/-- A flag. -/
def flagOfJson? : Json → Option Bool
  | .bool b => some b
  | _ => none

/-- A count of items: a whole number that fits 64 bits. -/
def countOfJson? : Json → Option Nat
  | .int n => if 0 ≤ n ∧ n.toNat < Nat.pow 2 64 then some n.toNat else none
  | _ => none

/-- The items of an array. -/
def itemsOfJson? : Json → Option (List Json)
  | .array items => some items
  | _ => none

/-- A list of texts. -/
def textsOfJson? (value : Json) : Option (List String) :=
  (itemsOfJson? value).bind (·.mapM textOfJson?)

mutual
/-- Reads a schema from an object; values of another kind are refused. -/
def ofJson? : Json → Option Schema
  | .object members => (keywordsOfJson? members).map .mk
  | _ => none

/-- Reads the keywords of a member list. Of a keyword that is repeated the first counts. -/
def keywordsOfJson? : Table Json → Option (Keywords Schema)
  | [] => some {}
  | (_, .null) :: rest => keywordsOfJson? rest
  | (name, value) :: rest =>
    (keywordsOfJson? rest).bind fun k =>
      match name with
      | "type" => (textOfJson? value).map fun v => { k with type := some v }
      | "format" => (textOfJson? value).map fun v => { k with format := some v }
      | "properties" =>
        match value with
        | .object entries => (tableOfJson? entries).map fun v => { k with properties := some v }
        | _ => none
      | "required" => (textsOfJson? value).map fun v => { k with required := some v }
      | "additionalProperties" =>
        match value with
        | .bool b => some { k with additional := some (.allowed b) }
        | _ => (ofJson? value).map fun v => { k with additional := some (.schema v) }
      | "items" => (ofJson? value).map fun v => { k with items := some v }
      | "prefixItems" =>
        match value with
        | .array items => (listOfJson? items).map fun v => { k with prefixItems := some v }
        | _ => none
      | "minItems" => (countOfJson? value).map fun v => { k with minItems := some v }
      | "maxItems" => (countOfJson? value).map fun v => { k with maxItems := some v }
      | "enum" => (itemsOfJson? value).map fun v => { k with enumeration := some v }
      | "oneOf" =>
        match value with
        | .array items => (listOfJson? items).map fun v => { k with oneOf := some v }
        | _ => none
      | "allOf" =>
        match value with
        | .array items => (listOfJson? items).map fun v => { k with allOf := some v }
        | _ => none
      | "discriminator" => (Discriminator.ofJson? value).map fun v => { k with discriminator := some v }
      | "nullable" => (flagOfJson? value).map fun v => { k with nullable := some v }
      | "$ref" => (textOfJson? value).map fun v => { k with ref := some v }
      | _ => some k

/-- Reads a table of schemas. -/
def tableOfJson? : Table Json → Option (Table Schema)
  | [] => some []
  | (name, value) :: rest =>
    match ofJson? value, tableOfJson? rest with
    | some s, some t => some ((name, s) :: t)
    | _, _ => none

/-- Reads a list of schemas. -/
def listOfJson? : List Json → Option (List Schema)
  | [] => some []
  | value :: rest =>
    match ofJson? value, listOfJson? rest with
    | some s, some l => some (s :: l)
    | _, _ => none
end

end Schema

end RouteManifest
