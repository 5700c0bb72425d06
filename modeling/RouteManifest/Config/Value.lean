import RouteManifest.Json.Parser
import RouteManifest.Path
import RouteManifest.Yaml.Node

/-!
# Values of a configuration

A configuration is read from JSON or from YAML by the same rules, but the two differ in what counts as a text,
a list or a record. `ConfigValue` holds the differences.

In JSON only a string is a text, and the fields of a record can be listed without their names. In YAML every
scalar is a text, `5` and `null` too, and where a list or a mapping is expected nothing need be written.
-/

namespace RouteManifest

/-- Values that a configuration can be read from. Every reading answers `none` for a value of another kind. -/
class ConfigValue (ν : Type) where
  text? : ν → Option String
  items? : ν → Option (List ν)
  /-- names with values as written, a name maybe more than once -/
  members? : ν → Option (List (String × ν))
  /-- the fields of a record that is written without names -/
  positions? : ν → Option (List ν)
  /-- the value, unless it says that there is none -/
  unlessNull? : ν → Option (Option ν)
  /-- one of several words -/
  choice? : ν → Option String

namespace Json

/-- A text. -/
def text? : Json → Option String
  | .string text => some text
  | _ => none

/-- A list. -/
def items? : Json → Option (List Json)
  | .array items => some items
  | _ => none

/-- Names with values. -/
def members? : Json → Option (List (String × Json))
  | .object members => some members
  | _ => none

/-- A word, which can also be the name of a single member without a value. -/
def choice? : Json → Option String
  | .string word => some word
  | .object [(word, .null)] => some word
  | _ => none

instance : ConfigValue Json where
  text? := text?
  items? := items?
  members? := members?
  positions? := items?
  unlessNull? v := some (if v == .null then none else some v)
  choice? := choice?

end Json

namespace Yaml.Node

/-- The spellings of null. -/
def spellsNull (text : String) : Bool := isNull text && !text.isEmpty

/-- Whether nothing is written. -/
def isMissing : Node → Bool
  | .scalar _ plain text => plain && text.isEmpty
  | _ => false

/-- A list. -/
def items? (n : Node) : Option (List Node) :=
  match n with
  | .sequence items => some items
  | n => if n.isMissing then some [] else none

/-- Names with values. -/
def members? (n : Node) : Option (List (String × Node)) :=
  match n with
  | .mapping entries => entries.mapM fun (k, v) => k.text?.map (·, v)
  | n => if n.isMissing then some [] else none

/-- The value, unless it is null. A scalar with the tag of null has to be spelled as null. -/
def unlessNull? (n : Node) : Option (Option Node) :=
  match n with
  | .scalar tag true text =>
    match tag with
    | none => some (if isNull text then none else some n)
    | some "tag:yaml.org,2002:null" => if spellsNull text then some none else none
    | some _ => some (some n)
  | n => some (some n)

/-- A word, which can also be a tag of the document's own on nothing. -/
def choice? : Node → Option String
  | .scalar (some tag) plain text =>
    match Text.dropLeadingText? "!" tag with
    | some word => if plain && isNull text then some word else none
    | none => some text
  | .scalar none _ text => some text
  | _ => none

instance : ConfigValue Node where
  text? := text?
  items? := items?
  members? := members?
  positions? _ := none
  unlessNull? := unlessNull?
  choice? := choice?

end Yaml.Node

namespace ConfigValue

variable {ν α : Type} [ConfigValue ν]

/-- A path. -/
def path? (v : ν) : Option Path := (text? v).map Path.mk

/-- A list of texts. -/
def texts? (v : ν) : Option (List String) := (items? v).bind (·.mapM text?)

/-- Texts by name. Of a name that is repeated the last text counts. -/
def textTable? (v : ν) : Option (Table String) := do
  let members ← members? v
  return Table.ofEntries (← members.mapM fun (name, v) => do return (name, ← text? v))

/-- The fields that a record has, where `field?` says which field a name means. A record without names has its
fields in their order, and may end early; one with names has each field once at most, and names that mean no
field are passed over. -/
def record? (fields : List String) (field? : String → Option String) (v : ν) : Option (Table ν) :=
  match positions? v with
  | some values => if values.length ≤ fields.length then some (fields.zip values) else none
  | none => do
    let known := (← members? v).filterMap fun (name, v) => (field? name).map (·, v)
    if (known.map Prod.fst).Nodup then some known else none

/-- The fields that a record has, if they go by their own names only. -/
def plainRecord? (fields : List String) (v : ν) : Option (Table ν) :=
  record? fields (fun name => if fields.contains name then some name else none) v

/-- A field as it is read, or as it is where the record does not have it. -/
def fieldOr (record : Table ν) (name : String) (read : ν → Option α) (default : α) : Option α :=
  match record.find? name with
  | some v => read v
  | none => some default

end ConfigValue

end RouteManifest
