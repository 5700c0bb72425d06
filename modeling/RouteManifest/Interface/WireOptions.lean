import RouteManifest.Source.ItemReading
import RouteManifest.Text.Case
import RouteManifest.Text.Words

/-!
# How a declaration is written on the wire

Attributes named `serde` say under which names values are serialized, what is left out, and how variants are
told apart. Their entries are read from the left. An entry that is malformed ends its attribute: what was read
before it counts, the rest of the attribute does not.
-/

namespace RouteManifest

/-- What the attributes of a type, a field or a variant ask for. -/
structure WireOptions where
  rename : Option String := none
  /-- the rule for the names inside -/
  renameAll : Option String := none
  isSkipped : Bool := false
  isDefaulted : Bool := false
  isFlattened : Bool := false
  deniesUnknown : Bool := false
  /-- the property that holds the name of the variant -/
  tag : Option String := none
  /-- the property that holds what the variant holds -/
  content : Option String := none
  isUntagged : Bool := false
  isTransparent : Bool := false
deriving DecidableEq, Repr

namespace WireOptions

open Source Reading

/-! ## Entries -/

/-- The key of an entry: a single word, or nothing for a longer path. -/
def entryKey : Reading String := do
  let rooted ← maybeMarks "::"
  let first ← anyWord
  let rest ← manyWhile (atMarks "::") do
    marks "::"
    anyWord
  return if rooted || !rest.isEmpty then "" else first

/-- A text behind `=`. -/
def textValue : Reading String := do
  marks "="
  match ← get with
  | .leaf _ (.literal (.text value)) :: _ =>
    drop 1
    return value
  | _ => failure

/-- Entries in parentheses, at least one. -/
def nestedEntries {α : Type} (entry : Reading α) : Reading (List α) :=
  inside .round do
    check fun trees => !trees.isEmpty
    commaList entry

/-- What follows a key that asks for nothing: a value, entries in parentheses, or nothing. -/
def passValueWithin : Nat → Reading Unit
  | 0 => failure
  | depth + 1 => do
    if ← maybeMarks "=" then expression typeTerm
    else if ← ahead (atGroup .round) then
      let _ ← nestedEntries do
        let _ ← entryKey
        passValueWithin depth

/-- Passes over what follows a key. -/
def passValue : Reading Unit := bounded passValueWithin

/-- A name, or the name that is used for writing where reading uses another. The last one counts. -/
def writtenName : Reading String := do
  if ← ahead (atMarks "=") then textValue
  else
    let halves ← nestedEntries do
      if (← entryKey) = "serialize" then some <$> textValue
      else
        passValue
        return none
    match (halves.filterMap id).getLast? with
    | some name => return name
    | none => failure

/-- Takes what follows a key: the options with what the key asks for, and the rest, or `none` for the rest if
the entry is malformed. -/
def entry (o : WireOptions) (key : String) (trees : List TokenTree) :
    WireOptions × Option (List TokenTree) :=
  let withText (reading : Reading String) (set : String → WireOptions) :=
    match reading trees with
    | some (text, rest) => (set text, some rest)
    | none => (o, none)
  match key with
  | "rename" => withText writtenName fun text => { o with rename := some text }
  | "rename_all" => withText writtenName fun text => { o with renameAll := some text }
  | "tag" => withText textValue fun text => { o with tag := some text }
  | "content" => withText textValue fun text => { o with content := some text }
  | "skip" => ({ o with isSkipped := true }, some trees)
  | "flatten" => ({ o with isFlattened := true }, some trees)
  | "untagged" => ({ o with isUntagged := true }, some trees)
  | "transparent" => ({ o with isTransparent := true }, some trees)
  | "deny_unknown_fields" => ({ o with deniesUnknown := true }, some trees)
  | "default" => ({ o with isDefaulted := true }, (passValue trees).map Prod.snd)
  | _ => (o, (passValue trees).map Prod.snd)

/-- Takes entries with commas between them, as far as they are well formed. -/
def entries (o : WireOptions) (trees : List TokenTree) : WireOptions :=
  match entryKey trees with
  | none => o
  | some (key, rest) =>
    match o.entry key rest with
    | (o, none) => o
    | (o, some rest) =>
      match marks "," rest with
      | none => o
      | some (_, rest) => if _shorter : rest.length < trees.length then entries o rest else o
termination_by trees.length

/-- Takes an attribute, if it is one of those that count. -/
def addAttribute (o : WireOptions) (a : Attribute) : WireOptions :=
  match a.name, a.content with
  | some "serde", .list trees => o.entries trees
  | _, _ => o

/-- What attributes ask for. -/
def ofAttributes (attributes : List Attribute) : WireOptions := attributes.foldl addAttribute {}

/-! ## Names -/

/-- An identifier without the mark of a raw one. -/
def plainIdentifier (name : String) : String :=
  match Text.dropLeadingText? "r#" name with
  | some plain => plain
  | none => name

/-- A name under a rule. A rule that does not exist changes nothing. -/
def underRule (rule name : String) : String :=
  match rule with
  | "lowercase" => Text.toSmallText name
  | "UPPERCASE" => Text.toCapitalText name
  | "PascalCase" => Text.upperCamel name
  | "camelCase" => Text.lowerCamel name
  | "snake_case" => Text.snake name
  | "SCREAMING_SNAKE_CASE" => Text.shoutySnake name
  | "kebab-case" => Text.kebab name
  | "SCREAMING-KEBAB-CASE" => Text.shoutyKebab name
  | _ => name

/-- The name that an identifier is written under, by its own options or by the rule of what it stands in. -/
def nameOf (o : WireOptions) (rule : Option String) (identifier : String) : String :=
  match o.rename with
  | some name => name
  | none =>
    match rule with
    | some rule => underRule rule (plainIdentifier identifier)
    | none => plainIdentifier identifier

end WireOptions

end RouteManifest
