import RouteManifest.Route.Handler
import RouteManifest.Source.Item
import RouteManifest.Text.Blank

/-!
# Documentation comments

A comment is free text and tags. A line that begins with `@` is a tag: the word behind the `@`, and the rest of
the line as its value. Tags can name a handler's operation, and say where a parameter is read from.
-/

namespace RouteManifest

/-- A comment in lines and tags. -/
structure Documentation where
  text : List String := []
  /-- names with values, in order -/
  tags : List (String × String) := []
deriving DecidableEq, Repr

namespace Documentation

/-- The word and the trimmed rest of a tag. -/
def cutTag (tag : List Char) : String × String :=
  let word := tag.takeWhile fun c => !Text.isBlank c
  (String.ofList word, Text.trim (String.ofList (tag.drop (word.length + 1))))

/-- Adds a line. -/
def addLine (d : Documentation) (line : String) : Documentation :=
  match Text.trimChars line.toList with
  | '@' :: tag => { d with tags := d.tags ++ [cutTag tag] }
  | plain => { d with text := d.text ++ [String.ofList plain] }

/-- The line that an attribute holds. -/
def line? (a : Source.Attribute) : Option String :=
  match a.name, a.content with
  | some "doc", .value (some line) => some line
  | _, _ => none

/-- The comment that attributes hold. -/
def ofAttributes (attributes : List Source.Attribute) : Documentation :=
  (attributes.filterMap line?).foldl addLine {}

/-- The value of the first tag of a name. -/
def tag? (d : Documentation) (name : String) : Option String := Table.find? d.tags name

/-- The marker that a tag stands for. -/
def markerOf? : String → Option Marker
  | "path" => some .path
  | "query" => some .query
  | "body" => some .body
  | "header" => some .header
  | _ => none

/-- Where the first tag for a parameter says that it is read from. -/
def markerFor? (d : Documentation) (parameter : String) : Option Marker :=
  d.tags.findSome? fun (tag, value) => if value = parameter then markerOf? tag else none

/-- The free text, if there is any. -/
def description? (d : Documentation) : Option String :=
  let text := Text.trim (Text.join "\n" d.text)
  if text.isEmpty then none else some text

end Documentation

end RouteManifest
