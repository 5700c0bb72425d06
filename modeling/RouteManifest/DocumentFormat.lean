import RouteManifest.Path
import RouteManifest.Yaml.Printer

/-!
# Document formats

Documents are read and written as JSON or as YAML. Where nobody says which, the ending of the file does.
-/

namespace RouteManifest

/-- JSON or YAML. -/
inductive DocumentFormat where
  | json | yaml
deriving DecidableEq, Repr

namespace DocumentFormat

/-- The format as it is written out. -/
def text : DocumentFormat → String
  | .json => "json"
  | .yaml => "yaml"

/-- The format of a name. -/
def ofName? : String → Option DocumentFormat
  | "json" => some .json
  | "yaml" => some .yaml
  | _ => none

theorem ofName?_text (f : DocumentFormat) : ofName? f.text = some f := by cases f <;> rfl

/-- The format of a file by its ending; a file that does not say otherwise holds JSON. -/
def ofPath (p : Path) : DocumentFormat :=
  match p.extension? with
  | some "yaml" | some "yml" => .yaml
  | _ => .json

/-- A document as it is written to a file. -/
def print : DocumentFormat → Json → String
  | .json, document => document.pretty
  | .yaml, document => Yaml.print document

end DocumentFormat

end RouteManifest
