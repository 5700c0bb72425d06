import RouteManifest.Fault
import RouteManifest.Pattern.Regex.Parser
import RouteManifest.Text.Words

/-!
# Addresses from paths

The URL of a controller unit and the name of its controller come from its path: the root of the project and
a leading part that the rules describe do not count, nor do the file's extension and a last segment `index`
or `mod`. A segment in brackets becomes a parameter: `routes/users/[id].rs` is `/users/:id`.
-/

namespace RouteManifest

/-- Which leading parts of a path do not show in its URL. -/
structure UrlRules where
  root : Path
  /-- removed where it matches first -/
  lead : Regex

namespace UrlRules

/-- The rule for the leading part unless a configuration says otherwise. -/
def defaultLead : String := "(?:.*src)?/?(?:routes/?)"

/-- Rules from a root and the text of an expression. -/
def make (root : Path) (lead : String) : Except Fault UrlRules :=
  match Regex.parse? lead with
  | some lead => .ok ⟨root, lead⟩
  | none => .error (.config (.invalidPrefix lead))

/-- The path of a unit below the root, with slashes. -/
def relativePath (rules : UrlRules) (unit : Path) : String :=
  ((unit.relativeTo? rules.root).getD unit).slashed

/-- A path without the extension of its last segment. -/
def withoutExtension (path : String) : String :=
  match (Text.split '.' path).reverse with
  | extension :: stem :: rest =>
    if extension.toList.contains '/' then path else Text.join "." (stem :: rest).reverse
  | _ => path

/-- The segments of the route. -/
def segments (rules : UrlRules) (unit : Path) : List String :=
  let path := withoutExtension (rules.lead.removeFirst (rules.relativePath unit))
  let all := (Text.split '/' path).filter fun s => !s.isEmpty
  if all.getLast? = some "index" ∨ all.getLast? = some "mod" then all.dropLast else all

/-- The name of the parameter that a segment in brackets stands for. -/
def bracketed? (segment : String) : Option String :=
  (Text.dropLeadingText? "[" segment).bind (Text.dropTrailingText? "]")

/-- A segment as it stands in the URL. -/
def urlSegment (segment : String) : String :=
  match bracketed? segment with
  | some name => ":" ++ name
  | none => segment

/-- The URL of a unit. -/
def url (rules : UrlRules) (unit : Path) : String :=
  "/" ++ Text.join "/" ((rules.segments unit).map urlSegment)

/-- The name of a unit's controller. -/
def controllerName (rules : UrlRules) (unit : Path) : String :=
  let name := String.join ((rules.segments unit).map Text.upperCamel)
  (if name.isEmpty then "Index" else name) ++ "Controller"

end UrlRules

/-- The names of the parameters of a URL, in order. -/
def pathTokens (url : String) : List String := (Text.split '/' url).filterMap (Text.dropLeadingText? ":")

end RouteManifest
