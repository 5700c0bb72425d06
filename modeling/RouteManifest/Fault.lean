import RouteManifest.Location

/-!
# Faults

Everything that can go wrong, as causes: a fault holds what is needed to say what happened, and
`Fault.message` is the one place where it is put into words. Most faults have a location, with which their
message begins.

One fault is fatal (`Fault.isFatal`): a registry that was filled twice for one id stops a run at once, all
others are collected.
-/

namespace RouteManifest

/-- Why a type has no schema. -/
inductive TypeFault where
  | functionType
  | argumentCount (name : String) (expected found : Nat)
deriving DecidableEq, Repr

namespace TypeFault

/-- The cause in words. -/
def message : TypeFault → String
  | .functionType => "function types cannot be represented as data"
  | .argumentCount name expected found =>
    "`" ++ name ++ "` expects " ++ toString expected ++ " type argument(s), found " ++ toString found

end TypeFault

/-- Why a handler is no route. -/
inductive RouteFault where
  /-- two parameters of one name at one place (`path`, `query` or `header`) -/
  | duplicateParameter (place name : String)
  | secondBody
  /-- the aliases from the outermost provider to the one that comes round again -/
  | providerCycle (chain : List String)
  | providerMismatch (provider produced parameter declared : String)
  /-- a second unmarked structured parameter -/
  | ambiguousParameter (name first : String)
  | socketOutsideWebsocket (name : String)
  | notAnObject (place name found : String)
  | unboundToken (url token : String)
  | strayPathParameter (name url : String)
  | duplicateOperationId (id owner : String)
deriving DecidableEq, Repr

namespace RouteFault

/-- The cause in words. -/
def message : RouteFault → String
  | .duplicateParameter place name => "duplicate " ++ place ++ " parameter `" ++ name ++ "`"
  | .secondBody => "a route accepts at most one body"
  | .providerCycle chain => "provider cycle: " ++ Text.join " -> " chain
  | .providerMismatch provider produced parameter declared =>
    "provider `" ++ provider ++ "` produces `" ++ produced ++ "` but parameter `" ++ parameter
      ++ "` is declared as `" ++ declared ++ "`"
  | .ambiguousParameter name first =>
    "cannot tell where `" ++ name ++ "` comes from: `" ++ first
      ++ "` already took the positional body/query slot; mark it with a wrapper type or doc tag"
  | .socketOutsideWebsocket name =>
    "socket parameter `" ++ name ++ "` is only valid on websocket handlers"
  | .notAnObject place name found =>
    place ++ " parameter `" ++ name ++ "` must be an object type, found `" ++ found ++ "`"
  | .unboundToken url token => "url `" ++ url ++ "` declares `:" ++ token ++ "` but no parameter binds it"
  | .strayPathParameter name url =>
    "parameter `" ++ name ++ "` is read from the path but `" ++ url ++ "` has no `:" ++ name ++ "` segment"
  | .duplicateOperationId id owner => "operationId `" ++ id ++ "` is already used by " ++ owner

end RouteFault

/-- Why a file could not be read or written. -/
inductive FileFault where
  | notFound
  | isDirectory
  | notDirectory
  | alreadyExists
  /-- a cause that only the disk knows, in its words -/
  | other (text : String)
deriving DecidableEq, Repr

namespace FileFault

/-- The cause in words, with its number. -/
def message : FileFault → String
  | .notFound => "No such file or directory (os error 2)"
  | .isDirectory => "Is a directory (os error 21)"
  | .notDirectory => "Not a directory (os error 20)"
  | .alreadyExists => "File exists (os error 17)"
  | .other text => text

end FileFault

/-- Why a configuration is of no use. -/
inductive ConfigFault where
  | invalidPrefix (pattern : String)
  | invalidGlob (pattern : String)
  /-- the file does not hold a configuration -/
  | unreadable (file : String)
  | missingFunction (provider function file : String)
deriving DecidableEq, Repr

namespace ConfigFault

/-- The cause in words. -/
def message : ConfigFault → String
  | .invalidPrefix pattern => "invalid controller prefix `" ++ pattern ++ "`"
  | .invalidGlob pattern => "invalid controller glob `" ++ pattern ++ "`"
  | .unreadable file => file
  | .missingFunction provider function file =>
    "provider `" ++ provider ++ "`: no function `" ++ function ++ "` in " ++ file

end ConfigFault

/-- What went wrong, and where. -/
inductive Fault where
  | unsupportedType (location : Location) (cause : TypeFault)
  | unboundTypeParameter (location : Location) (name : String)
  | unresolvedReference (location : Location) (name : String)
  | recursionLimit (location : Location) (base : String) (limit : Nat)
  | invalidRoute (location : Location) (cause : RouteFault)
  /-- two declarations insist on one id with different shapes -/
  | schemaConflict (location : Location) (id : String) (earlier : Location)
  | registryCorruption (id : String)
  /-- a file that could not be read or written -/
  | unreachable (cause : FileFault)
  | unparsable (file : String)
  | config (cause : ConfigFault)
deriving DecidableEq, Repr

namespace Fault

/-- The location of a fault that has one. -/
def location? : Fault → Option Location
  | .unsupportedType l _ | .unboundTypeParameter l _ | .unresolvedReference l _ | .recursionLimit l _ _
  | .invalidRoute l _ | .schemaConflict l _ _ => some l
  | .registryCorruption _ | .unreachable _ | .unparsable _ | .config _ => none

/-- A fatal fault stops a run at once. -/
def isFatal : Fault → Bool
  | .registryCorruption _ => true
  | _ => false

/-- What happened, in words. -/
def detail : Fault → String
  | .unsupportedType _ cause => "unsupported type: " ++ cause.message
  | .unboundTypeParameter _ name => "unbound type parameter `" ++ name ++ "`"
  | .unresolvedReference _ name => "unresolved type reference `" ++ name ++ "`"
  | .recursionLimit _ base limit =>
    "expanding `" ++ base ++ "` exceeds the generic depth limit of " ++ toString limit
  | .invalidRoute _ cause => "invalid route: " ++ cause.message
  | .schemaConflict _ id earlier =>
    "schema conflict on `" ++ id ++ "`: already declared with a different shape at " ++ earlier.text
  | .registryCorruption id =>
    "schema registry corrupted: id `" ++ id ++ "` was filled with two different schemas"
  | .unreachable cause => "IO error: " ++ cause.message
  | .unparsable file => "parse error in " ++ file
  | .config cause => "invalid configuration: " ++ cause.message

/-- The message: the location, if there is one, and what happened. -/
def message (f : Fault) : String :=
  match f.location? with
  | some l => l.text ++ ": " ++ f.detail
  | none => f.detail

end Fault

/-- The faults of a run, as one text. -/
def faultReport (faults : List Fault) : String :=
  "generation failed with " ++ toString faults.length ++ " diagnostic(s):\n"
    ++ String.join (faults.map fun f => "  - " ++ f.message ++ "\n")

end RouteManifest
