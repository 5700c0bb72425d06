import RouteManifest.Config.Value
import RouteManifest.DocumentFormat
import RouteManifest.Files.Storage
import RouteManifest.OpenApi
import RouteManifest.Route.Url

/-!
# Configurations

A configuration says where the parts of a project are and what is written where. Everything in it has a
default, also inside of its parts, so a file only says what is different; a file that is not there says
nothing. A list in a file takes the place of the default list.
-/

namespace RouteManifest

/-- Which files are controllers, and how their addresses are found. -/
structure ControllerConfig where
  globs : List String := ["src/routes/**/*.rs", "routes/**/*.rs"]
  lead : String := UrlRules.defaultLead
  root : Path := ⟨"."⟩
deriving DecidableEq, Repr

/-- Where and how the manifest is written. -/
structure ManifestConfig where
  output : Path := ⟨"routes.json"⟩
  format : DocumentFormat := .json
deriving DecidableEq, Repr

/-- Where the OpenAPI document is written, and what it says of itself. -/
structure OpenApiConfig where
  output : Path := ⟨"openapi.json"⟩
  info : OpenApi.Info := {}
deriving DecidableEq, Repr

/-- A configuration. -/
structure Config where
  /-- the directory of the type declarations -/
  source : Path := ⟨"src"⟩
  controllers : ControllerConfig := {}
  /-- references to provider functions by the alias of the provider -/
  providers : Table String := []
  manifest : ManifestConfig := {}
  openApi : Option OpenApiConfig := none
deriving DecidableEq, Repr

/-! ## Reading -/

open ConfigValue

variable {ν : Type} [ConfigValue ν]

namespace ControllerConfig

/-- Reads the part of a configuration that is about controllers. -/
def read? (v : ν) : Option ControllerConfig := do
  let r ← plainRecord? ["glob", "prefix", "root"] v
  let d : ControllerConfig := {}
  return {
    globs := ← fieldOr r "glob" texts? d.globs
    lead := ← fieldOr r "prefix" text? d.lead
    root := ← fieldOr r "root" path? d.root }

/-- The part as it is written out. -/
def toJson (c : ControllerConfig) : Json :=
  .object [("glob", .array (c.globs.map .string)), ("prefix", .string c.lead), ("root", .string c.root.text)]

end ControllerConfig

namespace ManifestConfig

/-- Reads the part of a configuration that is about the manifest. -/
def read? (v : ν) : Option ManifestConfig := do
  let r ← plainRecord? ["output", "format"] v
  let d : ManifestConfig := {}
  return {
    output := ← fieldOr r "output" path? d.output
    format := ← fieldOr r "format" (fun v => (choice? v).bind DocumentFormat.ofName?) d.format }

/-- The part as it is written out. -/
def toJson (c : ManifestConfig) : Json :=
  .object [("output", .string c.output.text), ("format", .string c.format.text)]

end ManifestConfig

/-- A value or null. -/
def nullable? {α : Type} (read : ν → Option α) (v : ν) : Option (Option α) := do
  match ← unlessNull? v with
  | some v => return some (← read v)
  | none => return none

namespace OpenApiConfig

/-- Reads the part of a configuration that is about the OpenAPI document. -/
def read? (v : ν) : Option OpenApiConfig := do
  let r ← plainRecord? ["output", "title", "version", "description"] v
  let d : OpenApiConfig := {}
  return {
    output := ← fieldOr r "output" path? d.output
    info := {
      title := ← fieldOr r "title" text? d.info.title
      version := ← fieldOr r "version" text? d.info.version
      description := ← fieldOr r "description" (nullable? text?) d.info.description } }

/-- The part as it is written out. -/
def toJson (c : OpenApiConfig) : Json :=
  .object ([("output", .string c.output.text), ("title", .string c.info.title),
      ("version", .string c.info.version)]
    ++ (c.info.description.map fun d => ("description", .string d)).toList)

end OpenApiConfig

namespace Config

/-- The fields of a configuration. -/
def fields : List String := ["source", "controllers", "providers", "routes", "openapi"]

/-- The field that a name means. Providers may also be called parameters. -/
def field? : String → Option String
  | "params" => some "providers"
  | name => if fields.contains name then some name else none

/-- Reads a configuration. -/
def read? (v : ν) : Option Config := do
  let r ← record? fields field? v
  let d : Config := {}
  return {
    source := ← fieldOr r "source" path? d.source
    controllers := ← fieldOr r "controllers" ControllerConfig.read? d.controllers
    providers := ← fieldOr r "providers" textTable? d.providers
    manifest := ← fieldOr r "routes" ManifestConfig.read? d.manifest
    openApi := ← fieldOr r "openapi" (nullable? OpenApiConfig.read?) d.openApi }

/-- Reads a configuration from a text. -/
def ofText? : DocumentFormat → String → Option Config
  | .json, text => (Json.parse? text).bind read?
  | .yaml, text => (Yaml.read? text).bind read?

/-- Reads the configuration of a file. -/
def load {m : Type → Type} [Monad m] [Storage m] (p : Path) : ExceptT Fault m Config := do
  match ← ExceptT.lift (Storage.kindAt p) with
  | .error _ => return {}
  | .ok _ =>
    match ← ExceptT.lift (Storage.readText p) with
    | .error fault => throw (.unreachable fault)
    | .ok text =>
      match ofText? (.ofPath p) text with
      | some config => return config
      | none => throw (.config (.unreadable p.text))

/-- The rules for addresses. -/
def rules (c : Config) : Except Fault UrlRules :=
  UrlRules.make c.controllers.root c.controllers.lead

/-- The configuration as it is written out. -/
def toJson (c : Config) : Json :=
  .object ([("source", .string c.source.text), ("controllers", c.controllers.toJson),
      ("providers", .object (c.providers.mapValues .string)), ("routes", c.manifest.toJson)]
    ++ (c.openApi.map fun o => ("openapi", o.toJson)).toList)

end Config

end RouteManifest
