import RouteManifest.Config.Basic
import RouteManifest.Generation
import RouteManifest.Interface.Handlers
import RouteManifest.Project.Scan

/-!
# Projects

A project is what a run needs to know of the files below a directory: the declared types, the controllers, the
providers that its configuration names, and the rules for addresses.

A source file that cannot be parsed is left out, except that controllers and the files of providers have to be
readable. The file of a provider need not be among the source files; its types are declared then, too.
-/

namespace RouteManifest

/-- What a run needs to know. -/
structure Project where
  catalog : Catalog
  units : List ControllerUnit
  providers : Providers
  rules : UrlRules

namespace Project

variable {m : Type → Type} [Monad m] [Storage m]

/-- Reads the files of a scan, leaving out those that are neither readable nor controllers. -/
def readFiles (root : Path) (scan : Scan) : List Path → ExceptT Fault m (List SourceFile)
  | [] => return []
  | p :: rest => do
    match ← ExceptT.lift (SourceFile.readIn root p).run with
    | .ok file => return file :: (← readFiles root scan rest)
    | .error fault => if scan.isController p then throw fault else readFiles root scan rest

/-- What has been gathered of a project. -/
structure Gathered where
  declarations : List Declaration
  providers : Providers

/-- Takes a provider in. Its file is one of those that have been read, or is read now and then declares its
types. -/
def addProvider (root : Path) (files : List SourceFile) (g : Gathered) (name reference : String) :
    ExceptT Fault m Gathered := do
  let r := ProviderReference.parse reference
  let (file, declarations) ← match files.find? (·.path.same r.path) with
    | some file => pure (file, g.declarations)
    | none => do
      let file ← SourceFile.readIn root r.path
      pure (file, g.declarations ++ file.declarations)
  let p ← ExceptT.mk (pure (file.provider name r))
  return ⟨declarations, Table.insert g.providers name p⟩

/-- Takes providers in, in their order. -/
def addProviders (root : Path) (files : List SourceFile) (g : Gathered) :
    Table String → ExceptT Fault m Gathered
  | [] => return g
  | (name, reference) :: rest => do
    let g ← addProvider root files g name reference
    addProviders root files g rest

/-- Reads the project of a directory. -/
def load (root : Path) (config : Config) : ExceptT Fault m Project := do
  let rules ← ExceptT.mk (pure config.rules)
  let globs ← ExceptT.mk (pure (Glob.parseAll config.controllers.globs))
  let scan ← ExceptT.lift (Scan.run root config.source globs)
  let files ← readFiles root scan scan.files
  let gathered : Gathered := ⟨files.flatMap SourceFile.declarations, []⟩
  let g ← addProviders root files gathered config.providers
  return {
    catalog := ⟨g.declarations⟩
    units := (files.filter fun f => scan.isController f.path).map SourceFile.controllerUnit
    providers := g.providers
    rules }

/-- The output of a run, or its faults. -/
def generate (p : Project) : Except (List Fault) Output :=
  RouteManifest.generate p.catalog p.rules p.providers p.units

end Project

end RouteManifest
