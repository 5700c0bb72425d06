import RouteManifest.CommandLine.Arguments
import RouteManifest.Project.Basic

/-!
# Running a command

A command works on the project whose configuration it is given: paths of the configuration start at the
directory that the configuration lies in. Generating first does all that can fail without a file being
written, then writes the manifest, then the OpenAPI document.
-/

namespace RouteManifest

namespace CommandLine

/-- Why a command failed. -/
inductive Failure where
  | unusableConfig (file : Path) (cause : Fault)
  | unusableProject (root : Path) (cause : Fault)
  | faults (found : List Fault)
  | noDirectory (directory : Path) (cause : FileFault)
  | notWritten (file : Path) (cause : FileFault)
deriving DecidableEq, Repr

namespace Failure

/-- What failed, in words. -/
def summary : Failure → String
  | .unusableConfig file _ => "Failed to load config " ++ file.text
  | .unusableProject root _ => "Failed to load project " ++ root.text
  | .faults found => "generation failed with " ++ toString found.length ++ " diagnostic(s)"
  | .noDirectory directory _ => "Failed to create directory: " ++ directory.text
  | .notWritten file _ => "Failed to write to file: " ++ file.text

/-- Why, in words, if that is not all. -/
def cause? : Failure → Option String
  | .unusableConfig _ cause | .unusableProject _ cause => some cause.message
  | .faults _ => none
  | .noDirectory _ cause | .notWritten _ cause => some cause.message

end Failure

/-- The directory that a configuration lies in. -/
def rootOf (config : Path) : Path :=
  match config.parent? with
  | some directory => if directory.text.isEmpty then ⟨"."⟩ else directory
  | none => ⟨"."⟩

variable {m : Type → Type} [Monad m] [Storage m]

/-- Turns the faults of a step into failures of the command. -/
def orFail {ε α : Type} (failure : ε → Failure) (step : ExceptT ε m α) : ExceptT Failure m α :=
  ExceptT.mk do
    match ← step.run with
    | .ok value => return .ok value
    | .error fault => return .error (failure fault)

/-- Writes a document and makes the directories that it lies in. -/
def writeDocument (p : Path) (text : String) : ExceptT Failure m Unit := do
  if let some directory := p.parent? then
    orFail (.noDirectory directory) (ExceptT.mk (Storage.createDirectories directory))
  orFail (.notWritten p) (ExceptT.mk (Storage.writeText p text))

/-- Writes what a configuration asks for. -/
def writeOutput (root : Path) (config : Config) (o : Output) : ExceptT Failure m Unit := do
  writeDocument (root.join config.manifest.output) (config.manifest.format.print o.toJson)
  if let some c := config.openApi then
    let p := root.join c.output
    writeDocument p ((DocumentFormat.ofPath p).print (OpenApi.ofOutput c.info o).toJson)

/-- The configuration as the options of a command change it. A path for the OpenAPI document asks for one. -/
def withOptions (c : Config) (output : Option Path) (format : Option DocumentFormat) (openApi : Option Path) :
    Config :=
  { c with
    manifest := {
      output := output.getD c.manifest.output
      format := format.getD c.manifest.format }
    openApi := match openApi with
      | some output => some { c.openApi.getD {} with output }
      | none => c.openApi }

/-- Generates and writes the documents of a project. -/
def generateIn (root : Path) (c : Config) : ExceptT Failure m Unit := do
  let project ← orFail (.unusableProject root) (Project.load root c)
  match project.generate with
  | .error faults => throw (.faults faults)
  | .ok o => writeOutput root c o

/-- Runs a command; what it prints is its answer. -/
def Command.run : Command → ExceptT Failure m String
  | .output config => do
    let c ← orFail (.unusableConfig config) (Config.load config)
    return ((rootOf config).join c.manifest.output).text ++ "\n"
  | .generate config manifest format openApi => do
    let c ← orFail (.unusableConfig config) (Config.load config)
    generateIn (rootOf config) (withOptions c manifest format openApi)
    return ""

end CommandLine

end RouteManifest
