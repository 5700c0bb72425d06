import RouteManifest.CommandLine.Run

/-!
# The program

The commands on the files of the disk. A failed command says why and ends with the code 1, arguments that
denote no command end it with the code 2.
-/

namespace RouteManifest

namespace Disk

/-- The cause of an error of the disk. -/
def faultOf : IO.Error → FileFault
  | .noFileOrDirectory _ _ _ | .noSuchThing _ _ _ => .notFound
  | .alreadyExists _ _ _ => .alreadyExists
  | .inappropriateType _ code details =>
    if code == 20 then .notDirectory else if code == 21 then .isDirectory else .other details
  | error => .other (toString error)

/-- An action whose errors are faults. -/
def attempt {α : Type} (action : IO α) : IO (Except FileFault α) := do
  try return .ok (← action) catch error => return .error (faultOf error)

/-- Whether a path denotes a file or a directory. -/
def kindAt (p : Path) : IO EntryKind := do
  let place ← IO.FS.realPath p.text
  return if ← place.isDir then .directory else .file

/-- The files below a path, directory by directory. Links to directories are not followed. -/
def filesBelow (p : Path) (enters : String → Bool) : IO Listing := do
  let root ← IO.FS.realPath p.text
  if !(← root.isDir) then return ⟨[⟨""⟩], 0⟩
  let mut pending := [([], root)]
  let mut files := []
  let mut unreadable := 0
  while !pending.isEmpty do
    let here := pending
    pending := []
    for (names, directory) in here do
      try
        for entry in ← directory.readDir do
          if enters entry.fileName then
            let place := names ++ [entry.fileName]
            match (← entry.path.symlinkMetadata).type with
            | .dir => pending := (place, entry.path) :: pending
            | _ => if !(← entry.path.isDir) then files := ⟨Text.join "/" place⟩ :: files
      catch _ => unreadable := unreadable + 1
  return ⟨files, unreadable⟩

instance : Storage IO where
  kindAt p := attempt (kindAt p)
  readText p := attempt (IO.FS.readFile p.text)
  filesBelow p enters := do
    match ← attempt (filesBelow p enters) with
    | .ok listing => return listing
    | .error _ => return ⟨[], 1⟩
  createDirectories p := attempt (if p.text.isEmpty then pure () else IO.FS.createDirAll p.text)
  writeText p text := attempt (IO.FS.writeFile p.text text)

end Disk

namespace CommandLine

/-- How the program is used. -/
def help : String :=
  "Generate route descriptors and JSON schemas from file-based controllers\n\n"
    ++ "Commands:\n"
    ++ "  generate  Scan the project and write the route manifest\n"
    ++ "  output    Print where the manifest is written\n"
    ++ "  help      Print this message\n\n"
    ++ "Options:\n"
    ++ "  -c, --config <PATH>         Config file; defaults apply when it does not exist\n"
    ++ "  -o, --output <FILE>         Manifest path (generate)\n"
    ++ "  -f, --format <json|yaml>    Manifest format (generate)\n"
    ++ "      --openapi <FILE>        Also write an OpenAPI document (generate)\n"
    ++ "  -v, --verbose               Enable verbose output\n"
    ++ "  -h, --help                  Print help\n"
    ++ "  -V, --version               Print version\n"

/-- The version of the program. -/
def version : String := "0.1.0"

/-- What is said about arguments that denote no command. -/
def UsageFault.text : UsageFault → String
  | .helpWanted | .nothingGiven => help
  | .versionWanted => version ++ "\n"
  | .commandMissing => "error: a subcommand is required but one was not provided\n"
  | .unknownCommand => "error: unrecognized subcommand\n"
  | .unknownArgument => "error: unexpected argument found\n"
  | .invalidValue => "error: an argument has an invalid value or none\n"
  | .repeatedArgument => "error: an argument cannot be used multiple times\n"
  | .unneededValue => "error: an argument takes no value\n"

/-- Whether arguments ask for what is then said. -/
def UsageFault.isWanted : UsageFault → Bool
  | .helpWanted | .versionWanted => true
  | _ => false

end CommandLine

end RouteManifest

open RouteManifest CommandLine in
/-- Runs the command that the arguments denote. -/
def main (args : List String) : IO UInt32 := do
  match parse args with
  | .error fault =>
    if fault.isWanted then
      IO.print fault.text
      return 0
    IO.eprint fault.text
    return 2
  | .ok invocation =>
    match ← (invocation.command.run (m := IO)).run with
    | .ok printed =>
      IO.print printed
      return 0
    | .error failure =>
      IO.eprintln ("Error: " ++ failure.summary)
      if let some cause := failure.cause? then IO.eprintln ("\nCaused by:\n    " ++ cause)
      return 1
