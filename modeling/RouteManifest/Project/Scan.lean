import RouteManifest.Files.Storage
import RouteManifest.Pattern.Glob
import RouteManifest.Source.ItemReading

/-!
# Scanning a project

The source files of a project are the Rust files below its directory that lie in the source directory or are
controllers. Hidden entries and `target` are passed over, unless the project itself is called so.
-/

namespace RouteManifest

namespace Glob

/-- Reads patterns; the first that is none is the fault. -/
def parseAll : List String → Except Fault (List Glob)
  | [] => .ok []
  | pattern :: rest =>
    match parse? pattern with
    | some g => (parseAll rest).map (g :: ·)
    | none => .error (.config (.invalidGlob pattern))

/-- Whether a file is a controller: some pattern stands for its path. -/
def isController (globs : List Glob) (p : Path) : Bool := globs.any (·.isMatch p.slashed)

end Glob

/-- The source files of a project, in the order of their paths below its directory. -/
structure Scan where
  /-- all of them, controllers too -/
  files : List Path := []
  controllers : List Path := []
  /-- how many entries could not be looked at -/
  unreadable : Nat := 0
deriving DecidableEq, Repr

namespace Scan

/-- Whether an entry of a directory is looked into. -/
def enters (name : String) : Bool := name.toList.head? != some '.' && name != "target"

/-- What is found in a listing of the files below a directory. -/
def ofListing (root source : Path) (globs : List Glob) (listing : Listing) : Scan :=
  let rust := listing.files.filter fun p => (root.join p).extension? == some "rs"
  let kept := rust.filter fun p => Glob.isController globs p || p.startsWith source
  { files := Path.sort kept
    controllers := Path.sort (kept.filter (Glob.isController globs))
    unreadable := listing.unreadable }

/-- Whether a file is one of the controllers. -/
def isController (s : Scan) (p : Path) : Bool := s.controllers.any (·.same p)

variable {m : Type → Type} [Monad m] [Storage m]

/-- Scans a directory. -/
def run (root source : Path) (globs : List Glob) : m Scan := do
  return ofListing root source globs (← Storage.filesBelow root enters)

end Scan

namespace SourceFile

variable {m : Type → Type} [Monad m] [Storage m]

/-- Reads the file at one path and shows it under another. -/
def readAs (shown actual : Path) : ExceptT Fault m SourceFile := do
  match ← ExceptT.lift (Storage.readText actual) with
  | .error fault => throw (.unreachable fault)
  | .ok text =>
    match parse? shown text with
    | some file => return file
    | none => throw (.unparsable shown.text)

/-- Reads a file. -/
def read (p : Path) : ExceptT Fault m SourceFile := readAs p p

/-- Reads a file of a project, which is shown under its path below the directory of the project. -/
def readIn (root p : Path) : ExceptT Fault m SourceFile := readAs p (root.join p)

end SourceFile

end RouteManifest
