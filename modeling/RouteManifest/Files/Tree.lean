import RouteManifest.Fault
import RouteManifest.Table

/-!
# Trees of files

A directory in memory: files hold a text, directories hold files and directories by name.

A path is followed segment by segment from the top of a tree. Every segment needs a directory to be looked up
in, `.` and empty segments stay where they are, and `..` goes back to where the walk came from, so a path can
be followed only if all that it passes exists (`follow`). What lies outside of the tree, above its top or
behind a leading slash, is not there.

A place is named by the names that lead to it from the top.
-/

namespace RouteManifest

/-- A file, or a directory with what is in it. -/
inductive FileTree where
  | file (text : String)
  | directory (entries : List (String × FileTree))
deriving Repr, Inhabited

/-- What a path denotes. -/
inductive EntryKind where
  | file | directory
deriving DecidableEq, Repr

namespace FileTree

/-- A tree without files. -/
def empty : FileTree := .directory []

/-- File or directory. -/
def kind : FileTree → EntryKind
  | .file _ => .file
  | .directory _ => .directory

/-- The entry of a directory that has a name. -/
def entry? (name : String) : FileTree → Option FileTree
  | .file _ => none
  | .directory entries => Table.find? entries name

/-- What stands at a place. -/
def at? (t : FileTree) : List String → Option FileTree
  | [] => some t
  | name :: rest => (t.entry? name).bind fun e => e.at? rest

/-- Puts a tree at a place. Directories on the way are made as needed; a file on the way is kept, and nothing
is put. -/
def put : FileTree → List String → FileTree → FileTree
  | _, [], new => new
  | .file text, _ :: _, _ => .file text
  | .directory entries, name :: rest, new =>
    let old := (Table.find? entries name).getD empty
    .directory (Table.insert entries name (put old rest new))

/-! ## Following a path -/

/-- Follows segments from a place, whose names are given from the innermost outwards. -/
def followFrom (t : FileTree) (here : List String) : List String → Except FileFault (List String)
  | [] => .ok here.reverse
  | segment :: rest =>
    match t.at? here.reverse with
    | none => .error .notFound
    | some (.file _) => .error .notDirectory
    | some (.directory entries) =>
      if segment = "" ∨ segment = "." then t.followFrom here rest
      else if segment = ".." then
        match here with
        | [] => .error .notFound
        | _ :: up => t.followFrom up rest
      else if Table.contains entries segment then t.followFrom (segment :: here) rest
      else .error .notFound

/-- The segments of a path that can lie in a tree. -/
def segments? (p : Path) : Option (List String) :=
  if p.text.isEmpty || p.isAbsolute then none else some (Text.split '/' p.text)

/-- The place that a path denotes. -/
def follow (t : FileTree) (p : Path) : Except FileFault (List String) :=
  match segments? p with
  | none => .error .notFound
  | some segments => t.followFrom [] segments

/-- What a path denotes. -/
def lookup (t : FileTree) (p : Path) : Except FileFault FileTree := do
  match t.at? (← t.follow p) with
  | some found => .ok found
  | none => .error .notFound

/-- File or directory, by path. -/
def kindAt (t : FileTree) (p : Path) : Except FileFault EntryKind := kind <$> t.lookup p

/-- Whether a path denotes a directory. -/
def isDirectory (t : FileTree) (p : Path) : Bool :=
  match t.kindAt p with
  | .ok .directory => true
  | _ => false

/-- The text of the file that a path denotes. -/
def readText (t : FileTree) (p : Path) : Except FileFault String := do
  match ← t.lookup p with
  | .file text => .ok text
  | .directory _ => .error .isDirectory

/-! ## All files below a place -/

mutual
/-- The places of all files of a tree, passing over the names that are not to be entered. -/
def places (enters : String → Bool) : FileTree → List (List String)
  | .file _ => [[]]
  | .directory entries => placesOf enters entries

/-- The places of all files of some entries. -/
def placesOf (enters : String → Bool) : List (String × FileTree) → List (List String)
  | [] => []
  | (name, e) :: rest =>
    (if enters name then (places enters e).map (name :: ·) else []) ++ placesOf enters rest
end

/-- The path of a place. -/
def pathOf (place : List String) : Path := ⟨Text.join "/" place⟩

/-- The files below a path, by their paths from there on; the file itself has the empty path. -/
def filesBelow (t : FileTree) (p : Path) (enters : String → Bool) : Except FileFault (List Path) := do
  return ((← t.lookup p).places enters).map pathOf

/-! ## Writing -/

/-- The place of a directory that segments lead to. -/
def directoryAt (t : FileTree) (segments : List String) : Except FileFault (List String) :=
  t.followFrom [] (segments ++ ["."])

/-- Makes one directory, in one that is there. -/
def makeDirectory (t : FileTree) (p : Path) : Except FileFault FileTree :=
  match (segments? p).map fun segments => segments.reverse.dropWhile (· == "") with
  | none | some [] => .error .notFound
  | some (last :: up) => do
    let here ← t.directoryAt up.reverse
    if last = "." ∨ last = ".." ∨ (t.at? (here ++ [last])).isSome then .error .alreadyExists
    else .ok (t.put (here ++ [last]) empty)

/-- Makes the first of some directories where each lies in the next, and the others as far as needed. The
empty path is always there. What has been made when one of them fails stays. -/
def makeDirectories (t : FileTree) : List Path → Except FileFault Unit × FileTree
  | [] => (.ok (), t)
  | p :: outer =>
    if p.text.isEmpty then (.ok (), t)
    else
      match t.makeDirectory p with
      | .ok made => (.ok (), made)
      | .error .notFound =>
        match t.makeDirectories outer with
        | (.ok (), t) =>
          match t.makeDirectory p with
          | .ok made => (.ok (), made)
          | .error fault => (if t.isDirectory p then .ok () else .error fault, t)
        | failed => failed
      | .error fault => (if t.isDirectory p then .ok () else .error fault, t)

/-- The tree with a directory and all that it lies in. -/
def createDirectories (t : FileTree) (p : Path) : Except FileFault FileTree :=
  match t.makeDirectories p.ancestors with
  | (.ok (), made) => .ok made
  | (.error fault, _) => .error fault

/-- Writes a file, in a directory that is there. A path that ends in a slash or in points can only mean a
directory. -/
def writeText (t : FileTree) (p : Path) (text : String) : Except FileFault FileTree :=
  match (segments? p).map List.reverse with
  | none | some [] => .error .notFound
  | some ("" :: up) => do
    let _ ← t.directoryAt ((up.dropWhile (· == "")).drop 1).reverse
    .error .isDirectory
  | some (last :: up) => do
    let here ← t.directoryAt up.reverse
    if last = "." ∨ last = ".." then .error .isDirectory
    else
      match t.at? (here ++ [last]) with
      | some (.directory _) => .error .isDirectory
      | _ => .ok (t.put (here ++ [last]) (.file text))

/-! ## Changes -/

/-- The text of the file at a place. -/
def textAt? (t : FileTree) (place : List String) : Option String :=
  match t.at? place with
  | some (.file text) => some text
  | _ => none

/-- The files of a tree that an earlier one does not have, or with another text, with their texts. -/
def changedSince (t earlier : FileTree) : List (Path × String) :=
  (t.places fun _ => true).filterMap fun place =>
    match t.textAt? place with
    | none => none
    | some text => if earlier.textAt? place = some text then none else some (pathOf place, text)

end FileTree

end RouteManifest
