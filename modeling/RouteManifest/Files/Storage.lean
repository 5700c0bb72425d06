import RouteManifest.Files.Tree

/-!
# Storage

What a run needs to do with files, whatever holds them: a computation in `m` that works on files takes
`[Storage m]` and says nothing else about where they are. A tree in memory is one storage, as the state of a
computation; a disk is another.
-/

namespace RouteManifest

/-- The files below a path, and how many entries could not be looked at. -/
structure Listing where
  /-- by their paths from there on -/
  files : List Path
  unreadable : Nat

/-- Files that computations in `m` can read and write. -/
class Storage (m : Type → Type) where
  /-- file or directory -/
  kindAt : Path → m (Except FileFault EntryKind)
  readText : Path → m (Except FileFault String)
  /-- all files below a path, passing over the names that are not to be entered -/
  filesBelow : Path → (String → Bool) → m Listing
  /-- makes a directory and all that it lies in -/
  createDirectories : Path → m (Except FileFault Unit)
  /-- writes a file, in a directory that is there -/
  writeText : Path → String → m (Except FileFault Unit)

namespace FileTree

/-- The files below a path; where there is no such path, that is one entry that cannot be looked at. -/
def listing (t : FileTree) (p : Path) (enters : String → Bool) : Listing :=
  match t.filesBelow p enters with
  | .ok files => ⟨files, 0⟩
  | .error _ => ⟨[], 1⟩

/-- Replaces the tree by a changed one, unless the change failed. -/
def update (change : FileTree → Except FileFault FileTree) : StateM FileTree (Except FileFault Unit) :=
  fun t =>
    match change t with
    | .ok changed => (.ok (), changed)
    | .error fault => (.error fault, t)

instance : Storage (StateM FileTree) where
  kindAt p := return (← get).kindAt p
  readText p := return (← get).readText p
  filesBelow p enters := return (← get).listing p enters
  createDirectories p := fun t => t.makeDirectories p.ancestors
  writeText p text := update fun t => t.writeText p text

end FileTree

end RouteManifest
