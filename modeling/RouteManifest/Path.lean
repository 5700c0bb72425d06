import RouteManifest.Text.Segments

/-!
# Paths

A path is kept as it was written, because messages show it that way, but it means its *components*: empty
segments and inner `.` segments stand for nothing, a leading `.` and every `..` count. So `a//b/` and `a/b`
are the same path, and the order of paths is the order of their component lists, in which `a/b` comes
before `a-b`.
-/

namespace RouteManifest

/-- One step of a path. -/
inductive Component where
  /-- the leading `/` -/
  | root
  /-- a leading `.` -/
  | current
  /-- a `..` -/
  | parent
  | name (text : String)
deriving DecidableEq, Repr

namespace Component

/-- The kinds of steps in their order. -/
def rank : Component → Nat
  | .root => 0
  | .current => 1
  | .parent => 2
  | .name _ => 3

/-- Steps compare by kind, names by code points. -/
def compare : Component → Component → Ordering
  | .name a, .name b => Ord.compare a b
  | a, b => Ord.compare a.rank b.rank

/-- The name of a step that has one. -/
def name? : Component → Option String
  | .name text => some text
  | _ => none

/-- The step as written. -/
def text : Component → String
  | .root => "/"
  | .current => "."
  | .parent => ".."
  | .name text => text

end Component

/-- A path as written. -/
structure Path where
  text : String
deriving DecidableEq, Repr, Inhabited

namespace Path

/-- The step that a segment stands for behind the first segment. -/
def componentOf? : String → Option Component
  | "" => none
  | "." => none
  | ".." => some .parent
  | text => some (.name text)

/-- The steps of a path. -/
def components (p : Path) : List Component :=
  match Text.split '/' p.text with
  | [] => []
  | [""] => []
  | "" :: rest => .root :: rest.filterMap componentOf?
  | "." :: rest => .current :: rest.filterMap componentOf?
  | segments => segments.filterMap componentOf?

/-- Lists of steps compare from the left. -/
def compareComponents : List Component → List Component → Ordering
  | [], [] => .eq
  | [], _ :: _ => .lt
  | _ :: _, [] => .gt
  | a :: as, b :: bs => (a.compare b).then (compareComponents as bs)

/-- Paths compare by their steps. -/
def compare (p q : Path) : Ordering := compareComponents p.components q.components

/-- Two ways of writing one path. -/
def same (p q : Path) : Bool := p.components == q.components

/-- The names among the steps. -/
def names (p : Path) : List String := p.components.filterMap Component.name?

/-- The names among the steps, with `/` between them. -/
def slashed (p : Path) : String := Text.join "/" p.names

/-- Whether a path starts with the steps of another. -/
def startsWith (p lead : Path) : Bool := (Text.dropLeading? lead.components p.components).isSome

/-- Steps written as a path. -/
def ofComponents : List Component → Path
  | .root :: rest => ⟨"/" ++ Text.join "/" (rest.map Component.text)⟩
  | steps => ⟨Text.join "/" (steps.map Component.text)⟩

/-- The rest of a path behind the steps of another. -/
def relativeTo? (p lead : Path) : Option Path :=
  (Text.dropLeading? lead.components p.components).map ofComponents

/-- Whether the path starts at the root. -/
def isAbsolute (p : Path) : Bool := p.text.toList.head? == some '/'

/-- A path read from inside another; an absolute one stands for itself. -/
def join (base p : Path) : Path :=
  if p.isAbsolute || base.text.isEmpty then p
  else if base.text.toList.getLast? == some '/' then ⟨base.text ++ p.text⟩
  else ⟨base.text ++ "/" ++ p.text⟩

/-- Drops empty and `.` segments from the end of reversed segments, but never the first segment. -/
def dropIdle : List String → List String
  | [] => []
  | [first] => [first]
  | s :: t :: rest => if s = "" ∨ s = "." then dropIdle (t :: rest) else s :: t :: rest

/-- The path without its last step, as it was written; `none` for the root and the empty path. -/
def parent? (p : Path) : Option Path :=
  match dropIdle (Text.split '/' p.text).reverse with
  | [] => none
  | [""] => none
  | [_] => some ⟨""⟩
  | _ :: rest =>
    match dropIdle rest with
    | [""] => some ⟨"/"⟩
    | rest => some ⟨Text.join "/" rest.reverse⟩

/-- A path, what it lies in, what that lies in, and so on, as far as the bound goes. -/
def ancestorsWithin : Nat → Path → List Path
  | 0, p => [p]
  | bound + 1, p =>
    match p.parent? with
    | some outer => p :: ancestorsWithin bound outer
    | none => [p]

/-- A path, what it lies in, what that lies in, and so on. Every step drops a character at least. -/
def ancestors (p : Path) : List Path := ancestorsWithin p.text.length p

/-- Paths in their order. -/
def sort (paths : List Path) : List Path := paths.mergeSort fun p q => p.compare q != .gt

/-- The last step, if it is a name. -/
def fileName? (p : Path) : Option String := p.components.getLast?.bind Component.name?

/-- The part of the file name behind its last point, unless that point leads the name. -/
def extension? (p : Path) : Option String :=
  p.fileName?.bind fun name =>
    match (Text.split '.' name).reverse with
    | _ :: [""] => none
    | last :: _ :: _ => some last
    | _ => none

end Path

end RouteManifest
