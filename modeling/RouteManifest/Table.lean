/-!
# Tables

A table maps names to values and remembers the order in which names were first entered. Every ordered
mapping of a schema, a document or a registry is one.

A table is a plain list of entries, so that it can stand inside the types of schemas and type expressions;
`Table.insert` never enters a name twice, and `find?` answers with the first entry of a name.
-/

namespace RouteManifest

/-- Entries in the order their names were first entered. -/
abbrev Table (α : Type) := List (String × α)

namespace Table

variable {α β : Type}

/-- The names in order. -/
def names (t : Table α) : List String := t.map Prod.fst

/-- The values in order. -/
def values (t : Table α) : List α := t.map Prod.snd

/-- The value entered under a name. -/
def find? : Table α → String → Option α
  | [], _ => none
  | (n, v) :: rest, name => if n = name then some v else find? rest name

/-- Whether a name has been entered. -/
def contains (t : Table α) (name : String) : Bool := (t.find? name).isSome

/-- Enters a value. A name that is already there keeps its place and loses its old value. -/
def insert : Table α → String → α → Table α
  | [], name, value => [(name, value)]
  | (n, v) :: rest, name, value =>
    if n = name then (n, value) :: rest else (n, v) :: insert rest name value

/-- Takes a name out. -/
def erase : Table α → String → Table α
  | [], _ => []
  | (n, v) :: rest, name => if n = name then rest else (n, v) :: erase rest name

/-- The table of a list of entries, a later entry of a name replacing an earlier one. -/
def ofEntries (entries : List (String × α)) : Table α :=
  entries.foldl (fun t e => t.insert e.1 e.2) []

/-- Applies a function to every value. -/
def mapValues (f : α → β) (t : Table α) : Table β := t.map fun (n, v) => (n, f v)

/-- Inserts an entry in front of the first name that is not smaller. -/
def insertSorted (entry : String × α) : Table α → Table α
  | [] => [entry]
  | other :: rest => if other.1 < entry.1 then other :: insertSorted entry rest else entry :: other :: rest

/-- The entries sorted by name, in the order of code points. -/
def sortByName (t : Table α) : Table α := t.foldr insertSorted []

end Table

end RouteManifest
